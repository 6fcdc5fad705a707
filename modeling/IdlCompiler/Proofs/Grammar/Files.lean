import IdlCompiler.Proofs.Grammar.Bodies
import IdlCompiler.Proofs.Grammar.FileEnd

/-!
This module contains the proof that declarations and source files are read as the grammar has them.
-/

namespace IdlCompiler

namespace Declaration

open Cursor Grammar

variable {s : Schema} {eof : Pos} {attrs : List ExtAttr} {ts pre rest : List Token}

theorem bodyDerives_of_readBody {kind name : Name} {base : Option String} {d : Declaration}
    {h : rest.length ≤ ts.length}
    (hread : (readBody s eof attrs kind name base ts).result = .ok (d, ⟨rest, h⟩)) :
    ∃ pre body, ts = pre ++ rest ∧ BodyDerives kind.text pre body ∧
      (∀ a ∈ Item.attached ⟨attrs, false, name, base, body⟩, s.Accepts a.1 a.2) ∧
      Item.declaration s ⟨attrs, false, name, base, body⟩ = d := by
  unfold readBody at hread
  split at hread
  . next hkind =>
    rcases Outcome.lift_bind_eq_ok_iff.1 hread with ⟨⟨items, rest₁, h₁⟩, hitems, hread⟩
    rcases Outcome.bind_eq_ok_iff.1 hread with ⟨values, hvalues, hread⟩
    rcases itemsDerive_of_readItems hitems with ⟨pre, raw, rfl, hderive, rfl, -⟩
    rcases Schema.result_validate_eq_ok_iff.1 hvalues with ⟨haccepts, rfl⟩
    simp only [Outcome.result_pure_eq_ok_iff, Prod.mk.injEq, Subtype.mk.injEq] at hread
    rcases hread with ⟨rfl, rfl⟩
    refine ⟨pre, .enum raw, rfl, hkind ▸ .enum hderive, ?_, rfl⟩
    exact List.forall_mem_singleton.2 haccepts
  . split at hread
    . next hkind =>
      rcases Outcome.bind_eq_ok_iff.1 hread with
        ⟨⟨attributes, operations, rest₁, h₁⟩, hmembers, hread⟩
      rcases Outcome.bind_eq_ok_iff.1 hread with ⟨values, hvalues, hread⟩
      rcases membersDerive_of_readMembers hmembers with
        ⟨pre, members, dangling, rfl, hderive, hvalid, rfl, rfl, -⟩
      rcases Schema.result_validate_eq_ok_iff.1 hvalues with ⟨haccepts, rfl⟩
      simp only [Outcome.result_pure_eq_ok_iff, Prod.mk.injEq, Subtype.mk.injEq] at hread
      rcases hread with ⟨rfl, rfl⟩
      refine ⟨pre, .interface members dangling, rfl, hkind ▸ .interface hderive, ?_, rfl⟩
      intro a ha
      rcases List.mem_cons.1 ha with rfl | ha
      . exact haccepts
      . rcases List.mem_flatMap.1 ha with ⟨m, hm, ha⟩
        exact hvalid m hm a ha
    . simp [Outcome.fail] at hread

theorem readBody_of_bodyDerives (eof : Pos) {kind name : Name} {base : Option String} {body : Body}
    (hderives : BodyDerives kind.text pre body)
    (haccepts : ∀ a ∈ Item.attached ⟨attrs, false, name, base, body⟩, s.Accepts a.1 a.2)
    (hclose : isAtOp '}' rest) :
    ∃ h, (readBody s eof attrs kind name base (pre ++ rest)).result =
      .ok (Item.declaration s ⟨attrs, false, name, base, body⟩, ⟨rest, h⟩) := by
  rcases kind with ⟨kind, pos⟩
  unfold readBody
  cases hderives with
  | enum hitems =>
    rcases readItems_of_itemsDerive eof hitems hclose with ⟨_, hread⟩
    have hvalues := Schema.result_validate_eq_ok_iff.2
      ⟨haccepts (.enum, attrs) (List.mem_singleton.2 rfl), rfl⟩
    simp only [↓reduceIte]
    rw [Outcome.result_lift_bind_of_ok hread, Outcome.result_bind_of_ok hvalues]
    exact ⟨by simp, rfl⟩
  | @interface ts members dangling hmembers =>
    have hvalid (m : Grammar.MemberDecl) (hm : m ∈ members) : m.Valid s := fun a ha =>
      haccepts a (List.mem_cons_of_mem _ (List.mem_flatMap.2 ⟨m, hm, ha⟩))
    rcases readMembers_of_membersDerive eof hmembers hvalid hclose with ⟨_, hread⟩
    have hvalues := Schema.result_validate_eq_ok_iff.2
      ⟨haccepts (.interface, attrs) List.mem_cons_self, rfl⟩
    simp only [String.reduceEq, ↓reduceIte]
    rw [Outcome.result_bind_of_ok hread, Outcome.result_bind_of_ok hvalues]
    exact ⟨by simp, rfl⟩

theorem declaration_eq_setPartial (i : Item) :
    i.declaration s = ({ i with isPartial := false }.declaration s).setPartial i.isPartial := by
  unfold Item.declaration
  cases i.body <;> rfl

theorem isEnum_iff_of_bodyDerives {kind : String} {i : Item} (h : BodyDerives kind ts i.body) :
    i.IsEnum ↔ kind ≠ "interface" := by
  rcases i with ⟨attrs, isPartial, name, base, body⟩
  cases h with
  | enum _ => simp [Item.IsEnum]
  | interface _ => simp [Item.IsEnum]

theorem itemDerives_of_readOne {isPartial : Bool} {kind : Name} {d : Declaration}
    {h : rest.length < ts.length}
    (hread : (readOne s eof attrs isPartial kind ts).result = .ok (d, ⟨rest, h⟩)) :
    ∃ ts₁ ts₂ name base body q r u,
      ts = name.token :: ts₁ ++ ⟨.op '{', q⟩ :: ts₂ ++ ⟨.op '}', r⟩ :: ⟨.op ';', u⟩ :: rest ∧
      BaseDerives ts₁ base ∧ BodyDerives kind.text ts₂ body ∧
      Item.Valid s ⟨attrs, isPartial, name, base, body⟩ ∧
      Item.declaration s ⟨attrs, isPartial, name, base, body⟩ = d := by
  unfold readOne at hread
  rcases Outcome.lift_bind_eq_ok_iff.1 hread with ⟨⟨name, rest₁, h₁⟩, hname, hread⟩
  rcases Outcome.lift_bind_eq_ok_iff.1 hread with ⟨⟨base, rest₂, h₂⟩, hbase, hread⟩
  rcases Outcome.bind_eq_ok_iff.1 hread with ⟨⟨declared, rest₃, h₃⟩, hbody, hread⟩
  dsimp only at hread
  split at hread
  . simp [Outcome.fail] at hread
  . next hpartial =>
    rcases Outcome.lift_bind_eq_ok_iff.1 hread with ⟨⟨rest₄, h₄⟩, hclose, hread⟩
    rcases Outcome.lift_bind_eq_ok_iff.1 hread with ⟨⟨rest₅, h₅⟩, hend, hread⟩
    have hts := takeIdent_eq_ok_iff.1 hname
    rcases baseDerives_of_readBase hbase with ⟨ts₁, q, hrest₁, hbaseDerives⟩
    rcases bodyDerives_of_readBody hbody with ⟨ts₂, body, hrest₂, hbodyDerives, haccepts, rfl⟩
    rcases takeOp_eq_ok_iff.1 hclose with ⟨r, hrest₃⟩
    rcases takeOp_eq_ok_iff.1 hend with ⟨u, hrest₄⟩
    simp only [Outcome.result_pure_eq_ok_iff, Prod.mk.injEq, Shorter.next, NotLonger.next,
      Subtype.mk.injEq] at hread hrest₁ hrest₂ hrest₃ hrest₄
    rcases hread with ⟨rfl, rfl⟩
    refine ⟨ts₁, ts₂, name, base, body, q, r, u, ?_, hbaseDerives, hbodyDerives, ⟨?_, haccepts⟩, ?_⟩
    . simp [hts, hrest₁, hrest₂, hrest₃, hrest₄]
    . intro henum
      have hkind := (isEnum_iff_of_bodyDerives hbodyDerives).1 henum
      simpa [hkind] using hpartial
    . exact declaration_eq_setPartial _

theorem readOne_of_itemDerives (eof : Pos) (kind : Name) (rest : List Token) {isPartial : Bool}
    {name : Name} {base : Option String} {body : Body} {ts₁ ts₂ : List Token} {q r u : Pos}
    (hbase : BaseDerives ts₁ base) (hbody : BodyDerives kind.text ts₂ body)
    (hvalid : Item.Valid s ⟨attrs, isPartial, name, base, body⟩) :
    ∃ h, (readOne s eof attrs isPartial kind (name.token :: (ts₁ ++ ⟨.op '{', q⟩ ::
        (ts₂ ++ ⟨.op '}', r⟩ :: ⟨.op ';', u⟩ :: rest)))).result =
      .ok (Item.declaration s ⟨attrs, isPartial, name, base, body⟩, ⟨rest, h⟩) := by
  have hclose : isAtOp '}' (⟨.op '}', r⟩ :: ⟨.op ';', u⟩ :: rest) := by simp [isAtOp]
  rcases readBase_of_baseDerives eof (ts₂ ++ ⟨.op '}', r⟩ :: ⟨.op ';', u⟩ :: rest) (p := q) hbase
    with ⟨_, hreadBase⟩
  have haccepts : ∀ a ∈ Item.attached ⟨attrs, false, name, base, body⟩, s.Accepts a.1 a.2 :=
    hvalid.accepts
  rcases readBody_of_bodyDerives eof hbody haccepts hclose with ⟨_, hreadBody⟩
  have hpartial : ¬(isPartial ∧ kind.text ≠ "interface") := by
    rintro ⟨hpartial, hkind⟩
    have hnot : isPartial = false :=
      hvalid.not_partial ((isEnum_iff_of_bodyDerives hbody).2 hkind)
    simp [hnot] at hpartial
  unfold readOne
  rw [Outcome.result_lift_bind_of_ok takeIdent_cons, Outcome.result_lift_bind_of_ok hreadBase,
    Outcome.result_bind_of_ok hreadBody]
  simp only [hpartial, ↓reduceIte]
  rw [Outcome.result_lift_bind_of_ok takeOp_cons, Outcome.result_lift_bind_of_ok takeOp_cons]
  refine ⟨by simp; omega, ?_⟩
  rw [declaration_eq_setPartial ⟨attrs, isPartial, name, base, body⟩]
  rfl

theorem isAtEnd_iff (eof : Pos) : isAtEnd ts ↔ ∃ p, TokenStream.upToEnd eof ts = [⟨.eof, p⟩] := by
  cases ts with
  | nil => simp [isAtEnd, TokenStream.upToEnd]
  | cons t tail =>
    rcases t with ⟨lexeme, p⟩
    by_cases h : lexeme = .eof <;> simp [isAtEnd, TokenStream.upToEnd, h]

theorem fileDerives_of_readAll {ds : List Declaration}
    (hread : (readAll s eof ts).result = .ok ds) :
    ∃ f, FileDerives (TokenStream.upToEnd eof ts) f ∧ f.Valid s ∧ f.declarations s = ds := by
  -- A declaration takes tokens, so the induction is on how many are left.
  induction hn : ts.length using Nat.strongRecOn generalizing ts ds with
  | ind n ih =>
    rw [readAll] at hread
    rcases Outcome.lift_bind_eq_ok_iff.1 hread with ⟨⟨attrs, rest₁, h₁⟩, hblock, hread⟩
    rcases ExtAttr.blockDerives_of_readBlock hblock with ⟨pre, rfl, hattrs⟩
    rcases hmark : readPartial rest₁ with ⟨isPartial, rest₂, h₂⟩
    rcases partialDerives_of_readPartial hmark with ⟨pre', rfl, hpartial⟩
    dsimp only at hread
    rw [hmark] at hread
    dsimp only at hread
    split at hread
    . next hend =>
      rcases (isAtEnd_iff eof).1 hend with ⟨p, hrest⟩
      rw [Outcome.result_pure_eq_ok_iff] at hread
      subst hread
      refine ⟨⟨[], attrs, isPartial⟩, ?_, by simp [File.Valid], rfl⟩
      rw [hattrs.eofFree.upToEnd_append, EofFree.upToEnd_append (hpartial.only inner_ne_eof), hrest,
        ← List.append_assoc]
      exact .nil hattrs hpartial
    . rcases Outcome.lift_bind_eq_ok_iff.1 hread with ⟨⟨kind, rest₃, h₃⟩, hkind, hread⟩
      rcases Outcome.bind_eq_ok_iff.1 hread with ⟨⟨d, rest₄, h₄⟩, hone, hread⟩
      rcases Outcome.bind_eq_ok_iff.1 hread with ⟨ds', hall, hread⟩
      have hrest₂ := takeIdent_eq_ok_iff.1 hkind
      subst hrest₂
      rcases itemDerives_of_readOne hone with
        ⟨ts₁, ts₂, name, base, body, q, r, u, rfl, hbase, hbody, hvalid, rfl⟩
      rcases ih _ (by simp at hn ⊢; omega) hall rfl with ⟨f, hderives, hvalidAll, rfl⟩
      rw [Outcome.result_pure_eq_ok_iff] at hread
      subst hread
      have hitem : ItemDerives _ ⟨attrs, isPartial, name, base, body⟩ :=
        .intro (p := kind.pos) (q := q) (r := r) (u := u) hattrs hpartial hbase hbody
      refine ⟨⟨_ :: f.items, f.dangling, f.danglingPartial⟩, ?_, ?_, rfl⟩
      . have hsplit := hitem.eofFree.upToEnd_append eof rest₄
        simp only [List.append_assoc, List.cons_append, List.nil_append] at hsplit ⊢
        rw [Name.token, hsplit]
        simpa using FileDerives.cons hitem hderives
      . exact List.forall_mem_cons.2 ⟨hvalid, hvalidAll⟩

theorem takeWord?_eq_none_of_isAtEnd {word : String} (h : isAtEnd ts) :
    takeWord? word ts = none := by
  unfold takeWord?
  split
  . simp [isAtEnd] at h
  . rfl

theorem isAtOp_eq_false_of_isAtEnd {c : Char} (h : isAtEnd ts) : isAtOp c ts = false := by
  cases ts with
  | nil => rfl
  | cons t tail =>
    simp only [isAtEnd, decide_eq_true_eq] at h
    simp [isAtOp, h]

theorem isAtOp_append_of_partialDerives {c : Char} {isPartial : Bool}
    (hderives : PartialDerives pre isPartial) (h : isAtOp c rest = false) :
    isAtOp c (pre ++ rest) = false := by
  cases hderives with
  | none => exact h
  | some => rfl

theorem takeWord?_partial_of_bodyDerives {kind : String} {body : Body} {p : Pos} (rest : List Token)
    (hderives : BodyDerives kind ts body) :
    takeWord? "partial" (⟨.ident kind, p⟩ :: rest) = none := by
  cases hderives <;> rfl

theorem readAll_of_fileDerives (eof : Pos) {f : File}
    (hderives : FileDerives (TokenStream.upToEnd eof ts) f) (hvalid : f.Valid s) :
    (readAll s eof ts).result = .ok (f.declarations s) := by
  -- The derivation ends with the file, and `ts` may go on behind it: what is derived is cut off
  -- from `ts` part by part.
  generalize hall : TokenStream.upToEnd eof ts = all at hderives
  induction hderives generalizing ts with
  | @nil ts₁ ts₂ dangling isPartial p hattrs hpartial =>
    rw [List.append_assoc] at hall
    rcases hattrs.eofFree.exists_of_upToEnd_eq_append hall with ⟨rest, rfl, hrest⟩
    rcases EofFree.exists_of_upToEnd_eq_append (hpartial.only inner_ne_eof) hrest with
      ⟨rest, rfl, hempty⟩
    have hend := (isAtEnd_iff eof).2 ⟨p, hempty⟩
    have hopen := isAtOp_append_of_partialDerives hpartial
      (isAtOp_eq_false_of_isAtEnd (c := '[') hend)
    rcases ExtAttr.readBlock_of_blockDerives eof _ hattrs hopen with ⟨_, hblock⟩
    rcases readPartial_of_partialDerives hpartial (takeWord?_eq_none_of_isAtEnd hend) with
      ⟨_, hmark⟩
    rw [readAll, Outcome.result_lift_bind_of_ok hblock]
    simp only [hmark, hend, ↓reduceIte]
    rfl
  | @cons ts' ts'' item items dangling _ hitem _ ih =>
    rcases hitem.eofFree.exists_of_upToEnd_eq_append hall with ⟨rest, rfl, hrest⟩
    have hdeclarations := ih (fun i hi => hvalid i (List.mem_cons_of_mem _ hi)) hrest
    have hitemValid := hvalid item List.mem_cons_self
    rcases hitem with @⟨ts₁, ts₂, ts₃, ts₄, attrs, isPartial, kind, base, body, p, q, r, u, name,
      hattrs, hpartial, hbase, hbody⟩
    generalize htail : name.token :: (ts₃ ++ ⟨.op '{', q⟩ ::
      (ts₄ ++ ⟨.op '}', r⟩ :: ⟨.op ';', u⟩ :: rest)) = tail
    have hsplit : ts₁ ++ ts₂ ++ ⟨.ident kind, p⟩ :: name.token :: ts₃ ++ ⟨.op '{', q⟩ :: ts₄ ++
        [⟨.op '}', r⟩, ⟨.op ';', u⟩] ++ rest = ts₁ ++ (ts₂ ++ ⟨.ident kind, p⟩ :: tail) := by
      simp [← htail]
    have hopen : isAtOp '[' (ts₂ ++ ⟨.ident kind, p⟩ :: tail) = false :=
      isAtOp_append_of_partialDerives hpartial rfl
    rcases ExtAttr.readBlock_of_blockDerives eof _ hattrs hopen with ⟨_, hblock⟩
    rcases readPartial_of_partialDerives hpartial
      (takeWord?_partial_of_bodyDerives (p := p) tail hbody) with ⟨_, hmark⟩
    have hkind : takeIdent eof (⟨.ident kind, p⟩ :: tail) =
      .ok (⟨kind, p⟩, ⟨tail, Nat.lt_succ_self _⟩) := rfl
    rcases readOne_of_itemDerives eof ⟨kind, p⟩ rest (q := q) (r := r) (u := u) hbase hbody
      hitemValid with ⟨_, hone⟩
    rw [hsplit, readAll, Outcome.result_lift_bind_of_ok hblock]
    dsimp only
    rw [hmark]
    simp only [isAtEnd, reduceCtorEq, decide_false, Bool.false_eq_true, ↓reduceIte]
    rw [Outcome.result_lift_bind_of_ok hkind]
    subst htail
    rw [Outcome.result_bind_of_ok hone, Outcome.result_bind_of_ok hdeclarations]
    rfl

end Declaration

end IdlCompiler
