import IdlCompiler.Proofs.Grammar.ExtAttrs
import IdlCompiler.Proofs.Grammar.Meaning
import IdlCompiler.Proofs.Grammar.Types

/-!
This module contains the proof that the members of interfaces are read as the grammar has them.
-/

namespace IdlCompiler

namespace Grammar

variable {pre : List Token} {t : IdlType} {name : Name}

theorem TypeDerives.exists_cons (h : TypeDerives pre t) :
    ∃ word p tail, pre = ⟨.ident word, p⟩ :: tail := by
  cases t with
  | optional elem =>
    cases h with
    | optional helem hnot =>
      cases helem with
      | optional => exact absurd rfl (hnot _)
      | _ => exact ⟨_, _, _, rfl⟩
  | _ => cases h <;> exact ⟨_, _, _, rfl⟩

theorem TypedNameDerives.exists_cons (h : TypedNameDerives pre t name) :
    ∃ word p tail, pre = ⟨.ident word, p⟩ :: tail := by
  rcases h with ⟨htype, _⟩
  rcases htype.exists_cons with ⟨word, p, tail, rfl⟩
  exact ⟨word, p, _, rfl⟩

theorem TypedNameDerives.isAtIdent_append (h : TypedNameDerives pre t name) (rest : List Token) :
    Cursor.isAtIdent (pre ++ rest) = true := by
  rcases h.exists_cons with ⟨word, p, tail, rfl⟩
  rfl

theorem TypedNameDerives.isAtOp_append (h : TypedNameDerives pre t name) (c : Char)
    (rest : List Token) : Cursor.isAtOp c (pre ++ rest) = false := by
  rcases h.exists_cons with ⟨word, p, tail, rfl⟩
  rfl

theorem TypedNameDerives.takeWord?_append (h : TypedNameDerives pre t name) {word : String}
    (hhead : pre.head?.map (·.lexeme) ≠ some (.ident word)) (rest : List Token) :
    Cursor.takeWord? word (pre ++ rest) = none := by
  rcases h.exists_cons with ⟨first, p, tail, rfl⟩
  simp only [List.head?_cons, Option.map_some, ne_eq, Option.some.injEq,
    Lexeme.ident.injEq] at hhead
  simp [Cursor.takeWord?, hhead]

end Grammar

theorem Cursor.isAtOp_of_isAtOp {c d : Char} {ts : List Token} (h : isAtOp c ts) (hne : c ≠ d) :
    isAtOp d ts = false := by
  cases ts with
  | nil => rfl
  | cons t ts =>
    simp only [isAtOp, decide_eq_true_eq] at h
    simp [isAtOp, h, hne]

namespace Declaration

open Cursor Grammar

variable {s : Schema} {eof : Pos} {attrs : List ExtAttr} {ts pre rest : List Token}

theorem typedNameDerives_of_read {type : IdlType} {name : Name} {rest₁ : List Token}
    {h₁ : rest₁.length < ts.length} {h : rest.length < rest₁.length}
    (htype : IdlType.read eof ts = .ok (type, ⟨rest₁, h₁⟩))
    (hname : takeIdent eof rest₁ = .ok (name, ⟨rest, h⟩)) :
    ∃ pre, ts = pre ++ rest ∧ TypedNameDerives pre type name := by
  rcases (IdlType.readsSoundly ts).1 _ _ _ htype with ⟨pre, rfl, hderives, hlong⟩
  have hrest := takeIdent_eq_ok_iff.1 hname
  subst hrest
  refine ⟨pre ++ [name.token], by simp, .intro hderives ?_⟩
  -- A name `long` behind the type `long` would have been read as a part of the type.
  rintro ⟨htype, hname⟩
  have := hlong htype
  simp [takeWord?, Name.token, hname] at this

theorem read_of_typedNameDerives (eof : Pos) (rest : List Token) {type : IdlType} {name : Name}
    (hderives : TypedNameDerives pre type name) :
    ∃ h, IdlType.read eof (pre ++ rest) = .ok (type, ⟨name.token :: rest, h⟩) := by
  rcases hderives with ⟨htype, hlong⟩
  rw [List.append_assoc, List.singleton_append]
  refine (IdlType.readsFully _).1 type _ htype ?_
  unfold IdlType.EndsBefore IdlType.EndsPlainBefore
  split
  . trivial
  . refine ⟨rfl, ?_⟩
    split
    . split
      . next hname => simpa [takeWord?, Name.token, hname] using hlong
      . rfl
    . trivial

theorem memberDerives_of_readAttribute {a : Attribute} {h : rest.length < ts.length}
    (hread : (readAttribute s eof attrs ts).result = .ok (a, ⟨rest, h⟩)) :
    ∃ pre type name p, ts = pre ++ ⟨.op ';', p⟩ :: rest ∧ TypedNameDerives pre type name ∧
      s.Accepts .attribute attrs ∧
      MemberDecl.attribute? s (.attribute attrs type name) = some a := by
  unfold readAttribute at hread
  rcases Outcome.lift_bind_eq_ok_iff.1 hread with ⟨⟨type, rest₁, h₁⟩, htype, hread⟩
  rcases Outcome.lift_bind_eq_ok_iff.1 hread with ⟨⟨name, rest₂, h₂⟩, hname, hread⟩
  rcases Outcome.lift_bind_eq_ok_iff.1 hread with ⟨⟨rest₃, h₃⟩, hend, hread⟩
  rcases Outcome.bind_eq_ok_iff.1 hread with ⟨values, hvalues, hread⟩
  rcases typedNameDerives_of_read htype hname with ⟨pre, rfl, hderives⟩
  rcases takeOp_eq_ok_iff.1 hend with ⟨p, hrest₂⟩
  rcases Schema.result_validate_eq_ok_iff.1 hvalues with ⟨haccepts, rfl⟩
  simp only [Outcome.result_pure_eq_ok_iff, Prod.mk.injEq, Shorter.next, Subtype.mk.injEq] at hread
  rcases hread with ⟨rfl, rfl⟩
  exact ⟨pre, type, name, p, by simp [show rest₂ = _ from hrest₂], hderives, haccepts, rfl⟩

theorem readAttribute_of_typedNameDerives (eof : Pos) (rest : List Token) {type : IdlType}
    {name : Name} {p : Pos} (hderives : TypedNameDerives pre type name)
    (haccepts : s.Accepts .attribute attrs) :
    ∃ h, (readAttribute s eof attrs (pre ++ ⟨.op ';', p⟩ :: rest)).result =
      .ok (⟨name.text, type, name.pos, attrs, s.valuesOf .attribute attrs⟩, ⟨rest, h⟩) := by
  rcases read_of_typedNameDerives eof (⟨.op ';', p⟩ :: rest) hderives with ⟨_, htype⟩
  have hvalues := Schema.result_validate_eq_ok_iff.2 ⟨haccepts, rfl⟩
  unfold readAttribute
  rw [Outcome.result_lift_bind_of_ok htype, Outcome.result_lift_bind_of_ok takeIdent_cons,
    Outcome.result_lift_bind_of_ok takeOp_cons, Outcome.result_bind_of_ok hvalues]
  exact ⟨by simp; omega, rfl⟩

theorem paramsDerive_of_readArguments {args : List Argument} {h : rest.length ≤ ts.length}
    (hread : (readArguments s eof ts).result = .ok (args, ⟨rest, h⟩)) :
    ∃ pre params dangling, ts = pre ++ rest ∧ ParamsDerive pre params dangling ∧
      (∀ p ∈ params, s.Accepts .argument p.attrs) ∧ params.map (·.argument s) = args ∧
      isAtOp ')' rest := by
  induction hn : ts.length using Nat.strongRecOn generalizing ts args rest with
  | ind n ih =>
    rw [readArguments] at hread
    rcases Outcome.lift_bind_eq_ok_iff.1 hread with ⟨⟨attrs, rest₁, h₁⟩, hblock, hread⟩
    rcases ExtAttr.blockDerives_of_readBlock hblock with ⟨pre, rfl, hattrs⟩
    dsimp only at hread
    split at hread
    -- Extended attributes in front of the closing parenthesis are read and dropped.
    . next hclose =>
      simp only [Outcome.result_pure_eq_ok_iff, Prod.mk.injEq, Subtype.mk.injEq] at hread
      rcases hread with ⟨rfl, rfl⟩
      exact ⟨pre, [], attrs, rfl, .none hattrs, by simp, rfl, hclose⟩
    . split at hread
      . rcases Outcome.lift_bind_eq_ok_iff.1 hread with ⟨⟨type, rest₂, h₂⟩, htype, hread⟩
        rcases Outcome.lift_bind_eq_ok_iff.1 hread with ⟨⟨name, rest₃, h₃⟩, hname, hread⟩
        rcases Outcome.bind_eq_ok_iff.1 hread with ⟨values, hvalues, hread⟩
        rcases typedNameDerives_of_read htype hname with ⟨pre', rfl, hderives⟩
        rcases Schema.result_validate_eq_ok_iff.1 hvalues with ⟨haccepts, rfl⟩
        have hparam := ParamDerives.intro hattrs hderives
        dsimp only at hread
        split at hread
        . next hclose =>
          simp only [Outcome.result_pure_eq_ok_iff, Prod.mk.injEq, Shorter.weaken, NotLonger.next,
            Shorter.next, Subtype.mk.injEq] at hread
          rcases hread with ⟨rfl, rfl⟩
          exact ⟨pre ++ pre', [_], [], by simp, .last hparam, by simpa using haccepts, rfl, hclose⟩
        . rcases Outcome.lift_bind_eq_ok_iff.1 hread with ⟨⟨rest₄, h₄⟩, hcomma, hread⟩
          rcases Outcome.bind_eq_ok_iff.1 hread with ⟨⟨args', rest₅, h₅⟩, hargs, hread⟩
          rcases takeOp_eq_ok_iff.1 hcomma with ⟨p, rfl⟩
          rcases ih _ (by simp at hn ⊢; omega) hargs rfl with
            ⟨pre'', params, dangling, rfl, hparams, hvalid, rfl, hclose⟩
          simp only [Outcome.result_pure_eq_ok_iff, Prod.mk.injEq, Shorter.weaken, Shorter.nextIf,
            Subtype.mk.injEq] at hread
          rcases hread with ⟨rfl, rfl⟩
          exact ⟨pre ++ pre' ++ ⟨.op ',', p⟩ :: pre'', _ :: params, dangling, by simp,
            .more hparam hparams, by simpa using ⟨haccepts, hvalid⟩, rfl, hclose⟩
      . simp [Outcome.fail] at hread

theorem readArguments_param (eof : Pos) (rest : List Token) {ts ts' : List Token} {type : IdlType}
    {name : Name} (hattrs : BlockDerives ts attrs) (hderives : TypedNameDerives ts' type name)
    (haccepts : s.Accepts .argument attrs) :
    ∃ h : rest.length < (ts ++ (ts' ++ rest)).length,
      (readArguments s eof (ts ++ (ts' ++ rest))).result =
        (if isAtOp ')' rest then
          pure ([Param.argument s ⟨attrs, type, name⟩], ⟨rest, Nat.le_of_lt h⟩)
        else do
          let ⟨rest₁, h₁⟩ ← takeOp eof ',' rest
          let (args, rest₂) ← readArguments s eof rest₁
          return (Param.argument s ⟨attrs, type, name⟩ :: args,
            ((Shorter.next ⟨rest, h⟩ ⟨rest₁, h₁⟩).nextIf rest₂).weaken) :
          Reading (List Argument × NotLonger (ts ++ (ts' ++ rest)))).result := by
  rcases ExtAttr.readBlock_of_blockDerives eof _ hattrs
    (hderives.isAtOp_append '[' rest) with ⟨_, hblock⟩
  rcases read_of_typedNameDerives eof rest hderives with ⟨_, htype⟩
  have hvalues := Schema.result_validate_eq_ok_iff.2 ⟨haccepts, rfl⟩
  refine ⟨by rcases hderives.exists_cons with ⟨_, _, _, rfl⟩; simp; omega, ?_⟩
  rw [readArguments, Outcome.result_lift_bind_of_ok hblock]
  simp only [hderives.isAtOp_append ')' rest, hderives.isAtIdent_append rest, Bool.false_eq_true,
    ↓reduceIte]
  rw [Outcome.result_lift_bind_of_ok htype, Outcome.result_lift_bind_of_ok takeIdent_cons,
    Outcome.result_bind_of_ok hvalues]
  rfl

theorem readArguments_of_paramsDerive (eof : Pos) {params : List Param} {dangling : List ExtAttr}
    (hderive : ParamsDerive pre params dangling)
    (hvalid : ∀ p ∈ params, s.Accepts .argument p.attrs) (hclose : isAtOp ')' rest) :
    ∃ h, (readArguments s eof (pre ++ rest)).result =
      .ok (params.map (·.argument s), ⟨rest, h⟩) := by
  induction hderive with
  | @none ts dangling hattrs =>
    rcases ExtAttr.readBlock_of_blockDerives eof _ hattrs
      (isAtOp_of_isAtOp hclose (by decide)) with ⟨_, hblock⟩
    rw [readArguments, Outcome.result_lift_bind_of_ok hblock]
    simp only [hclose, ↓reduceIte]
    exact ⟨by simp, rfl⟩
  | @last ts param hparam =>
    rcases hparam with ⟨hattrs, hderives⟩
    have haccepts := hvalid _ List.mem_cons_self
    rcases readArguments_param eof rest hattrs hderives haccepts with ⟨_, hread⟩
    rw [List.append_assoc, hread]
    simp only [hclose, ↓reduceIte]
    exact ⟨by simp; omega, rfl⟩
  | @more ts ts' param params dangling q hparam _ ih =>
    rcases hparam with ⟨hattrs, hderives⟩
    rcases ih (fun p hp => hvalid p (by simp [hp])) with ⟨_, hargs⟩
    have haccepts := hvalid _ List.mem_cons_self
    rcases readArguments_param eof (⟨.op ',', q⟩ :: (ts' ++ rest)) hattrs hderives haccepts
      with ⟨_, hread⟩
    rw [List.append_assoc, List.append_assoc, List.cons_append, hread]
    have hnotClose : isAtOp ')' (⟨.op ',', q⟩ :: (ts' ++ rest)) = false := rfl
    simp only [hnotClose, Bool.false_eq_true, ↓reduceIte]
    rw [Outcome.result_lift_bind_of_ok takeOp_cons, Outcome.result_bind_of_ok hargs]
    exact ⟨by simp; omega, rfl⟩

theorem memberDerives_of_readOperation {o : Operation} {h : rest.length < ts.length}
    (hread : (readOperation s eof attrs ts).result = .ok (o, ⟨rest, h⟩)) :
    ∃ pre pre' result name params dangling p q r,
      ts = pre ++ ⟨.op '(', p⟩ :: pre' ++ ⟨.op ')', q⟩ :: ⟨.op ';', r⟩ :: rest ∧
      TypedNameDerives pre result name ∧ ParamsDerive pre' params dangling ∧
      MemberDecl.Valid s (.operation attrs result name params dangling) ∧
      MemberDecl.operation? s (.operation attrs result name params dangling) = some o := by
  unfold readOperation at hread
  rcases Outcome.lift_bind_eq_ok_iff.1 hread with ⟨⟨result, rest₁, h₁⟩, hresult, hread⟩
  rcases Outcome.lift_bind_eq_ok_iff.1 hread with ⟨⟨name, rest₂, h₂⟩, hname, hread⟩
  rcases Outcome.lift_bind_eq_ok_iff.1 hread with ⟨⟨rest₃, h₃⟩, hopen, hread⟩
  rcases Outcome.bind_eq_ok_iff.1 hread with ⟨⟨args, rest₄, h₄⟩, hargs, hread⟩
  rcases Outcome.lift_bind_eq_ok_iff.1 hread with ⟨⟨rest₅, h₅⟩, hclose, hread⟩
  rcases Outcome.lift_bind_eq_ok_iff.1 hread with ⟨⟨rest₆, h₆⟩, hend, hread⟩
  rcases Outcome.bind_eq_ok_iff.1 hread with ⟨values, hvalues, hread⟩
  rcases typedNameDerives_of_read hresult hname with ⟨pre, hts, hderives⟩
  rcases takeOp_eq_ok_iff.1 hopen with ⟨p, hrest₂⟩
  rcases paramsDerive_of_readArguments hargs with
    ⟨pre', params, dangling, hrest₃, hparams, hvalid, rfl, -⟩
  rcases takeOp_eq_ok_iff.1 hclose with ⟨q, hrest₄⟩
  rcases takeOp_eq_ok_iff.1 hend with ⟨r, hrest₅⟩
  rcases Schema.result_validate_eq_ok_iff.1 hvalues with ⟨haccepts, rfl⟩
  simp only [Outcome.result_pure_eq_ok_iff, Prod.mk.injEq, Shorter.next, Shorter.nextIf,
    Subtype.mk.injEq] at hread hrest₂ hrest₃ hrest₄ hrest₅
  rcases hread with ⟨rfl, rfl⟩
  refine ⟨pre, pre', result, name, params, dangling, p, q, r, ?_, hderives, hparams, ?_, rfl⟩
  . simp [hts, hrest₂, hrest₃, hrest₄, hrest₅]
  . exact List.forall_mem_cons.2 ⟨haccepts, List.forall_mem_map.2 hvalid⟩

theorem readOperation_of_typedNameDerives (eof : Pos) (rest : List Token) {ts ts' : List Token}
    {result : IdlType} {name : Name} {params : List Param} {dangling : List ExtAttr} {p q r : Pos}
    (hderives : TypedNameDerives ts result name) (hparams : ParamsDerive ts' params dangling)
    (hvalid : MemberDecl.Valid s (.operation attrs result name params dangling)) :
    ∃ h, (readOperation s eof attrs
        (ts ++ ⟨.op '(', p⟩ :: (ts' ++ ⟨.op ')', q⟩ :: ⟨.op ';', r⟩ :: rest))).result =
      .ok (⟨name.text, result, params.map (·.argument s), name.pos, attrs,
        s.valuesOf .operation attrs⟩, ⟨rest, h⟩) := by
  have haccepts : s.Accepts .operation attrs := hvalid (.operation, attrs) List.mem_cons_self
  have hvalidParams (param : Param) (h : param ∈ params) : s.Accepts .argument param.attrs :=
    hvalid (.argument, param.attrs) (List.mem_cons_of_mem _ (List.mem_map_of_mem h))
  rcases read_of_typedNameDerives eof _ hderives with ⟨_, hresult⟩
  have hclose : isAtOp ')' (⟨.op ')', q⟩ :: ⟨.op ';', r⟩ :: rest) := by simp [isAtOp]
  rcases readArguments_of_paramsDerive eof hparams hvalidParams hclose with ⟨_, hargs⟩
  have hvalues := Schema.result_validate_eq_ok_iff.2 ⟨haccepts, rfl⟩
  unfold readOperation
  rw [Outcome.result_lift_bind_of_ok hresult, Outcome.result_lift_bind_of_ok takeIdent_cons,
    Outcome.result_lift_bind_of_ok takeOp_cons, Outcome.result_bind_of_ok hargs,
    Outcome.result_lift_bind_of_ok takeOp_cons, Outcome.result_lift_bind_of_ok takeOp_cons,
    Outcome.result_bind_of_ok hvalues]
  exact ⟨by simp; omega, rfl⟩

theorem membersDerive_of_readMembers {attributes : List Attribute} {operations : List Operation}
    {h : rest.length ≤ ts.length}
    (hread : (readMembers s eof ts).result = .ok (attributes, operations, ⟨rest, h⟩)) :
    ∃ pre members dangling, ts = pre ++ rest ∧ MembersDerive pre members dangling ∧
      (∀ m ∈ members, m.Valid s) ∧ members.filterMap (·.attribute? s) = attributes ∧
      members.filterMap (·.operation? s) = operations ∧ isAtOp '}' rest := by
  induction hn : ts.length using Nat.strongRecOn generalizing ts attributes operations rest with
  | ind n ih =>
    rw [readMembers] at hread
    rcases Outcome.lift_bind_eq_ok_iff.1 hread with ⟨⟨attrs, rest₁, h₁⟩, hblock, hread⟩
    rcases ExtAttr.blockDerives_of_readBlock hblock with ⟨pre, rfl, hattrs⟩
    dsimp only at hread
    split at hread
    . next hclose =>
      simp only [Outcome.result_pure_eq_ok_iff, Prod.mk.injEq, Subtype.mk.injEq] at hread
      rcases hread with ⟨rfl, rfl, rfl⟩
      exact ⟨pre, [], attrs, rfl, .nil hattrs, by simp, rfl, rfl, hclose⟩
    . split at hread
      . next rest₂ h₂ hword =>
        rcases takeWord?_eq_some_iff.1 hword with ⟨p, rfl⟩
        rcases Outcome.bind_eq_ok_iff.1 hread with ⟨⟨member, rest₃, h₃⟩, hmember, hread⟩
        rcases Outcome.bind_eq_ok_iff.1 hread with
          ⟨⟨attributes', operations', rest₄, h₄⟩, hmembers, hread⟩
        rcases memberDerives_of_readAttribute hmember with
          ⟨pre', type, name, q, rfl, hderives, haccepts, hdeclared⟩
        rcases ih _ (by simp at hn ⊢; omega) hmembers rfl with
          ⟨pre'', members, dangling, rfl, hderive, hvalid, rfl, rfl, hclose⟩
        simp only [Outcome.result_pure_eq_ok_iff, Prod.mk.injEq, Subtype.mk.injEq] at hread
        rcases hread with ⟨rfl, rfl, rfl⟩
        refine ⟨_, .attribute attrs type name :: members, dangling, ?_,
          .cons (.attribute (p := p) (q := q) hattrs hderives) hderive, ?_, ?_, ?_, hclose⟩
        . simp
        . refine List.forall_mem_cons.2 ⟨?_, hvalid⟩
          exact List.forall_mem_singleton.2 haccepts
        . rw [List.filterMap_cons_some hdeclared]
        . rw [List.filterMap_cons_none rfl]
      . next hword =>
        split at hread
        . rcases Outcome.bind_eq_ok_iff.1 hread with ⟨⟨member, rest₂, h₂⟩, hmember, hread⟩
          rcases Outcome.bind_eq_ok_iff.1 hread with
            ⟨⟨attributes', operations', rest₃, h₃⟩, hmembers, hread⟩
          rcases memberDerives_of_readOperation hmember with
            ⟨pre', pre'', result, name, params, inner, p, q, r, rfl, hderives, hparams,
              hmemberValid, hdeclared⟩
          rcases ih _ (by simp at hn ⊢; omega) hmembers rfl with
            ⟨pre₃, members, dangling, rfl, hderive, hvalid, rfl, rfl, hclose⟩
          simp only [Outcome.result_pure_eq_ok_iff, Prod.mk.injEq, Subtype.mk.injEq] at hread
          rcases hread with ⟨rfl, rfl, rfl⟩
          -- The word that opens an attribute was tried first.
          have hhead : pre'.head?.map (·.lexeme) ≠ some (.ident "attribute") := by
            rcases hderives.exists_cons with ⟨word, u, tail, rfl⟩
            rintro heq
            simp only [List.head?_cons, Option.map_some, Option.some.injEq,
              Lexeme.ident.injEq] at heq
            simp [takeWord?, heq] at hword
          refine ⟨_, .operation attrs result name params inner :: members, dangling, ?_,
            .cons (.operation (p := p) (q := q) (r := r) hattrs hderives hhead hparams) hderive,
            ?_, ?_, ?_, hclose⟩
          . simp
          . exact List.forall_mem_cons.2 ⟨hmemberValid, hvalid⟩
          . rw [List.filterMap_cons_none rfl]
          . rw [List.filterMap_cons_some hdeclared]
        . simp [Outcome.fail] at hread

theorem readMembers_of_membersDerive (eof : Pos) {members : List MemberDecl}
    {dangling : List ExtAttr} (hderive : MembersDerive pre members dangling)
    (hvalid : ∀ m ∈ members, m.Valid s) (hclose : isAtOp '}' rest) :
    ∃ h, (readMembers s eof (pre ++ rest)).result =
      .ok (members.filterMap (·.attribute? s), members.filterMap (·.operation? s), ⟨rest, h⟩) := by
  induction hderive with
  | @nil ts dangling hattrs =>
    rcases ExtAttr.readBlock_of_blockDerives eof _ hattrs
      (isAtOp_of_isAtOp hclose (by decide)) with ⟨_, hblock⟩
    rw [readMembers, Outcome.result_lift_bind_of_ok hblock]
    simp only [hclose, ↓reduceIte]
    exact ⟨by simp, rfl⟩
  | @cons ts ts' member members dangling hmember _ ih =>
    rcases ih (fun m hm => hvalid m (List.mem_cons_of_mem _ hm)) with ⟨_, hmembers⟩
    have hmemberValid := hvalid member List.mem_cons_self
    rcases hmember with @⟨ts₁, ts₂, attrs, type, name, p, q, hattrs, hderives⟩ |
      @⟨ts₁, ts₂, ts₃, attrs, result, name, params, inner, p, q, r, hattrs, hderives, hhead,
        hparams⟩
    . have haccepts : s.Accepts .attribute attrs :=
        hmemberValid (.attribute, attrs) List.mem_cons_self
      rcases readAttribute_of_typedNameDerives eof (ts' ++ rest) (p := q) hderives haccepts
        with ⟨_, hattribute⟩
      have hword : isAtOp '[' (⟨.ident "attribute", p⟩ :: (ts₂ ++ ⟨.op ';', q⟩ :: (ts' ++ rest))) =
        false := rfl
      rcases ExtAttr.readBlock_of_blockDerives eof _ hattrs hword with ⟨_, hblock⟩
      rw [List.append_assoc, List.append_assoc, List.append_assoc, List.cons_append,
        List.singleton_append, readMembers, Outcome.result_lift_bind_of_ok hblock]
      simp only [isAtOp, reduceCtorEq, decide_false, Bool.false_eq_true, ↓reduceIte, takeWord?_cons]
      rw [Outcome.result_bind_of_ok hattribute, Outcome.result_bind_of_ok hmembers]
      exact ⟨by simp; omega, rfl⟩
    . rcases readOperation_of_typedNameDerives eof (ts' ++ rest) (p := p) (q := q) (r := r) hderives
        hparams hmemberValid with ⟨_, hoperation⟩
      rcases ExtAttr.readBlock_of_blockDerives eof _ hattrs
        (hderives.isAtOp_append '[' _) with ⟨_, hblock⟩
      rw [List.append_assoc, List.append_assoc, List.append_assoc, List.append_assoc,
        List.cons_append, List.cons_append, List.singleton_append, readMembers,
        Outcome.result_lift_bind_of_ok hblock]
      simp only [hderives.isAtOp_append, hderives.isAtIdent_append, hderives.takeWord?_append hhead,
        Bool.false_eq_true, ↓reduceIte]
      rw [Outcome.result_bind_of_ok hoperation, Outcome.result_bind_of_ok hmembers]
      exact ⟨by simp; omega, rfl⟩

end Declaration

end IdlCompiler
