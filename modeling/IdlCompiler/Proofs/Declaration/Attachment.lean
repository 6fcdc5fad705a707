import IdlCompiler.Proofs.Declaration.Load
import IdlCompiler.Proofs.Grammar.Places
import IdlCompiler.Proofs.Token.Lexemes

/-!
This module contains what becomes of the extended attributes of a source. Those of a block in front
of something that is declared belong to it and to nothing else, and have values by the rules of its
domain. Those of a block in front of a closing bracket or the end of the file belong to nothing.
-/

namespace IdlCompiler

open Cursor Grammar Text

def Operation.owners (o : Operation) : List Owner :=
  .operation o :: o.args.map .argument

def Declaration.owners : Declaration → List Owner
  | .enum e => [.declaration (.enum e)]
  | .interface i =>
    .declaration (.interface i) ::
      (i.attributes.map .attribute ++ i.operations.flatMap (·.owners))

def Declaration.allOwners (ds : List Declaration) : List Owner :=
  ds.flatMap (·.owners)

def Grammar.Place.Valid (s : Schema) (place : Place) : Prop :=
  ∀ o, place.owner = some o →
    o.attrs = place.attrs ∧ (s.validate o.domain place.attrs).result = .ok o.values

variable {s : Schema}

namespace Grammar

theorem Place.valid_of_accepts {attrs : List ExtAttr} {o : Owner} (hattrs : o.attrs = attrs)
    (haccepts : s.Accepts o.domain attrs) (hvalues : o.values = s.valuesOf o.domain attrs) :
    Place.Valid s ⟨attrs, some o⟩ := by
  intro o' ho'
  cases ho'
  exact ⟨hattrs, Schema.result_validate_eq_ok_iff.2 ⟨haccepts, hvalues⟩⟩

theorem Place.valid_dangling (attrs : List ExtAttr) : (Place.dangling attrs).Valid s := by
  intro o ho
  cases ho

theorem MemberDecl.Valid.places {m : MemberDecl} (h : m.Valid s) :
    ∀ place ∈ m.places s, place.Valid s := by
  rcases m with ⟨attrs, type, name⟩ | ⟨attrs, result, name, params, dangling⟩
  . refine List.forall_mem_singleton.2 (Place.valid_of_accepts rfl ?_ rfl)
    exact h (.attribute, attrs) List.mem_cons_self
  . refine List.forall_mem_cons.2 ⟨Place.valid_of_accepts rfl ?_ rfl, ?_⟩
    . exact h (.operation, attrs) List.mem_cons_self
    . intro place hplace
      rcases List.mem_append.1 hplace with hplace | hplace
      . rcases List.mem_map.1 hplace with ⟨p, hp, rfl⟩
        refine Place.valid_of_accepts rfl ?_ rfl
        exact h (.argument, p.attrs) (List.mem_cons_of_mem _ (List.mem_map_of_mem hp))
      . rw [List.mem_singleton.1 hplace]
        exact Place.valid_dangling dangling

theorem Item.Valid.places {i : Item} (h : i.Valid s) : ∀ place ∈ i.places s, place.Valid s := by
  rcases i with ⟨attrs, isPartial, name, base, body⟩
  have haccepts := h.accepts
  cases body with
  | enum items =>
    refine List.forall_mem_cons.2 ⟨Place.valid_of_accepts rfl ?_ rfl, by simp [Body.places]⟩
    exact haccepts (.enum, attrs) List.mem_cons_self
  | interface members dangling =>
    refine List.forall_mem_cons.2 ⟨Place.valid_of_accepts rfl ?_ rfl, ?_⟩
    . exact haccepts (.interface, attrs) List.mem_cons_self
    . intro place hplace
      rcases List.mem_append.1 hplace with hplace | hplace
      . rcases List.mem_flatMap.1 hplace with ⟨m, hm, hplace⟩
        have hvalid : m.Valid s := fun a ha =>
          haccepts a (List.mem_cons_of_mem _ (List.mem_flatMap.2 ⟨m, hm, ha⟩))
        exact hvalid.places place hplace
      . rw [List.mem_singleton.1 hplace]
        exact Place.valid_dangling dangling

theorem File.Valid.places {f : File} (h : f.Valid s) : ∀ place ∈ f.places s, place.Valid s := by
  intro place hplace
  rcases List.mem_append.1 hplace with hplace | hplace
  . rcases List.mem_flatMap.1 hplace with ⟨i, hi, hplace⟩
    exact (h i hi).places place hplace
  . rw [List.mem_singleton.1 hplace]
    exact Place.valid_dangling f.dangling

theorem filterMap_owner_params (params : List Param) (dangling : List ExtAttr) :
    (params.map (Param.place s) ++ [Place.dangling dangling]).filterMap Place.owner =
      (params.map (Param.argument s)).map Owner.argument := by
  induction params with
  | nil => rfl
  | cons p params ih => exact congrArg (Owner.argument (p.argument s) :: ·) ih

theorem perm_places_members (members : List MemberDecl) :
    ((members.filterMap (MemberDecl.attribute? s)).map Owner.attribute ++
        (members.filterMap (MemberDecl.operation? s)).flatMap Operation.owners).Perm
      ((members.flatMap (MemberDecl.places s)).filterMap Place.owner) := by
  induction members with
  | nil => exact .nil
  | cons m members ih =>
    rw [List.flatMap_cons, List.filterMap_append]
    rcases m with ⟨attrs, type, name⟩ | ⟨attrs, result, name, params, dangling⟩
    . exact ih.cons _
    . have howners : (MemberDecl.places s (.operation attrs result name params dangling)).filterMap
          Place.owner = Operation.owners ⟨name.text, result, params.map (Param.argument s), name.pos,
            attrs, s.valuesOf .operation attrs⟩ :=
        congrArg (Owner.operation _ :: ·) (filterMap_owner_params params dangling)
      rw [howners]
      exact (List.perm_append_comm_assoc _ _ _).trans (ih.append_left _)

theorem perm_places_item (i : Item) :
    (i.declaration s).owners.Perm ((i.places s).filterMap Place.owner) := by
  rcases i with ⟨attrs, isPartial, name, base, body⟩
  cases body with
  | enum items => exact .refl _
  | interface members dangling =>
    refine List.Perm.cons _ ((perm_places_members members).trans ?_)
    rw [Body.places, List.filterMap_append]
    exact .of_eq (List.append_nil _).symm

theorem perm_places (f : File) :
    (Declaration.allOwners (f.declarations s)).Perm ((f.places s).filterMap Place.owner) := by
  have hdangling : (f.places s).filterMap Place.owner =
      (f.items.flatMap (Item.places s)).filterMap Place.owner := by
    rw [File.places, List.filterMap_append]
    exact List.append_nil _
  rw [hdangling, Declaration.allOwners, File.declarations]
  induction f.items with
  | nil => exact .nil
  | cons i items ih =>
    rw [List.map_cons, List.flatMap_cons, List.flatMap_cons, List.filterMap_append]
    exact (perm_places_item i).append ih

theorem filter_eq_singleton_of_nodup {α β : Type} [DecidableEq β] {f : α → List β} {xs : List α}
    {x : α} {b : β} (h : (xs.flatMap f).Nodup) (hx : x ∈ xs) (hb : b ∈ f x) :
    xs.filter (b ∈ f ·) = [x] := by
  induction xs with
  | nil => cases hx
  | cons y ys ih =>
    rw [List.flatMap_cons, List.nodup_append] at h
    rcases h with ⟨-, hys, hdisjoint⟩
    rcases List.mem_cons.1 hx with rfl | hx
    . have hnone : ∀ y ∈ ys, ¬b ∈ f y := by
        intro y hy hmem
        exact hdisjoint b hb b (List.mem_flatMap.2 ⟨y, hy, hmem⟩) rfl
      rw [List.filter_cons_of_pos (by simpa using hb), List.filter_eq_nil_iff.2 (by simpa using hnone)]
    . have hnot : ¬b ∈ f y := by
        intro hmem
        exact hdisjoint b hmem b (List.mem_flatMap.2 ⟨x, hx, hb⟩) rfl
      rw [List.filter_cons_of_neg (by simpa using hnot), ih hys hx]

theorem filter_filterMap_owner {ps : List Place} (h : ∀ place ∈ ps, place.Valid s) (a : ExtAttr) :
    (ps.filterMap Place.owner).filter (a ∈ ·.attrs) =
      (ps.filter (a ∈ ·.attrs)).filterMap Place.owner := by
  induction ps with
  | nil => rfl
  | cons place ps ih =>
    rcases List.forall_mem_cons.1 h with ⟨hplace, hps⟩
    rcases place with ⟨attrs, _ | o⟩
    . rw [List.filterMap_cons_none (f := Place.owner) rfl, ih hps, List.filter_cons]
      split <;> rfl
    . have hattrs : o.attrs = attrs := (hplace o rfl).1
      subst hattrs
      rw [List.filterMap_cons_some (f := Place.owner) rfl, List.filter_cons, List.filter_cons, ih hps]
      split <;> rfl

theorem filter_allOwners {f : File} {place : Place} {a : ExtAttr} (hvalid : f.Valid s)
    (hnodup : ((f.places s).flatMap (·.attrs)).Nodup) (hplace : place ∈ f.places s)
    (ha : a ∈ place.attrs) :
    (Declaration.allOwners (f.declarations s)).filter (a ∈ ·.attrs) = place.owner.toList := by
  have hperm := (perm_places (s := s) f).filter (a ∈ ·.attrs)
  rw [filter_filterMap_owner hvalid.places, filter_eq_singleton_of_nodup hnodup hplace ha] at hperm
  cases howner : place.owner with
  | none =>
    rw [List.filterMap_cons_none howner] at hperm
    exact hperm.eq_nil
  | some o =>
    rw [List.filterMap_cons_some howner] at hperm
    exact hperm.eq_singleton

theorem not_dangles_cons {word : String} {p : Pos} {t : Token} {ts : List Token}
    (ht : t.lexeme ≠ .eof) : ¬Dangles (⟨.ident word, p⟩ :: t :: ts) := by
  rintro (hclose | hclose | hend)
  . simp [isAtOp] at hclose
  . simp [isAtOp] at hclose
  . by_cases hword : word = "partial"
    . subst hword
      exact ht (of_decide_eq_true hend)
    . have hmark : Declaration.readPartial (⟨.ident word, p⟩ :: t :: ts) =
          (false, .all (⟨.ident word, p⟩ :: t :: ts)) := by
        simp [Declaration.readPartial, takeWord?, hword]
      rw [hmark] at hend
      simp [NotLonger.all, isAtEnd] at hend

theorem TypedNameDerives.exists_cons_cons {ts : List Token} {type : IdlType} {name : Name}
    (h : TypedNameDerives ts type name) :
    ∃ word p t tail, ts = ⟨.ident word, p⟩ :: t :: tail ∧ t.lexeme ≠ .eof := by
  have hfree := h.only inner_ne_eof
  rcases h with ⟨htype, -⟩
  rcases htype.exists_cons with ⟨word, p, tail, rfl⟩
  cases tail with
  | nil => exact ⟨word, p, name.token, [], rfl, by simp [Name.token]⟩
  | cons t tail => exact ⟨word, p, t, tail ++ [name.token], rfl, hfree t (by simp)⟩

end Grammar

theorem Owner.Starts.not_dangles {o : Owner} {ts : List Token} (h : Owner.Starts ts o) :
    ¬Dangles ts := by
  rcases o with d | a | o | a
  . rcases h with ⟨mark, p, tail, hmark, rfl⟩
    generalize d.header.isPartial = isPartial at hmark
    cases hmark with
    | none => exact not_dangles_cons (by simp)
    | some => exact not_dangles_cons (by simp)
  . rcases h with ⟨p, us, tail, hname, rfl⟩
    rcases hname.exists_cons_cons with ⟨word, q, t, us, rfl, -⟩
    exact not_dangles_cons (by simp)
  . rcases h with ⟨us, p, tail, hname, rfl⟩
    rcases hname.exists_cons_cons with ⟨word, q, t, us, rfl, ht⟩
    exact not_dangles_cons ht
  . rcases h with ⟨us, tail, hname, rfl⟩
    rcases hname.exists_cons_cons with ⟨word, q, t, us, rfl, ht⟩
    exact not_dangles_cons ht

namespace Declaration

variable {file : String} {src : List Glyph} {ds : List Declaration}

/--
A block of extended attributes in a source that is read dangles exactly if nothing has any of them.
Otherwise they are the extended attributes of what is declared behind the block, and of nothing else,
and have values by its domain.
-/
theorem filter_owners_of_ofSource (h : (ofSource s file src).result = .ok ds) :
    ∃ stream, TokenStream.ofSource file src = .ok stream ∧
      ∀ before p after, stream.toList = before ++ ⟨.op '[', p⟩ :: after →
        ∃ attrs rest, attrs ≠ [] ∧
          ExtAttr.readBlock stream.endPos (⟨.op '[', p⟩ :: after) = .ok (attrs, rest) ∧
          (Dangles rest.val → ∀ a ∈ attrs, (allOwners ds).filter (a ∈ ·.attrs) = []) ∧
          (¬Dangles rest.val → ∃ o, o.attrs = attrs ∧ o.Starts rest.val ∧
            (s.validate o.domain attrs).result = .ok o.values ∧
            ∀ a ∈ attrs, (allOwners ds).filter (a ∈ ·.attrs) = [o]) := by
  rcases exists_file_of_ofSource h with ⟨stream, f, hsource, hderives, hvalid, rfl⟩
  refine ⟨stream, hsource, ?_⟩
  intro before p after hsplit
  have hfile : FileDerives stream.toList f := by
    rw [← TokenStream.untilEnd_eq_toList (TokenStream.ne_eof_of_ofSource hsource)]
    exact hderives
  have hplaced := hfile.placed (s := s)
  -- No two tokens have the same position, so no two blocks share an attribute.
  have hnodup : ((f.places s).flatMap (·.attrs)).Nodup :=
    .of_map _ ((TokenStream.nodup_toList_of_ofSource hsource).sublist hplaced.names)
  rcases hplaced.exists_place before p after hsplit with
    ⟨place, hplace, block, rest, hblock, hattrs, hne, hprecedes⟩
  have hread := hattrs.readBlock_of_ne_nil hne stream.endPos rest
  rw [← hblock] at hread
  rcases hread with ⟨_, hread⟩
  have hfilter (a : ExtAttr) (ha : a ∈ place.attrs) := filter_allOwners hvalid hnodup hplace ha
  rw [List.append_nil] at hprecedes
  rcases place with ⟨attrs, _ | o⟩
  . refine ⟨attrs, _, hne, hread, fun _ => hfilter, ?_⟩
    intro hnot
    exact absurd hprecedes hnot
  . rcases hvalid.places _ hplace o rfl with ⟨hsame, hvalues⟩
    refine ⟨attrs, _, hne, hread, ?_, ?_⟩
    . intro hdangles
      exact absurd hdangles (Owner.Starts.not_dangles hprecedes)
    . intro _
      exact ⟨o, hsame, hprecedes, hvalues, hfilter⟩

def attributedSource : List Glyph :=
  Glyph.ofString
    "[a=1] interface A { [b] attribute long x; [c] long f([d] long y, [e]); [g] }; [h] partial"

def attributed : Declaration :=
  .interface {
    header := ⟨"A", ⟨"a.idl", 1, 17⟩, false, [⟨⟨"a", ⟨"a.idl", 1, 2⟩⟩, [.number "1"]⟩], []⟩
    base := none
    attributes := [⟨"x", .simple "long", ⟨"a.idl", 1, 40⟩, [⟨⟨"b", ⟨"a.idl", 1, 22⟩⟩, []⟩], []⟩]
    operations := [
      ⟨"f", .simple "long",
        [⟨"y", .simple "long", ⟨"a.idl", 1, 63⟩, [⟨⟨"d", ⟨"a.idl", 1, 55⟩⟩, []⟩], []⟩],
        ⟨"a.idl", 1, 52⟩, [⟨⟨"c", ⟨"a.idl", 1, 44⟩⟩, []⟩], []⟩] }

theorem filter_owners_of_ofSource_attributed :
    (ofSource ⟨fun _ => []⟩ "a.idl" attributedSource).result = .ok [attributed] ∧
      ∃ stream, TokenStream.ofSource "a.idl" attributedSource = .ok stream ∧
        ∀ before p after, stream.toList = before ++ ⟨.op '[', p⟩ :: after →
          ∃ attrs rest, attrs ≠ [] ∧
            ExtAttr.readBlock stream.endPos (⟨.op '[', p⟩ :: after) = .ok (attrs, rest) ∧
            (Dangles rest.val → ∀ a ∈ attrs, (allOwners [attributed]).filter (a ∈ ·.attrs) = []) ∧
            (¬Dangles rest.val → ∃ o, o.attrs = attrs ∧ o.Starts rest.val ∧
              (Schema.validate ⟨fun _ => []⟩ o.domain attrs).result = .ok o.values ∧
              ∀ a ∈ attrs, (allOwners [attributed]).filter (a ∈ ·.attrs) = [o]) := by
  have h : (ofSource ⟨fun _ => []⟩ "a.idl" attributedSource).result = .ok [attributed] := by
    cbv
  exact ⟨h, filter_owners_of_ofSource h⟩

def danglingStream : TokenStream where
  tokens := [⟨.op '[', ⟨"a.idl", 1, 1⟩⟩, ⟨.ident "x", ⟨"a.idl", 1, 2⟩⟩, ⟨.op ']', ⟨"a.idl", 1, 3⟩⟩]
  endPos := ⟨"a.idl", 1, 3⟩

theorem unowned_of_ofSource_danglingStream :
    (ofSource ⟨fun _ => []⟩ "a.idl" (Glyph.ofString "[x]")).result = .ok [] ∧
      TokenStream.ofSource "a.idl" (Glyph.ofString "[x]") = .ok danglingStream ∧
      ExtAttr.readBlock danglingStream.endPos danglingStream.tokens =
        .ok ([⟨⟨"x", ⟨"a.idl", 1, 2⟩⟩, []⟩], ⟨[], Nat.zero_le _⟩) ∧
      ¬∃ o ∈ allOwners [], (⟨⟨"x", ⟨"a.idl", 1, 2⟩⟩, []⟩ : ExtAttr) ∈ o.attrs := by
  refine ⟨?_, ?_, ?_, ?_⟩
  . cbv
  . cbv
  . cbv
  . rintro ⟨o, ho, -⟩
    cases ho

end Declaration

end IdlCompiler
