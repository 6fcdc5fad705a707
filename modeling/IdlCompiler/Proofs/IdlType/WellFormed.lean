import IdlCompiler.Proofs.Grammar.Derivation
import IdlCompiler.Proofs.IdlType.Contains
import IdlCompiler.Proofs.RoundTrip.Spelling

/-!
This module contains which types are well formed, and that these are the types that the grammar
derives from tokens of a source.
-/

namespace IdlCompiler

def IdentsSpelled (ts : List Token) : Prop :=
  ∀ token ∈ ts, ∀ name, token.lexeme = .ident name → IsIdent name

theorem TokenStream.identsSpelled_of_ofSource {file : String} {src : List Text.Glyph}
    {stream : TokenStream} (h : ofSource file src = .ok stream) : IdentsSpelled stream.tokens := by
  intro token htoken name hname
  have hspelled := spelled_of_ofSource h token htoken
  rw [hname] at hspelled
  exact hspelled

theorem IdentsSpelled.mono {ts ts' : List Token} (h : IdentsSpelled ts)
    (hsub : ∀ token ∈ ts', token ∈ ts) : IdentsSpelled ts' := by
  intro token htoken
  apply h
  apply hsub
  exact htoken

namespace IdlType

def WellMade : IdlType → Prop
  | .simple name => name = "long long" ∨ IsIdent name ∧ name ∉ Grammar.reserved
  | .optional elem => ∀ inner, elem ≠ .optional inner
  | .sequence _ => True
  | .union members => members ≠ []
  | .record _ _ => True
  | .generic name args => IsIdent name ∧ name ∉ Grammar.reserved ∧ name ≠ "long" ∧ args ≠ []

/--
Names are identifiers, apart from `long long`, and none of them starts a type of another kind. Unions
and generic types have arguments, and what is optional is not so twice.
-/
def WellFormed (t : IdlType) : Prop :=
  ∀ part ∈ t.parts, part.WellMade

theorem wellFormed_iff {t : IdlType} :
    t.WellFormed ↔ t.WellMade ∧ ∀ elem ∈ t.elems, elem.WellFormed := by
  unfold WellFormed
  rw [parts_eq, List.forall_mem_cons]
  simp only [List.mem_flatMap]
  constructor
  . intro h
    exact ⟨h.1, fun elem helem part hpart => h.2 part ⟨elem, helem, hpart⟩⟩
  . rintro ⟨hmade, helems⟩
    exact ⟨hmade, fun part ⟨elem, helem, hpart⟩ => helems elem helem part hpart⟩

end IdlType

namespace Grammar

open IdlType

mutual

theorem TypeDerives.wellFormed {ts : List Token} {t : IdlType} :
    TypeDerives ts t → IdentsSpelled ts → t.WellFormed
  | @TypeDerives.simple name p hfree, hspelled => by
    have hname := hspelled ⟨.ident name, p⟩ List.mem_cons_self name rfl
    rw [wellFormed_iff]
    exact ⟨.inr ⟨hname, hfree⟩, by simp [elems]⟩
  | .longLong, _ => by
    rw [wellFormed_iff]
    exact ⟨.inl rfl, by simp [elems]⟩
  | .optional h hnot, hspelled => by
    rw [wellFormed_iff, elems, List.forall_mem_singleton]
    exact ⟨hnot, h.wellFormed (hspelled.mono fun _ ht => by simp [ht])⟩
  | .sequence h, hspelled => by
    rw [wellFormed_iff, elems, List.forall_mem_singleton]
    exact ⟨trivial, h.wellFormed (hspelled.mono fun _ ht => by simp [ht])⟩
  | .union h, hspelled => by
    have hmembers := h.wellFormed (hspelled.mono fun _ ht => by simp [ht])
    rw [wellFormed_iff]
    exact hmembers
  | .record hkey hvalue, hspelled => by
    rw [wellFormed_iff, elems, List.forall_mem_cons, List.forall_mem_singleton]
    exact ⟨trivial, hkey.wellFormed (hspelled.mono fun _ ht => by simp [ht]),
      hvalue.wellFormed (hspelled.mono fun _ ht => by simp [ht])⟩
  | @TypeDerives.generic _ name _ p _ _ hfree hlong h, hspelled => by
    have hname := hspelled ⟨.ident name, p⟩ List.mem_cons_self name rfl
    have hargs := h.wellFormed (hspelled.mono fun _ ht => by simp [ht])
    rw [wellFormed_iff]
    exact ⟨⟨hname, hfree, hlong, hargs.1⟩, hargs.2⟩

theorem TypesDerive.wellFormed {ts : List Token} {types : List IdlType} :
    TypesDerive ts types → IdentsSpelled ts → types ≠ [] ∧ ∀ t ∈ types, t.WellFormed
  | .last h, hspelled => by
    rw [List.forall_mem_singleton]
    exact ⟨by simp, h.wellFormed hspelled⟩
  | .more h hmore, hspelled => by
    rw [List.forall_mem_cons]
    have hrest := hmore.wellFormed (hspelled.mono fun _ ht => by simp [ht])
    exact ⟨by simp, h.wellFormed (hspelled.mono fun _ ht => by simp [ht]), hrest.2⟩

end

theorem exists_typesDerive {types : List IdlType} (hne : types ≠ [])
    (h : ∀ t ∈ types, ∃ ts, TypeDerives ts t ∧ ∀ token ∈ ts, token.lexeme.Spelled) :
    ∃ ts, TypesDerive ts types ∧ ∀ token ∈ ts, token.lexeme.Spelled := by
  induction types with
  | nil => exact absurd rfl hne
  | cons t types ih =>
    rw [List.forall_mem_cons] at h
    obtain ⟨⟨ts, hderives, hspelled⟩, hmore⟩ := h
    by_cases hlast : types = []
    . subst hlast
      exact ⟨ts, .last hderives, hspelled⟩
    . obtain ⟨ts', hderives', hspelled'⟩ := ih hlast hmore
      refine ⟨ts ++ ⟨.op ',', default⟩ :: ts', .more hderives hderives', ?_⟩
      rw [List.forall_mem_append, List.forall_mem_cons]
      exact ⟨hspelled, trivial, hspelled'⟩

theorem spelled_angles {name : String} {ts : List Token} {p q r : Pos} (hname : IsIdent name)
    (h : ∀ token ∈ ts, token.lexeme.Spelled) :
    ∀ token ∈ ⟨.ident name, p⟩ :: ⟨.op '<', q⟩ :: ts ++ [⟨.op '>', r⟩], token.lexeme.Spelled := by
  rw [List.cons_append, List.cons_append, List.forall_mem_cons, List.forall_mem_cons,
    List.forall_mem_append, List.forall_mem_singleton]
  exact ⟨hname, trivial, h, trivial⟩

theorem exists_typeDerives (t : IdlType) (h : t.WellFormed) :
    ∃ ts, TypeDerives ts t ∧ ∀ token ∈ ts, token.lexeme.Spelled := by
  rw [wellFormed_iff] at h
  obtain ⟨hmade, helems⟩ := h
  have ih : ∀ elem ∈ t.elems, ∃ ts, TypeDerives ts elem ∧ ∀ token ∈ ts, token.lexeme.Spelled := by
    intro elem helem
    have := sizeOf_lt_of_mem_elems helem
    exact exists_typeDerives elem (helems elem helem)
  cases t with
  | simple name =>
    rcases hmade with rfl | ⟨hname, hfree⟩
    . have hlong : IsIdent "long" := isIdent_of_chars rfl rfl rfl
      refine ⟨[⟨.ident "long", default⟩, ⟨.ident "long", default⟩], .longLong, ?_⟩
      rw [List.forall_mem_cons, List.forall_mem_singleton]
      exact ⟨hlong, hlong⟩
    . refine ⟨[⟨.ident name, default⟩], .simple hfree, ?_⟩
      rw [List.forall_mem_singleton]
      exact hname
  | optional elem =>
    obtain ⟨ts, hderives, hspelled⟩ := ih elem List.mem_cons_self
    refine ⟨ts ++ [⟨.op '?', default⟩], .optional hderives hmade, ?_⟩
    rw [List.forall_mem_append, List.forall_mem_singleton]
    exact ⟨hspelled, trivial⟩
  | sequence elem =>
    obtain ⟨ts, hderives, hspelled⟩ := ih elem List.mem_cons_self
    have hname : IsIdent "sequence" := isIdent_of_chars rfl rfl rfl
    exact ⟨_, .sequence (p := default) (q := default) (r := default) hderives,
      spelled_angles hname hspelled⟩
  | union members =>
    obtain ⟨ts, hderives, hspelled⟩ := exists_typesDerive hmade ih
    have hname : IsIdent "union" := isIdent_of_chars rfl rfl rfl
    exact ⟨_, .union (p := default) (q := default) (r := default) hderives, spelled_angles hname hspelled⟩
  | record key value =>
    obtain ⟨ts, hkey, hspelled⟩ := ih key List.mem_cons_self
    obtain ⟨ts', hvalue, hspelled'⟩ := ih value (by simp [elems])
    have hname : IsIdent "record" := isIdent_of_chars rfl rfl rfl
    have hinner : ∀ token ∈ ts ++ ⟨.op ',', default⟩ :: ts', token.lexeme.Spelled := by
      rw [List.forall_mem_append, List.forall_mem_cons]
      exact ⟨hspelled, trivial, hspelled'⟩
    have hderives : TypeDerives
        (⟨.ident "record", default⟩ :: ⟨.op '<', default⟩ :: (ts ++ ⟨.op ',', default⟩ :: ts') ++
          [⟨.op '>', default⟩]) (.record key value) := by
      have hrecord := TypeDerives.record (p := default) (q := default) (r := default) (u := default)
        hkey hvalue
      simpa using hrecord
    exact ⟨_, hderives, spelled_angles hname hinner⟩
  | generic name args =>
    obtain ⟨hname, hfree, hlong, hne⟩ := hmade
    obtain ⟨ts, hderives, hspelled⟩ := exists_typesDerive hne ih
    exact ⟨_, .generic (p := default) (q := default) (r := default) hfree hlong hderives,
      spelled_angles hname hspelled⟩
termination_by sizeOf t

end Grammar

end IdlCompiler
