import IdlCompiler.Proofs.Backend.Context
import IdlCompiler.Proofs.Backend.Headers

/-!
This module contains the attribute that holds the variants of an interface in class views. It is
spelled as in native code in all dialects, with the header that native code needs, so it is a union
of the dialect only in native code.
-/

namespace IdlCompiler

namespace ClassView

variable {c : SpellingContext} {i : IdlCompiler.Interface}

def alternatives (i : IdlCompiler.Interface) : String :=
  ", ".intercalate (i.variants.map (·.name))

theorem attributes_ofInterface (c : SpellingContext) (h : i.variants ≠ []) :
    (Interface.ofInterface c i).attributes =
      i.freeAttributes.map (Attribute.ofAttribute c) ++ [Attribute.ofVariants i.variants] := by
  dsimp only [Interface.ofInterface]
  rw [if_neg]
  simpa using h

theorem variantHeader_mem_headers {ds : List Declaration} (c : SpellingContext)
    (hi : .interface i ∈ ds) (h : i.variants ≠ []) :
    "<variant>" ∈ (ofDeclarations c ds).headers := by
  rw [mem_headers_iff]
  refine ⟨i, hi, ?_⟩
  rw [SpellingContext.mem_ofInterface_iff]
  exact Or.inr ⟨h, rfl⟩

theorem type_ofVariants_eq_union_iff {d : Dialect} (hd : d ∈ [Dialect.cxx, Dialect.py3])
    (i : IdlCompiler.Interface) :
    (Attribute.ofVariants i.variants).type = d.union (alternatives i) ↔ d.lang = Registry.cxx := by
  rw [List.mem_cons, List.mem_singleton] at hd
  rcases hd with rfl | rfl
  . exact iff_of_true rfl rfl
  . apply iff_of_false
    . intro h
      have hchars := congrArg String.toList h
      simp [Attribute.ofVariants, Dialect.py3] at hchars
    . decide

end ClassView

namespace OutputInfo

open ClassView

/--
Templates see the attribute that holds the variants of an interface behind its free attributes. Its
type is the union that the dialect spells, and the headers it comes with are those of the dialect,
exactly in native code.
-/
theorem variants_spelled_as_union_iff (info : OutputInfo) {d : Dialect} {ds : List Declaration}
    {k : Nat} {i : IdlCompiler.Interface} (hd : d ∈ [Dialect.cxx, Dialect.py3])
    (hi : (interfacesOf ds)[k]? = some i) (hvariants : i.variants ≠ []) :
    info.Shows d.lang ds (info.view d ds) ∧
      ∃ shown free last, (info.view d ds).interfaces[k]? = some shown ∧
        shown.attributes = free ++ [last] ∧
        free.map (·.name) = i.freeAttributes.map (·.name) ∧
        last.name = "var" ∧ last.forVariant = true ∧
        "<variant>" ∈ (info.view d ds).headers ∧
        ((last.type = d.union (alternatives i) ∧
            (d.lang = Registry.py3 → "<variant>" ∉ (info.view d ds).headers)) ↔
          d.lang = Registry.cxx) := by
  have hmem : .interface i ∈ ds := mem_interfacesOf_iff.1 (List.mem_of_getElem? hi)
  have hattributes := attributes_ofInterface ⟨d, info.registry, ds.map (·.name)⟩ hvariants
  have hheader : "<variant>" ∈ (info.view d ds).headers :=
    variantHeader_mem_headers _ hmem hvariants
  refine ⟨shows_view info ds hd, _, _, _, ?_, hattributes, ?_, rfl, rfl, hheader, ?_⟩
  . unfold view ofDeclarations
    rw [List.getElem?_map, hi]
    rfl
  . rw [List.map_map]
    rfl
  . rw [type_ofVariants_eq_union_iff hd]
    constructor
    . rintro ⟨hcxx, -⟩
      exact hcxx
    . intro hcxx
      refine ⟨hcxx, ?_⟩
      intro hpy3
      rw [hcxx] at hpy3
      exact absurd hpy3 (by decide)

def conditional : IdlCompiler.Interface where
  header := ⟨"I", ⟨"a.idl", 1, 11⟩, false, [], []⟩
  base := none
  attributes := [
    ⟨"x", .simple "int", ⟨"a.idl", 1, 29⟩, [], [("if", .absent), ("var", .absent)]⟩,
    ⟨"y", .simple "int", ⟨"a.idl", 1, 53⟩, [], [("if", .text "a"), ("var", .absent)]⟩]
  operations := []

def conditionalInfo : OutputInfo where
  path := "a.pyi"
  version := 1
  initial := []
  registry := .builtin

theorem variants_conditional :
    conditional.variants = [⟨"variant_0", "a", conditional.attributes.tail⟩] := by
  cbv

theorem variants_spelled_as_union_iff_conditional :
    conditional.variants ≠ [] ∧
      ∃ shown free last,
        (conditionalInfo.view .cxx [.interface conditional]).interfaces[0]? = some shown ∧
          shown.attributes = free ++ [last] ∧ last.type = "std::variant<variant_0>" := by
  have hvariants : conditional.variants ≠ [] := by
    rw [variants_conditional]
    exact List.cons_ne_nil _ _
  have hi : (interfacesOf [.interface conditional])[0]? = some conditional := rfl
  obtain ⟨-, shown, free, last, hshown, hattributes, -, -, -, -, hunion⟩ :=
    variants_spelled_as_union_iff conditionalInfo (d := .cxx) List.mem_cons_self hi hvariants
  refine ⟨hvariants, shown, free, last, hshown, hattributes, ?_⟩
  rw [(hunion.2 rfl).1, alternatives, variants_conditional]
  decide

theorem not_spelled_as_union_conditional :
    conditionalInfo.Shows Registry.py3 [.interface conditional]
        (conditionalInfo.view .py3 [.interface conditional]) ∧
      (conditionalInfo.view .py3 [.interface conditional]).interfaces.map
          (fun shown => shown.attributes.map (·.type)) =
        [["int", "std::variant<variant_0>"]] ∧
      Dialect.py3.union (alternatives conditional) = "Union[variant_0]" ∧
      "<variant>" ∈ (conditionalInfo.view .py3 [.interface conditional]).headers := by
  refine ⟨shows_view (d := .py3) _ _ (by simp), ?_, ?_, ?_⟩
  . cbv
  . rw [alternatives, variants_conditional]
    decide
  . apply variantHeader_mem_headers _ (List.mem_singleton_self _)
    rw [variants_conditional]
    exact List.cons_ne_nil _ _

end OutputInfo

end IdlCompiler
