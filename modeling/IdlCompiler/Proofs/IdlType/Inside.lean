import IdlCompiler.Proofs.IdlType.Contains

/-!
This module contains what it means that a type stands inside another one, at whatever depth.
-/

namespace IdlCompiler.IdlType

inductive Inside (part : IdlType) : IdlType → Prop
  | self : Inside part part
  | elem {t elem : IdlType} : elem ∈ t.elems → Inside part elem → Inside part t

theorem inside_iff {part t : IdlType} :
    part.Inside t ↔ part = t ∨ ∃ elem ∈ t.elems, part.Inside elem := by
  constructor
  . intro h
    cases h with
    | self => exact Or.inl rfl
    | elem helem hinside => exact Or.inr ⟨_, helem, hinside⟩
  . rintro (rfl | ⟨elem, helem, hinside⟩)
    . exact .self
    . exact .elem helem hinside

theorem inside_simple_iff {part : IdlType} {name : String} :
    part.Inside (.simple name) ↔ part = .simple name := by
  rw [inside_iff]
  simp [elems]

theorem inside_of_mem_parts {part : IdlType} (t : IdlType) (h : part ∈ t.parts) :
    part.Inside t := by
  rw [parts_eq, List.mem_cons] at h
  rcases h with rfl | h
  . exact .self
  . rcases List.mem_flatMap.1 h with ⟨elem, helem, hpart⟩
    have := sizeOf_lt_of_mem_elems helem
    exact .elem helem (inside_of_mem_parts elem hpart)
termination_by sizeOf t

theorem mem_parts_iff {part t : IdlType} : part ∈ t.parts ↔ part.Inside t := by
  constructor
  . exact inside_of_mem_parts t
  . intro h
    induction h with
    | self =>
      rw [parts_eq]
      exact List.mem_cons_self
    | elem helem _ ih =>
      rw [parts_eq]
      exact List.mem_cons_of_mem _ (List.mem_flatMap.2 ⟨_, helem, ih⟩)

end IdlCompiler.IdlType
