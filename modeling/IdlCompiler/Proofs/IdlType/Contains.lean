import IdlCompiler.IdlType.Basic

/-!
This module contains what it means that a simple type occurs in a type, at whatever depth. The names
that are gathered from a type are those of the simple types in it.
-/

namespace IdlCompiler.IdlType

inductive Contains (name : String) : IdlType → Prop
  | simple : Contains name (.simple name)
  | elem {t part : IdlType} : part ∈ t.elems → Contains name part → Contains name t

theorem sizeOf_lt_of_mem_elems {t part : IdlType} (h : part ∈ t.elems) :
    sizeOf part < sizeOf t := by
  cases t with
  | simple name => simp [elems] at h
  | optional elem =>
    rw [elems, List.mem_singleton] at h
    simp [h]
  | sequence elem =>
    rw [elems, List.mem_singleton] at h
    simp [h]
  | union members =>
    rw [elems] at h
    have := List.sizeOf_lt_of_mem h
    simp only [union.sizeOf_spec]
    omega
  | record key value =>
    simp only [elems, List.mem_cons, List.not_mem_nil, or_false] at h
    simp only [record.sizeOf_spec]
    rcases h with rfl | rfl <;> omega
  | generic name args =>
    rw [elems] at h
    have := List.sizeOf_lt_of_mem h
    simp only [generic.sizeOf_spec]
    omega

theorem parts_eq (t : IdlType) : t.parts = t :: t.elems.flatMap parts := by
  unfold parts
  cases t <;> simp [visited, elems, visitedAll_eq_flatMap]

theorem simpleNames_eq (t : IdlType) :
    t.simpleNames = t.simpleName?.toList ++ t.elems.flatMap simpleNames := by
  unfold simpleNames
  rw [parts_eq, List.filterMap_cons]
  cases t.simpleName? <;> simp [List.filterMap_flatMap]

theorem mem_simpleNames_simple (name : String) : name ∈ (IdlType.simple name).simpleNames := by
  rw [simpleNames_eq]
  simp [simpleName?]

theorem contains_of_mem_simpleNames {name : String} (t : IdlType) (h : name ∈ t.simpleNames) :
    t.Contains name := by
  rw [simpleNames_eq, List.mem_append] at h
  rcases h with hself | hpart
  . cases t with
    | simple other =>
      simp only [simpleName?, Option.toList_some, List.mem_singleton] at hself
      rw [hself]
      exact .simple
    | _ => simp [simpleName?] at hself
  . rcases List.mem_flatMap.1 hpart with ⟨part, hmem, hname⟩
    have := sizeOf_lt_of_mem_elems hmem
    exact .elem hmem (contains_of_mem_simpleNames part hname)
termination_by sizeOf t

theorem mem_simpleNames_iff {t : IdlType} {name : String} :
    name ∈ t.simpleNames ↔ t.Contains name := by
  constructor
  . exact contains_of_mem_simpleNames t
  . intro h
    induction h with
    | simple => exact mem_simpleNames_simple name
    | elem hmem _ ih =>
      rw [simpleNames_eq, List.mem_append]
      exact .inr (List.mem_flatMap.2 ⟨_, hmem, ih⟩)

end IdlCompiler.IdlType
