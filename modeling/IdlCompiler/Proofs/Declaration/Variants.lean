import IdlCompiler.Declaration.Variant
import Mathlib

/-!
This module contains what is in the variants of an interface and how they are named. Every attribute
is free or in the variant of its condition. A variant has the name that one of its attributes gives
to it or a number, and the numbers do not look at the names that are given: all names are different
exactly if the given ones are and none of them is the name of a number in use.
-/

namespace IdlCompiler

namespace Variant

def givenName? (v : Variant) : Option String :=
  v.attributes.findSome? (·.variantName?)

def numbered (k : Nat) : String :=
  "variant_" ++ toString k

def countUnnamed (vs : List Variant) : Nat :=
  vs.countP fun v => v.givenName?.isNone

theorem numbered_injective : Function.Injective numbered := by
  intro k l h
  unfold numbered at h
  rw [String.append_right_inj] at h
  exact Nat.repr_injective h

theorem countUnnamed_cons_of_some {v : Variant} {name : String} (h : v.givenName? = some name)
    (vs : List Variant) : countUnnamed (v :: vs) = countUnnamed vs := by
  apply List.countP_cons_of_neg
  simp [h]

theorem countUnnamed_cons_of_none {v : Variant} (h : v.givenName? = none) (vs : List Variant) :
    countUnnamed (v :: vs) = countUnnamed vs + 1 := by
  apply List.countP_cons_of_pos
  simp [h]

theorem nodup_numbered (counter n : Nat) : ((List.range' counter n).map numbered).Nodup := by
  apply List.Nodup.map numbered_injective
  exact List.nodup_range' 1

theorem mem_numbered_iff {name : String} {counter n : Nat} :
    name ∈ (List.range' counter n).map numbered ↔
      ∃ k, counter ≤ k ∧ k < counter + n ∧ numbered k = name := by
  simp only [List.mem_map, List.mem_range'_1, and_assoc]

theorem exists_group_cons (attributes : List Attribute) (counter : Nat) (c : String)
    (cs : List String) :
    ∃ v : Variant, v.condition = c ∧ v.attributes = attributes.filter (·.condition = c) ∧
      (v.givenName? = some v.name ∧
          group attributes counter (c :: cs) = v :: group attributes counter cs ∨
        v.givenName? = none ∧ v.name = numbered counter ∧
          group attributes counter (c :: cs) = v :: group attributes (counter + 1) cs) := by
  rw [group]
  split
  . next name hname =>
    refine ⟨⟨name, c, attributes.filter (·.condition = c)⟩, rfl, rfl, ?_⟩
    exact Or.inl ⟨hname, rfl⟩
  . next hname =>
    refine ⟨⟨numbered counter, c, attributes.filter (·.condition = c)⟩, rfl, rfl, ?_⟩
    exact Or.inr ⟨hname, rfl, rfl⟩

theorem names_group_perm (attributes : List Attribute) (counter : Nat) (cs : List String) :
    ((group attributes counter cs).map (·.name)).Perm
      ((group attributes counter cs).filterMap givenName? ++
        (List.range' counter (countUnnamed (group attributes counter cs))).map numbered) := by
  induction cs generalizing counter with
  | nil => apply List.Perm.refl
  | cons c cs ih =>
    obtain ⟨v, -, -, ⟨hgiven, hgroup⟩ | ⟨hgiven, hname, hgroup⟩⟩ :=
      exists_group_cons attributes counter c cs
    . rw [hgroup, List.map_cons, List.filterMap_cons_some hgiven,
        countUnnamed_cons_of_some hgiven, List.cons_append]
      apply List.Perm.cons
      apply ih
    . rw [hgroup, List.map_cons, List.filterMap_cons_none hgiven,
        countUnnamed_cons_of_none hgiven, List.range'_succ, List.map_cons, hname]
      -- The number stands behind the given names, and the rest starts from the next number.
      apply List.Perm.trans _ List.perm_middle.symm
      apply List.Perm.cons
      apply ih

theorem mem_conditions_iff {attributes : List Attribute} {c : String} :
    c ∈ conditions attributes ↔ c ≠ "" ∧ ∃ a ∈ attributes, a.condition = c := by
  unfold conditions
  rw [List.mem_mergeSort, List.mem_eraseDups, List.mem_filter, List.mem_map, decide_eq_true_eq]
  apply and_comm

theorem conditions_group (attributes : List Attribute) (counter : Nat) (cs : List String) :
    (group attributes counter cs).map (·.condition) = cs := by
  induction cs generalizing counter with
  | nil => rfl
  | cons c cs ih =>
    obtain ⟨v, hcondition, -, ⟨-, hgroup⟩ | ⟨-, -, hgroup⟩⟩ :=
      exists_group_cons attributes counter c cs
    all_goals rw [hgroup, List.map_cons, hcondition, ih]

theorem attributes_of_mem_group {attributes : List Attribute} {counter : Nat} {cs : List String}
    {v : Variant} (h : v ∈ group attributes counter cs) :
    v.attributes = attributes.filter (·.condition = v.condition) := by
  induction cs generalizing counter with
  | nil => simp [group] at h
  | cons c cs ih =>
    obtain ⟨w, hcondition, hattributes, ⟨-, hgroup⟩ | ⟨-, -, hgroup⟩⟩ :=
      exists_group_cons attributes counter c cs
    all_goals
      rw [hgroup] at h
      rcases List.mem_cons.1 h with rfl | h
      . rw [hattributes, hcondition]
      . exact ih h

end Variant

namespace Interface

def givenNames (i : Interface) : List String :=
  i.variants.filterMap (·.givenName?)

/--
The variants of an interface have different names exactly if the given names are different and none
of them is the number of a variant that is given none.
-/
theorem nodup_names_variants_iff (i : Interface) :
    (i.variants.map (·.name)).Nodup ↔
      i.givenNames.Nodup ∧
        ∀ k, k < Variant.countUnnamed i.variants → Variant.numbered k ∉ i.givenNames := by
  have hperm : (i.variants.map (·.name)).Perm (i.givenNames ++
      (List.range' 0 (Variant.countUnnamed i.variants)).map Variant.numbered) := by
    apply Variant.names_group_perm
  rw [hperm.nodup_iff, List.nodup_append]
  constructor
  . rintro ⟨hgiven, -, hapart⟩
    refine ⟨hgiven, ?_⟩
    intro k hk hmem
    refine hapart _ hmem (Variant.numbered k) ?_ rfl
    rw [Variant.mem_numbered_iff]
    exact ⟨k, Nat.zero_le k, by omega, rfl⟩
  . rintro ⟨hgiven, hfree⟩
    refine ⟨hgiven, Variant.nodup_numbered _ _, ?_⟩
    intro name hname other hother heq
    rcases Variant.mem_numbered_iff.1 hother with ⟨k, -, hk, rfl⟩
    rw [heq] at hname
    apply hfree k _ hname
    omega

def numberedByHand : Interface where
  header := ⟨"I", ⟨"a.idl", 1, 11⟩, false, [], []⟩
  base := none
  attributes := [
    ⟨"x", .simple "int", ⟨"a.idl", 1, 52⟩, [], [("if", .text "a"), ("var", .text "variant_0")]⟩,
    ⟨"y", .simple "int", ⟨"a.idl", 1, 79⟩, [], [("if", .text "b"), ("var", .absent)]⟩]
  operations := []

theorem not_nodup_names_variants_numberedByHand :
    numberedByHand.givenNames.Nodup ∧ ¬ (numberedByHand.variants.map (·.name)).Nodup := by
  have hnames : numberedByHand.variants.map (·.name) = ["variant_0", "variant_0"] := by
    cbv
  have hgiven : numberedByHand.givenNames = ["variant_0"] := by
    cbv
  rw [hnames, hgiven]
  decide

end Interface

end IdlCompiler
