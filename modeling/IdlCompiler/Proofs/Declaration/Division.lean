import IdlCompiler.Proofs.Declaration.Variants
import IdlCompiler.Proofs.Text.ByteOrder
import IdlCompiler.Proofs.Text.Sorted

/-!
This module contains how the attributes of an interface are divided into free ones and variants: by
their conditions, in the order in which they are declared, and with no attribute lost or repeated.
-/

namespace IdlCompiler

namespace Variant

theorem flatMap_filter_perm {attributes : List Attribute} {cs : List String} (h : cs.Nodup) :
    (cs.flatMap fun c => attributes.filter (·.condition = c)).Perm
      (attributes.filter (·.condition ∈ cs)) := by
  induction cs with
  | nil => simp
  | cons c cs ih =>
    rw [List.nodup_cons] at h
    -- The attributes with one of the conditions are those with the first one and the others.
    have hfirst : (attributes.filter (·.condition ∈ c :: cs)).filter (·.condition = c) =
        attributes.filter (·.condition = c) := by
      rw [List.filter_filter]
      apply List.filter_congr
      intro a _
      by_cases hc : a.condition = c <;> simp [hc]
    have hothers :
        (attributes.filter (·.condition ∈ c :: cs)).filter (fun a => !decide (a.condition = c)) =
          attributes.filter (·.condition ∈ cs) := by
      rw [List.filter_filter]
      apply List.filter_congr
      intro a _
      by_cases hc : a.condition = c <;> simp [hc, h.1]
    have hsplit := List.filter_append_perm (·.condition = c)
      (attributes.filter (·.condition ∈ c :: cs))
    rw [hfirst, hothers] at hsplit
    rw [List.flatMap_cons]
    exact ((ih h.2).append_left _).trans hsplit

theorem flatMap_attributes_group (attributes : List Attribute) (counter : Nat) (cs : List String) :
    (group attributes counter cs).flatMap (·.attributes) =
      cs.flatMap fun c => attributes.filter (·.condition = c) := by
  rw [← conditions_group attributes counter cs, List.flatMap_map, conditions_group]
  apply List.flatMap_congr
  intro v hv
  exact attributes_of_mem_group hv

theorem pairwise_conditions (attributes : List Attribute) :
    (conditions attributes).Pairwise (· < ·) := by
  apply Text.pairwise_lt_mergeSort
  apply Text.nodup_eraseDups

end Variant

namespace Interface

theorem perm_free_append_variants (i : Interface) :
    (i.freeAttributes ++ i.variants.flatMap (·.attributes)).Perm i.attributes := by
  have hgrouped : (i.variants.flatMap (·.attributes)).Perm
      (i.attributes.filter (·.condition ∈ Variant.conditions i.attributes)) := by
    unfold variants
    rw [Variant.flatMap_attributes_group]
    apply Variant.flatMap_filter_perm
    exact (Variant.pairwise_conditions i.attributes).imp ne_of_lt
  -- The attributes with one of the conditions are those which are not free.
  have hconditional : i.attributes.filter (·.condition ∈ Variant.conditions i.attributes) =
      i.attributes.filter fun a => !decide (a.condition = "") := by
    apply List.filter_congr
    intro a ha
    rw [← decide_not, decide_eq_decide, Variant.mem_conditions_iff]
    exact ⟨fun h => h.1, fun h => ⟨h, a, ha, rfl⟩⟩
  rw [hconditional] at hgrouped
  exact (hgrouped.append_left _).trans (List.filter_append_perm _ _)

end Interface

end IdlCompiler
