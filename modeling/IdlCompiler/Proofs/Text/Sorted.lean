import Mathlib.Data.List.Sort
import Mathlib.Data.String.Basic

/-!
This module contains lists of texts that are sorted and have no text twice.
-/

namespace IdlCompiler.Text

theorem nodup_eraseDups (l : List String) : l.eraseDups.Nodup := by
  match l with
  | [] => exact List.nodup_nil
  | first :: rest =>
    rw [List.eraseDups_cons, List.nodup_cons]
    refine ⟨?_, nodup_eraseDups (rest.filter fun b => !b == first)⟩
    rw [List.mem_eraseDups, List.mem_filter]
    simp
termination_by l.length
decreasing_by exact Nat.lt_succ_of_le (List.length_filter_le _ _)

theorem mergeSort_eq_of_perm {l l' : List String} (h : l.Perm l') : l.mergeSort = l'.mergeSort := by
  have hsorted (l : List String) := List.pairwise_mergeSort' (· ≤ ·) l
  refine List.Perm.eq_of_pairwise' (r := (· ≤ ·)) (hsorted l) (hsorted l') ?_
  exact (List.mergeSort_perm _ _).trans (h.trans (List.mergeSort_perm _ _).symm)

theorem pairwise_lt_mergeSort {l : List String} (h : l.Nodup) : l.mergeSort.Pairwise (· < ·) := by
  have hsorted : l.mergeSort.Pairwise (· ≤ ·) := List.pairwise_mergeSort' (· ≤ ·) l
  have hnodup : l.mergeSort.Nodup := (List.mergeSort_perm _ _).nodup_iff.2 h
  apply (hsorted.and hnodup).imp
  intro a b hab
  exact lt_of_le_of_ne hab.1 hab.2

end IdlCompiler.Text
