import IdlCompiler.Proofs.Text.Glyph
import IdlCompiler.Text.LetterCase
import Mathlib

/-!
This module contains the lines of texts. A text is its lines, all but the last with a line break
behind them; there is one more of them than line breaks.
-/

namespace IdlCompiler.Text

theorem exists_lines (cs : List Char) :
    ∃ (css : List (List Char)) (last : List Char),
      cs = css.flatMap (· ++ ['\n']) ++ last ∧ (∀ l ∈ css, '\n' ∉ l) ∧ '\n' ∉ last := by
  induction cs with
  | nil => exact ⟨[], [], rfl, by simp, by simp⟩
  | cons c cs ih =>
    obtain ⟨css, last, rfl, hcss, hlast⟩ := ih
    by_cases hc : c = '\n'
    . subst hc
      refine ⟨[] :: css, last, rfl, ?_, hlast⟩
      exact List.forall_mem_cons.2 ⟨List.not_mem_nil, hcss⟩
    . have hcons {l : List Char} (hl : '\n' ∉ l) : '\n' ∉ c :: l :=
        List.not_mem_cons_of_ne_of_not_mem (Ne.symm hc) hl
      cases css with
      | nil => exact ⟨[], c :: last, rfl, hcss, hcons hlast⟩
      | cons l css =>
        rw [List.forall_mem_cons] at hcss
        refine ⟨(c :: l) :: css, last, rfl, ?_, hlast⟩
        exact List.forall_mem_cons.2 ⟨hcons hcss.1, hcss.2⟩

variable {css : List (List Char)} {last : List Char}

theorem splitOn_lines (hcss : ∀ l ∈ css, '\n' ∉ l) (hlast : '\n' ∉ last) :
    (css.flatMap (· ++ ['\n']) ++ last).splitOn '\n' = css ++ [last] := by
  induction css with
  | nil => exact List.splitOn_eq_singleton hlast
  | cons l css ih =>
    rw [List.forall_mem_cons] at hcss
    rw [List.flatMap_cons, List.append_assoc, List.append_assoc, List.singleton_append,
      List.splitOn_append_cons_self, List.splitOn_eq_singleton hcss.1, ih hcss.2]
    rfl

theorem length_splitOn (c : Char) (cs : List Char) :
    (cs.splitOn c).length = cs.count c + 1 := by
  induction cs with
  | nil => simp
  | cons x cs ih =>
    rw [List.splitOn_cons_eq_if_modifyHead, List.count_cons]
    split
    . rw [List.length_cons, ih]
    . rw [List.length_modifyHead, ih, Nat.add_zero]

theorem count_lines :
    (css.flatMap (· ++ ['\n']) ++ last).count '\n' =
      css.length + ((css ++ [last]).map (·.count '\n')).sum := by
  induction css with
  | nil => simp
  | cons l css ih =>
    rw [List.flatMap_cons, List.append_assoc, List.append_assoc, List.count_append,
      List.count_append, ih, List.cons_append, List.map_cons, List.sum_cons, List.length_cons]
    simp only [List.count_singleton_self]
    omega

theorem newline_not_mem_upperCase {s : String} (h : '\n' ∉ s.toList) :
    '\n' ∉ (upperCase s).toList := by
  have htargets : ∀ run ∈ upperCaseRuns, 0x0A < run.target := by decide +kernel
  unfold upperCase
  rw [String.toList_map, List.mem_map]
  rintro ⟨c, hc, hmap⟩
  unfold mapCase at hmap
  split at hmap
  . next n hn =>
    obtain ⟨run, hrun, hn⟩ := List.exists_of_findSome?_eq_some hn
    have htarget := htargets run hrun
    unfold CaseRun.map? at hn
    split at hn
    . cases hn
      rw [Glyph.ofNat_eq_newline_iff] at hmap
      omega
    . cases hn
  . rw [hmap] at hc
    exact h hc

end IdlCompiler.Text
