import IdlCompiler.Text.Blank

/-!
This module contains what trimming leaves of a text.
-/

namespace IdlCompiler.Text

theorem trimRight_append_cons {c : Char} (xs ys : List Char) (hc : isBlank c = false) :
    trimRight (xs ++ c :: ys) = xs ++ c :: trimRight ys := by
  have hdrop : (c :: xs.reverse).dropWhile isBlank = c :: xs.reverse := by
    rw [List.dropWhile_cons, if_neg (by rw [hc]; decide)]
  unfold trimRight
  rw [List.reverse_append, List.reverse_cons, List.append_assoc, List.singleton_append,
    List.dropWhile_append]
  split
  . next hempty =>
    rw [List.isEmpty_iff] at hempty
    rw [hempty, hdrop]
    simp
  . simp

theorem trimRight_append_singleton {c : Char} (cs : List Char) (hc : isBlank c) :
    trimRight (cs ++ [c]) = trimRight cs := by
  unfold trimRight
  rw [List.reverse_append, List.reverse_singleton, List.singleton_append, List.dropWhile_cons,
    if_pos hc]

theorem trimRight_prefix (cs : List Char) : trimRight cs <+: cs := by
  have h := (List.dropWhile_suffix isBlank (l := cs.reverse)).reverse
  rwa [List.reverse_reverse] at h

theorem exists_blanks_of_trimRight (cs : List Char) :
    ∃ bs, cs = trimRight cs ++ bs ∧ ∀ b ∈ bs, isBlank b := by
  refine ⟨(cs.reverse.takeWhile isBlank).reverse, ?_, ?_⟩
  . unfold trimRight
    rw [← List.reverse_append, List.takeWhile_append_dropWhile, List.reverse_reverse]
  . intro b hb
    exact List.all_eq_true.1 List.all_takeWhile b (List.mem_reverse.1 hb)

theorem head?_trim {c : Char} (cs : List Char) (hc : isBlank c = false) :
    (trim (c :: cs)).head? = some c := by
  have hstart : (c :: cs).dropWhile isBlank = c :: cs := by
    rw [List.dropWhile_cons, if_neg (by rw [hc]; decide)]
  unfold trim
  rw [hstart]
  exact congrArg List.head? (trimRight_append_cons [] cs hc)

end IdlCompiler.Text
