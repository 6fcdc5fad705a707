import IdlCompiler.Text.Cut
import Mathlib.Data.List.Infix

/-!
This module contains the parts that cutting a text gives, by where its marks stand. Text in front
of which no mark starts belongs to the first part, and a mark of two equal characters behind a text
that does not end in this character ends a part.
-/

namespace IdlCompiler.Text

variable {mark cs rest fst : List Char} {c : Char}

theorem dropMark?_append (mark rest : List Char) : dropMark? mark (mark ++ rest) = some rest := by
  induction mark with
  | nil => rfl
  | cons m mark ih =>
    rw [List.cons_append, dropMark?, if_pos rfl]
    exact ih

theorem dropMark?_eq_none (h : ¬ mark <+: cs) : dropMark? mark cs = none := by
  cases hdrop : dropMark? mark cs with
  | none => rfl
  | some rest =>
    exfalso
    apply h
    rw [dropMark?_eq_some hdrop]
    apply List.prefix_append

theorem cutAt?.go_eq_map (mark before cs : List Char) :
    go mark before cs =
      (go mark [] cs).map fun parts => (before.reverse ++ parts.1, parts.2) := by
  induction cs generalizing before with
  | nil =>
    rw [go, go]
    cases dropMark? mark [] <;> simp
  | cons c cs ih =>
    rw [go, go]
    cases dropMark? mark (c :: cs) with
    | some rest => simp
    | none =>
      dsimp only
      rw [ih (c :: before), ih [c]]
      cases go mark [] cs <;> simp

theorem cutAt?_nil (hmark : mark ≠ []) : cutAt? mark [] = none := by
  cases mark with
  | nil => exact absurd rfl hmark
  | cons m mark => rfl

theorem cutAt?_mark (hmark : mark ≠ []) (rest : List Char) :
    cutAt? mark (mark ++ rest) = some ([], rest) := by
  cases mark with
  | nil => exact absurd rfl hmark
  | cons m mark =>
    have hdrop := dropMark?_append (m :: mark) rest
    rw [List.cons_append] at hdrop ⊢
    rw [cutAt?, cutAt?.go, hdrop]
    rfl

theorem cutAt?_cons (h : ¬ mark <+: c :: cs) :
    cutAt? mark (c :: cs) = (cutAt? mark cs).map fun parts => (c :: parts.1, parts.2) := by
  rw [cutAt?, cutAt?.go, dropMark?_eq_none h]
  exact cutAt?.go_eq_map mark [c] cs

theorem cutAt?_append (hmark : mark ≠ []) (h : ∀ c ∈ fst, mark.head? ≠ some c) :
    cutAt? mark (fst ++ (mark ++ rest)) = some (fst, rest) := by
  induction fst with
  | nil => exact cutAt?_mark hmark rest
  | cons c fst ih =>
    rw [List.forall_mem_cons] at h
    have hstarts : ¬ mark <+: c :: (fst ++ (mark ++ rest)) := by
      obtain ⟨m, mark, rfl⟩ := List.exists_cons_of_ne_nil hmark
      rw [List.cons_prefix_cons, not_and_or]
      apply Or.inl
      simpa using h.1
    rw [List.cons_append, cutAt?_cons hstarts, ih h.2]
    rfl

theorem cutAt?_eq_none_iff (hmark : mark ≠ []) : cutAt? mark cs = none ↔ ¬ mark <:+: cs := by
  induction cs with
  | nil =>
    rw [cutAt?_nil hmark, List.infix_nil]
    simp [hmark]
  | cons c cs ih =>
    rw [List.infix_cons_iff, not_or, ← ih]
    by_cases hstarts : mark <+: c :: cs
    . obtain ⟨rest, hrest⟩ := hstarts
      rw [← hrest, cutAt?_mark hmark]
      simp
    . rw [cutAt?_cons hstarts]
      simp [hstarts]

theorem splitAt_of_none (h : cutAt? mark cs = none) : splitAt mark cs = [cs] := by
  rw [splitAt]
  split
  . rfl
  . split
    . rfl
    . next hcut => simp [h] at hcut

theorem splitAt_of_some (hmark : mark ≠ []) (h : cutAt? mark cs = some (fst, rest)) :
    splitAt mark cs = fst :: splitAt mark rest := by
  rw [splitAt, dif_neg hmark]
  split
  . next hcut => simp [h] at hcut
  . next hcut =>
    rw [h] at hcut
    cases hcut
    rfl

theorem splitAt_nil (hmark : mark ≠ []) : splitAt mark [] = [[]] := by
  apply splitAt_of_none
  exact cutAt?_nil hmark

theorem splitAt_mark (hmark : mark ≠ []) (rest : List Char) :
    splitAt mark (mark ++ rest) = [] :: splitAt mark rest := by
  apply splitAt_of_some hmark
  exact cutAt?_mark hmark rest

theorem splitAt_cons (hmark : mark ≠ []) (h : ¬ mark <+: c :: cs) :
    splitAt mark (c :: cs) = (splitAt mark cs).modifyHead (c :: ·) := by
  have hcons := cutAt?_cons h
  cases hcut : cutAt? mark cs with
  | none =>
    rw [hcut] at hcons
    rw [splitAt_of_none hcut, splitAt_of_none hcons]
    rfl
  | some parts =>
    rw [hcut] at hcons
    rw [splitAt_of_some hmark hcut, splitAt_of_some hmark hcons]
    rfl

theorem splitAt_ne_nil (mark cs : List Char) : splitAt mark cs ≠ [] := by
  rw [splitAt]
  split
  . simp
  . split <;> simp

theorem splitAt_append {b : Char} (xs ys : List Char) (h : xs.getLast? ≠ some b) :
    splitAt [b, b] (xs ++ [b, b] ++ ys) = splitAt [b, b] xs ++ splitAt [b, b] ys := by
  have hmark : [b, b] ≠ [] := List.cons_ne_nil _ _
  -- Two characters are looked at: they are a mark, or none starts at the first of them.
  match xs with
  | [] =>
    rw [List.nil_append, splitAt_mark hmark, splitAt_nil hmark]
    rfl
  | [c] =>
    have hc : c ≠ b := by simpa using h
    have hstarts (cs : List Char) : ¬ [b, b] <+: c :: cs := by
      simp [hc.symm]
    rw [List.append_assoc, List.singleton_append, splitAt_cons hmark (hstarts _),
      splitAt_cons hmark (hstarts _), splitAt_mark hmark, splitAt_nil hmark]
    rfl
  | c :: d :: xs =>
    rw [List.getLast?_cons_cons] at h
    by_cases hcd : c = b ∧ d = b
    . obtain ⟨rfl, rfl⟩ := hcd
      have hxs : xs.getLast? ≠ some d := by
        cases xs with
        | nil => simp
        | cons x xs => simpa using h
      have ih := splitAt_append xs ys hxs
      have hboth (cs : List Char) : splitAt [d, d] (d :: d :: cs) = [] :: splitAt [d, d] cs :=
        splitAt_mark hmark cs
      rw [List.cons_append, List.cons_append, List.cons_append, List.cons_append, hboth, hboth, ih,
        List.cons_append]
    . have hstarts (cs : List Char) : ¬ [b, b] <+: c :: d :: cs := by
        intro hbb
        simp only [List.cons_prefix_cons] at hbb
        exact hcd ⟨hbb.1.symm, hbb.2.1.symm⟩
      have ih := splitAt_append (d :: xs) ys h
      rw [List.cons_append, List.cons_append] at ih ⊢
      rw [List.cons_append, List.cons_append, splitAt_cons hmark (hstarts _),
        splitAt_cons hmark (hstarts _), ih]
      cases hsplit : splitAt [b, b] (d :: xs) with
      | nil => exact absurd hsplit (splitAt_ne_nil _ _)
      | cons first rest => rfl
termination_by xs.length

end IdlCompiler.Text
