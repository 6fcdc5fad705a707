/-!
This module contains the cutting of texts at separators: at every occurrence or at the first.
-/

namespace IdlCompiler.Text

def dropMark? : (mark cs : List Char) → Option (List Char)
  | [], cs => some cs
  | _ :: _, [] => none
  | m :: mark, c :: cs => if m = c then dropMark? mark cs else none

theorem dropMark?_eq_some {mark cs rest : List Char} (h : dropMark? mark cs = some rest) :
    cs = mark ++ rest := by
  induction mark generalizing cs with
  | nil => simpa [dropMark?] using h
  | cons m mark ih =>
    cases cs with
    | nil => simp [dropMark?] at h
    | cons c cs =>
      rw [dropMark?] at h
      split at h
      next hc => simp [hc, ih h]
      next => simp at h

def cutAt? (mark : List Char) (cs : List Char) : Option (List Char × List Char) :=
  go [] cs
where
  go (before : List Char) : List Char → Option (List Char × List Char)
    | [] => (dropMark? mark []).map fun rest => (before.reverse, rest)
    | c :: cs =>
      match dropMark? mark (c :: cs) with
      | some rest => some (before.reverse, rest)
      | none => go (c :: before) cs

theorem cutAt?.go_eq_some {mark before cs fst rest : List Char}
    (h : go mark before cs = some (fst, rest)) : before.reverse ++ cs = fst ++ mark ++ rest := by
  induction cs generalizing before with
  | nil =>
    simp only [go, Option.map_eq_some_iff, Prod.mk.injEq] at h
    obtain ⟨rest', hmark, rfl, rfl⟩ := h
    simp [dropMark?_eq_some hmark]
  | cons c cs ih =>
    rw [go] at h
    split at h
    next rest' hmark =>
      simp only [Option.some.injEq, Prod.mk.injEq] at h
      obtain ⟨rfl, rfl⟩ := h
      simp [dropMark?_eq_some hmark]
    next => simpa using ih h

theorem cutAt?_eq_some {mark cs fst rest : List Char} (h : cutAt? mark cs = some (fst, rest)) :
    cs = fst ++ mark ++ rest := by
  simpa using cutAt?.go_eq_some h

/--
The parts of `cs` between the occurrences of a non-empty `mark`, read from the left. There is always
at least one part.
-/
def splitAt (mark : List Char) (cs : List Char) : List (List Char) :=
  if _hm : mark = [] then
    [cs]
  else
    match _hc : cutAt? mark cs with
    | none => [cs]
    | some (fst, rest) => fst :: splitAt mark rest
termination_by cs.length
decreasing_by
  have hlen := congrArg List.length (cutAt?_eq_some _hc)
  have hpos : 0 < mark.length := List.length_pos_iff.mpr _hm
  simp only [List.length_append] at hlen
  omega

end IdlCompiler.Text
