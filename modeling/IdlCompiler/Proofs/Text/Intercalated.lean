import Mathlib.Data.List.Basic
import Mathlib.Data.String.Basic

/-!
This module contains texts that are written in pieces with a separator between some of them. Such a
text is made of the same parts whether the separator is put between pieces or between their texts.
-/

namespace IdlCompiler.Text

variable {α : Type}

theorem join_map_intercalate (text : α → String) (separator : α) (parts : List (List α)) :
    String.join (([separator].intercalate parts).map text) =
      (text separator).intercalate (parts.map fun part => String.join (part.map text)) := by
  induction parts with
  | nil => rfl
  | cons first rest ih =>
    cases rest with
    | nil => simp
    | cons second rest =>
      rw [List.intercalate_cons_cons, List.map_append, List.map_append, String.join_append,
        String.join_append, ih]
      simp only [List.map_cons, List.map_nil, String.intercalate_cons_cons, String.join_cons,
        String.join_nil, String.append_empty]

theorem mem_intercalate_iff {separator piece : α} (h : piece ≠ separator)
    {parts : List (List α)} :
    piece ∈ [separator].intercalate parts ↔ ∃ part ∈ parts, piece ∈ part := by
  induction parts with
  | nil => simp
  | cons first rest ih =>
    cases rest with
    | nil => simp
    | cons second rest =>
      rw [List.intercalate_cons_cons, List.mem_append, List.mem_append, ih, List.mem_singleton]
      simp only [h, or_false, List.exists_mem_cons_iff]

end IdlCompiler.Text
