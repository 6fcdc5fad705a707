import IdlCompiler.Proofs.Text.Glyph
import IdlCompiler.Proofs.Token.Lexemes

/-!
This module contains the lines of a file as its bytes divide it, and that the lexer reads the same
lines from the characters of the file, apart from the blanks at their ends. It counts their bytes.
-/

namespace IdlCompiler.Lexer

open Text

/--
The lines of a file, each without its line break. What follows the last line break is a line only if
it is not empty.
-/
def byteLines : List UInt8 → List (List UInt8)
  | [] => []
  | b :: bytes =>
    if b = 0x0A then
      [] :: byteLines bytes
    else
      match byteLines bytes with
      | [] => [[b]]
      | line :: lines => (b :: line) :: lines

def dropReturn (line : List UInt8) : List UInt8 :=
  if line.getLast? = some 0x0D then line.dropLast else line

def fileLines (bytes : List UInt8) : List (List Char) :=
  (byteLines bytes).map fun line => (Glyph.ofBytes (dropReturn line)).map (·.char)

variable {line : List UInt8}

theorem byteLines_line (h : 0x0A ∉ line) (rest : List UInt8) :
    byteLines (line ++ 0x0A :: rest) = line :: byteLines rest := by
  induction line with
  | nil => rw [List.nil_append, byteLines, if_pos rfl]
  | cons b line ih =>
    rw [List.mem_cons, not_or] at h
    rw [List.cons_append, byteLines, if_neg (Ne.symm h.1), ih h.2]

theorem byteLines_last (h : 0x0A ∉ line) (hne : line ≠ []) : byteLines line = [line] := by
  induction line with
  | nil => exact absurd rfl hne
  | cons b line ih =>
    rw [List.mem_cons, not_or] at h
    rw [byteLines, if_neg (Ne.symm h.1)]
    cases line with
    | nil => rfl
    | cons c line => rw [ih h.2 (List.cons_ne_nil c line)]

theorem byteLines_induction {P : List UInt8 → Prop} (nil : P [])
    (last : ∀ line, 0x0A ∉ line → line ≠ [] → P line)
    (line : ∀ line rest, 0x0A ∉ line → P rest → P (line ++ 0x0A :: rest)) (bytes : List UInt8) :
    P bytes := by
  have hmem {bytes : List UInt8} (h : ∀ b ∈ bytes, ¬b = 0x0A) : 0x0A ∉ bytes :=
    fun hbreak => h _ hbreak rfl
  induction bytes using breaks_induction (· = (0x0A : UInt8)) with
  | nil => exact nil
  | last front hfront hne => exact last front (hmem hfront) hne
  | line front b rest hfront hb ih =>
    rw [hb]
    exact line front rest (hmem hfront) ih

theorem newline_not_mem_byteLines (bytes : List UInt8) : ∀ line ∈ byteLines bytes, 0x0A ∉ line := by
  induction bytes using byteLines_induction with
  | nil => simp [byteLines]
  | last line hline hne =>
    rw [byteLines_last hline hne, List.forall_mem_singleton]
    exact hline
  | line line rest hline ih =>
    rw [byteLines_line hline, List.forall_mem_cons]
    exact ⟨hline, ih⟩

theorem newline_not_mem_fileLines (bytes : List UInt8) : ∀ cs ∈ fileLines bytes, '\n' ∉ cs := by
  intro cs hcs hmem
  rcases List.mem_map.1 hcs with ⟨line, hline, rfl⟩
  rcases List.mem_map.1 hmem with ⟨g, hg, hchar⟩
  have hdrop : dropReturn line ⊆ line := by
    unfold dropReturn
    split
    . exact line.dropLast_subset
    . exact List.Subset.refl line
  have hunbroken : 0x0A ∉ dropReturn line :=
    fun hbreak => newline_not_mem_byteLines bytes line hline (hdrop hbreak)
  exact Glyph.char_ne_newline_of_mem_ofBytes hunbroken g hg hchar

theorem splitLines_ofBytes (bytes : List UInt8) :
    splitLines (Glyph.ofBytes bytes) = (byteLines bytes).map Glyph.ofBytes := by
  induction bytes using byteLines_induction with
  | nil => rw [Glyph.ofBytes_nil, splitLines_nil, byteLines, List.map_nil]
  | last line hline hne =>
    rw [byteLines_last hline hne, List.map_singleton]
    exact splitLines_last (Glyph.char_ne_newline_of_mem_ofBytes hline) (Glyph.ofBytes_ne_nil hne)
  | line line rest hline ih =>
    rw [byteLines_line hline, List.map_cons, ← ih, Glyph.ofBytes_append_cons (by decide)]
    exact splitLines_line (Glyph.char_ne_newline_of_mem_ofBytes hline) rfl _

theorem lineText_ofBytes (line : List UInt8) :
    lineText (Glyph.ofBytes line) = trimRight ((Glyph.ofBytes (dropReturn line)).map (·.char)) := by
  unfold lineText dropReturn
  split
  . next hlast =>
    rcases List.getLast?_eq_some_iff.1 hlast with ⟨front, rfl⟩
    rw [List.dropLast_concat, Glyph.ofBytes_append_cons (by decide), Glyph.ofBytes_nil,
      List.map_append]
    exact trimRight_append_singleton _ rfl
  . rfl

theorem map_lineText_splitLines (bytes : List UInt8) :
    (splitLines (Glyph.ofBytes bytes)).map lineText = (fileLines bytes).map trimRight := by
  rw [splitLines_ofBytes, fileLines, List.map_map, List.map_map]
  exact List.map_congr_left fun line _ => lineText_ofBytes line

theorem lineSize_cons (g : Glyph) (line : List Glyph) :
    lineSize (g :: line) = g.size + lineSize line := by
  have hfold (n : Nat) : line.foldl (fun n g => n + g.size) n = n + lineSize line := by
    unfold lineSize
    induction line generalizing n with
    | nil => rfl
    | cons g line ih =>
      rw [List.foldl_cons, List.foldl_cons, ih, ih (0 + g.size)]
      omega
  rw [lineSize, List.foldl_cons, hfold, Nat.zero_add]

theorem lineSize_ofBytes (line : List UInt8) : lineSize (Glyph.ofBytes line) = line.length := by
  induction hn : line.length using Nat.strongRecOn generalizing line with
  | ind n ih =>
    cases line with
    | nil =>
      rw [Glyph.ofBytes_nil]
      exact hn
    | cons b rest =>
      rw [List.length_cons] at hn
      cases hfirst : Glyph.first? (b :: rest) with
      | none =>
        rw [Glyph.ofBytes_cons_of_none hfirst, lineSize_cons, ih _ (by omega) rest rfl, ← hn]
        exact Nat.add_comm 1 _
      | some g =>
        have hsize := Glyph.size_le_of_first? hfirst
        have hpos := Glyph.size_pos_of_first? hfirst
        have hdrop := List.length_drop (l := rest) (i := g.size - 1)
        rw [Glyph.ofBytes_cons_of_some hfirst, lineSize_cons, ih _ (by omega) _ rfl]
        omega

end IdlCompiler.Lexer
