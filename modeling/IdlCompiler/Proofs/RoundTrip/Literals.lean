import IdlCompiler.Proofs.Token.Lexemes
import Mathlib

/-!
This module contains that the lexer inverts both writers of string literals. What either of them
writes in front of the rest of a line is read as one string, and the rest is read as it is read on
its own, further right.
-/

namespace IdlCompiler

open Lexer Text

def Token.movedBy (width : Nat) (t : Token) : Token :=
  { t with pos := { t.pos with col := width + t.pos.col } }

namespace Lexer

variable {file : String} {line col : Nat} {cs : List Char} {acc ts : List Token} {l : List Glyph}

theorem exists_moved_of_scanLine (h : scanLine file line col cs acc = .ok ts) :
    ∃ own, ts = own ++ acc ∧ ∀ width acc,
      scanLine file line (width + col) cs acc = .ok (own.map (·.movedBy width) ++ acc) := by
  -- A token takes several characters, so the induction is on how many are left.
  induction hn : cs.length using Nat.strongRecOn generalizing cs col acc with
  | ind n ih =>
    cases cs with
    | nil =>
      rw [scanLine_nil] at h
      cases h
      exact ⟨[], rfl, fun _ _ => scanLine_nil⟩
    | cons c cs =>
      rw [List.length_cons] at hn
      by_cases hblank : isBlank c
      . rw [scanLine_cons_of_isBlank hblank] at h
        rcases ih cs.length (by omega) h rfl with ⟨own, rfl, hmoved⟩
        refine ⟨own, rfl, ?_⟩
        intro width acc
        rw [scanLine_cons_of_isBlank hblank, Nat.add_assoc]
        exact hmoved width acc
      . rw [scanLine_cons_of_not_isBlank hblank] at h
        split at h
        . cases h
        . next lexeme taken rest hrest hscan =>
          rcases ih rest.length (by omega) h rfl with ⟨own, rfl, hmoved⟩
          refine ⟨own ++ [⟨lexeme, ⟨file, line, col⟩⟩], ?_, ?_⟩
          . rw [List.append_assoc, List.singleton_append]
          . intro width acc
            rw [scanLine_cons_of_not_isBlank hblank, hscan]
            dsimp only
            rw [Nat.add_assoc, hmoved, List.map_append, List.append_assoc]
            rfl

theorem scanLine_literal {letter? : Char → Option Char} (h : Escapes letter?)
    (value rest : List Char) :
    scanLine file line col (Literal.charsBy letter? value ++ rest) acc =
      scanLine file line (col + (Literal.charsBy letter? value).length) rest
        (⟨.string (String.ofList value), ⟨file, line, col⟩⟩ :: acc) := by
  have hblank : ¬isBlank '\x22' := by decide
  rcases scanLexeme_string (h.quotes value) rest with ⟨hle, hscan⟩
  unfold Literal.charsBy
  rw [List.cons_append, List.cons_append, scanLine_cons_of_not_isBlank hblank, hscan]
  dsimp only
  rw [List.length_cons, List.length_append, List.length_singleton]

theorem scanLine_of_ofSource {stream : TokenStream} (hl : ∀ g ∈ l, g.char ≠ '\n')
    (h : TokenStream.ofSource file l = .ok stream) :
    scanLine file 1 1 (lineText l) [] = .ok stream.tokens.reverse ∧
      stream.endPos.col = (lineText l).length := by
  unfold TokenStream.ofSource at h
  by_cases hne : l = []
  . subst hne
    rw [splitLines_nil, scanLines] at h
    cases h
    exact ⟨scanLine_nil, rfl⟩
  . rw [splitLines_last hl hne, scanLines] at h
    split at h
    . cases h
    . dsimp only at h
      split at h
      . cases h
      . next ts hline =>
        rw [scanLines] at h
        cases h
        rw [List.reverse_reverse]
        exact ⟨hline, rfl⟩

theorem ofSource_of_scanLine (hl : ∀ g ∈ l, g.char ≠ '\n') (hne : l ≠ [])
    (hsize : lineSize l < lineLimit) (h : scanLine file 1 1 (lineText l) [] = .ok ts) :
    TokenStream.ofSource file l = .ok ⟨ts.reverse, ⟨file, 1, (lineText l).length⟩⟩ := by
  unfold TokenStream.ofSource
  rw [splitLines_last hl hne, scanLines, if_neg (Nat.not_le.2 hsize)]
  dsimp only
  rw [Nat.zero_add, h]
  rfl

theorem lineText_literal_append (letter? : Char → Option Char) (value : List Char)
    (rest : List Glyph) :
    lineText (Glyph.ofString (String.ofList (Literal.charsBy letter? value)) ++ rest) =
      Literal.charsBy letter? value ++ lineText rest := by
  have hquote : isBlank '\x22' = false := by decide
  unfold lineText
  rw [List.map_append, map_char_ofString, String.toList_ofList]
  unfold Literal.charsBy
  rw [List.append_assoc, List.singleton_append, trimRight_append_cons _ _ hquote,
    List.append_assoc, List.singleton_append]

theorem ofSource_charsBy_append {letter? : Char → Option Char} (hescapes : Escapes letter?)
    (value : List Char) {rest : List Glyph} {stream : TokenStream}
    (hrest : ∀ g ∈ rest, g.char ≠ '\n') (h : TokenStream.ofSource file rest = .ok stream)
    {literal : String} (hliteral : literal = String.ofList (Literal.charsBy letter? value))
    (hsize : lineSize (Glyph.ofString literal ++ rest) < lineLimit) :
    TokenStream.ofSource file (Glyph.ofString literal ++ rest) = .ok {
      tokens := ⟨.string (String.ofList value), ⟨file, 1, 1⟩⟩ ::
        stream.tokens.map (·.movedBy literal.length)
      endPos := ⟨file, 1, literal.length + stream.endPos.col⟩ } := by
  subst hliteral
  rcases scanLine_of_ofSource hrest h with ⟨hline, hcol⟩
  rcases exists_moved_of_scanLine hline with ⟨own, hown, hmoved⟩
  rw [List.append_nil] at hown
  have hnewline : ∀ g ∈ Glyph.ofString (String.ofList (Literal.charsBy letter? value)) ++ rest,
      g.char ≠ '\n' := by
    intro g hg
    rcases List.mem_append.1 hg with hg | hg
    . rcases List.mem_map.1 hg with ⟨c, hc, rfl⟩
      rintro rfl
      rw [String.toList_ofList] at hc
      exact hescapes.newline_not_mem value hc
    . exact hrest g hg
  have hne : Glyph.ofString (String.ofList (Literal.charsBy letter? value)) ++ rest ≠ [] := by
    simp [Glyph.ofString, Literal.charsBy]
  have hscan : scanLine file 1 1 (Literal.charsBy letter? value ++ lineText rest) [] = _ :=
    scanLine_literal hescapes value (lineText rest)
  rw [Nat.add_comm, hmoved, ← hown, ← lineText_literal_append] at hscan
  rw [ofSource_of_scanLine hnewline hne hsize hscan, lineText_literal_append, List.length_append,
    hcol, String.length_ofList, List.reverse_append, ← List.map_reverse, List.reverse_reverse]
  rfl

end Lexer

/--
Both literals of a string are read as it, in front of everything that can stand behind it on a line:
the first token is the string, and the others are those of the rest, moved by the width of the
literal.
-/
theorem TokenStream.ofSource_literal_append (value : String) {file : String} {rest : List Glyph}
    {stream : TokenStream} (hrest : ∀ g ∈ rest, g.char ≠ '\n')
    (h : ofSource file rest = .ok stream) :
    ∀ literal ∈ [Literal.source value, Literal.listing value],
      lineSize (Glyph.ofString literal ++ rest) < lineLimit →
      ofSource file (Glyph.ofString literal ++ rest) = .ok {
        tokens := ⟨.string value, ⟨file, 1, 1⟩⟩ :: stream.tokens.map (·.movedBy literal.length)
        endPos := ⟨file, 1, literal.length + stream.endPos.col⟩ } := by
  intro literal hliteral hsize
  simp only [List.mem_cons, List.not_mem_nil, or_false] at hliteral
  rcases hliteral with hliteral | hliteral
  . have hread := ofSource_charsBy_append escapes_sourceLetter? value.toList hrest h hliteral hsize
    rwa [String.ofList_toList] at hread
  . have hread := ofSource_charsBy_append escapes_listingLetter? value.toList hrest h hliteral hsize
    rwa [String.ofList_toList] at hread

def escapedValue : String :=
  "\\n\x07\n\x22\x0b "

def escapedRest : List Glyph :=
  Glyph.ofString ", \x22\\t\x22  "

def escapedStream : TokenStream where
  tokens := [⟨.op ',', ⟨"a.idl", 1, 1⟩⟩, ⟨.string "\t", ⟨"a.idl", 1, 3⟩⟩]
  endPos := ⟨"a.idl", 1, 6⟩

theorem TokenStream.ofSource_literal_append_escaped :
    (∀ g ∈ escapedRest, g.char ≠ '\n') ∧
      ofSource "a.idl" escapedRest = .ok escapedStream ∧
      Literal.source escapedValue ∈ [Literal.source escapedValue, Literal.listing escapedValue] ∧
      lineSize (Glyph.ofString (Literal.source escapedValue) ++ escapedRest) < lineLimit ∧
      ofSource "a.idl" (Glyph.ofString (Literal.source escapedValue) ++ escapedRest) = .ok {
        tokens := ⟨.string escapedValue, ⟨"a.idl", 1, 1⟩⟩ ::
          escapedStream.tokens.map (·.movedBy (Literal.source escapedValue).length)
        endPos := ⟨"a.idl", 1, (Literal.source escapedValue).length + escapedStream.endPos.col⟩ } := by
  have hline : ∀ g ∈ escapedRest, g.char ≠ '\n' := by
    decide
  have hread : ofSource "a.idl" escapedRest = .ok escapedStream := by
    cbv
  have hsize : lineSize (Glyph.ofString (Literal.source escapedValue) ++ escapedRest) < lineLimit := by
    decide
  have hfirst : Literal.source escapedValue ∈
      [Literal.source escapedValue, Literal.listing escapedValue] := List.mem_cons_self
  exact ⟨hline, hread, hfirst, hsize,
    TokenStream.ofSource_literal_append escapedValue hline hread _ hfirst hsize⟩

end IdlCompiler
