import Mathlib
import IdlCompiler.Proofs.Token.FileLines
import IdlCompiler.Proofs.Token.Tiles

/-!
This module contains where the tokens of a file stand on its lines: each one at its line and column,
none over another, and with blanks at all other places. The end of the file is told by the number of
its lines and the length of the last one.
-/

namespace IdlCompiler

open Lexer Text

structure Tile where
  token : Token
  written : List Char
  deriving DecidableEq, Repr

namespace Tile

def endCol (t : Tile) : Nat :=
  t.token.pos.col + t.written.length

def Covers (t : Tile) (line col : Nat) : Prop :=
  t.token.pos.line = line ∧ t.token.pos.col ≤ col ∧ col < t.endCol

def Precedes (t t' : Tile) : Prop :=
  t.token.pos.line < t'.token.pos.line ∨
    t.token.pos.line = t'.token.pos.line ∧ t.endCol ≤ t'.token.pos.col

def StandsOn (t : Tile) (file : String) (line : Nat) (cs : List Char) : Prop :=
  ∃ front back, cs = front ++ t.written ++ back ∧ t.token.pos = ⟨file, line, front.length + 1⟩ ∧
    t.token.lexeme.WrittenAs t.written ∧ t.token.lexeme.EndsBefore back

theorem StandsOn.line_eq {t : Tile} {file : String} {line : Nat} {cs : List Char}
    (h : t.StandsOn file line cs) : t.token.pos.line = line := by
  rcases h with ⟨front, back, -, hpos, -, -⟩
  rw [hpos]

end Tile

/--
Tiles stand on a line from the index `start` on, each behind the ones before it, and the other
characters there are blank.
-/
structure LineTiling (file : String) (line : Nat) (cs : List Char) (start : Nat)
    (tiles : List Tile) : Prop where
  standsOn : ∀ t ∈ tiles, t.StandsOn file line cs
  behind : ∀ t ∈ tiles, start < t.token.pos.col
  apart : tiles.Pairwise Tile.Precedes
  covered : ∀ i c, start ≤ i → cs[i]? = some c → isBlank c ∨ ∃ t ∈ tiles, t.Covers line (i + 1)

namespace LineTiling

variable {file : String} {line start : Nat} {before cs : List Char} {tiles : List Tile}

theorem nil : LineTiling file line cs cs.length [] where
  standsOn := by simp
  behind := by simp
  apart := .nil
  covered := by
    intro i c hstart hc
    rw [List.getElem?_eq_none hstart] at hc
    cases hc

theorem blank {b : Char} (hb : isBlank b) (hcs : cs[start]? = some b)
    (h : LineTiling file line cs (start + 1) tiles) : LineTiling file line cs start tiles where
  standsOn := h.standsOn
  behind := fun t ht => Nat.lt_of_succ_lt (h.behind t ht)
  apart := h.apart
  covered := by
    intro i c hstart hc
    rcases Nat.eq_or_lt_of_le hstart with rfl | hlt
    . rw [hcs] at hc
      cases hc
      exact .inl hb
    . exact h.covered i c hlt hc

theorem token {t : Tile} (ht : t.StandsOn file line cs) (hcol : t.token.pos.col = start + 1)
    (h : LineTiling file line cs (start + t.written.length) tiles) :
    LineTiling file line cs start (t :: tiles) where
  standsOn := List.forall_mem_cons.2 ⟨ht, h.standsOn⟩
  behind := by
    rw [List.forall_mem_cons]
    refine ⟨by omega, ?_⟩
    intro t' ht'
    have hbehind := h.behind t' ht'
    omega
  apart := by
    rw [List.pairwise_cons]
    refine ⟨?_, h.apart⟩
    intro t' ht'
    have hbehind := h.behind t' ht'
    right
    rw [ht.line_eq, (h.standsOn t' ht').line_eq, Tile.endCol]
    exact ⟨rfl, by omega⟩
  covered := by
    intro i c hstart hc
    by_cases hi : i < start + t.written.length
    . refine .inr ⟨t, List.mem_cons_self, ht.line_eq, by omega, ?_⟩
      rw [Tile.endCol]
      omega
    . rcases h.covered i c (by omega) hc with hblank | ⟨t', ht', hcovers⟩
      . exact .inl hblank
      . exact .inr ⟨t', List.mem_cons_of_mem t ht', hcovers⟩

theorem exists_of_tiled {ts : List Token} (front : List Char) (h : Tiled file before cs ts)
    (hpos : Pos.after file before = ⟨file, line, front.length + 1⟩) (hcs : '\n' ∉ cs) :
    ∃ tiles, ts = tiles.map (·.token) ∧
      LineTiling file line (front ++ cs) front.length tiles := by
  induction h generalizing front with
  | nil before =>
    rw [List.append_nil]
    exact ⟨[], rfl, .nil⟩
  | @blank before rest c ts hc _ ih =>
    rw [← List.singleton_append, List.mem_append, not_or] at hcs
    have hnext := Pos.after_append hpos hcs.1
    rw [Nat.add_right_comm, ← List.length_append] at hnext
    rcases ih (front ++ [c]) hnext hcs.2 with ⟨tiles, rfl, htiles⟩
    rw [List.length_append, List.append_assoc] at htiles
    exact ⟨tiles, rfl, .blank hc (by simp) htiles⟩
  | @token before written rest l ts hwritten hend _ ih =>
    rw [List.mem_append, not_or] at hcs
    have hnext := Pos.after_append hpos hcs.1
    rw [Nat.add_right_comm, ← List.length_append] at hnext
    rcases ih (front ++ written) hnext hcs.2 with ⟨tiles, rfl, htiles⟩
    rw [List.length_append] at htiles
    let tile : Tile := ⟨⟨l, Pos.after file before⟩, written⟩
    have hstands : tile.StandsOn file line (front ++ written ++ rest) :=
      ⟨front, rest, rfl, hpos, hwritten, hend⟩
    have hcol : tile.token.pos.col = front.length + 1 := congrArg Pos.col hpos
    rw [← List.append_assoc]
    exact ⟨tile :: tiles, rfl, .token hstands hcol htiles⟩

end LineTiling

/--
Tiles stand on the lines of a file, each behind the ones before it, and the other characters of the
lines are blank. Lines and columns count from one.
-/
structure Tiling (file : String) (lines : List (List Char)) (tiles : List Tile) : Prop where
  standsOn : ∀ t ∈ tiles, ∃ i cs, lines[i]? = some cs ∧ t.StandsOn file (i + 1) cs
  apart : tiles.Pairwise Tile.Precedes
  covered : ∀ i cs j c, lines[i]? = some cs → cs[j]? = some c →
    isBlank c ∨ ∃ t ∈ tiles, t.Covers (i + 1) (j + 1)

namespace Tiling

variable {file : String} {lines : List (List Char)} {cs : List Char} {tiles more : List Tile}

theorem nil : Tiling file [] [] where
  standsOn := by simp
  apart := .nil
  covered := by simp

theorem concat (h : Tiling file lines tiles) (hline : LineTiling file (lines.length + 1) cs 0 more) :
    Tiling file (lines ++ [cs]) (tiles ++ more) where
  standsOn := by
    intro t ht
    rcases List.mem_append.1 ht with ht | ht
    . rcases h.standsOn t ht with ⟨i, cs', hcs', hstands⟩
      rcases List.getElem?_eq_some_iff.1 hcs' with ⟨hi, -⟩
      refine ⟨i, cs', ?_, hstands⟩
      rw [List.getElem?_append_left hi]
      exact hcs'
    . exact ⟨lines.length, cs, by simp, hline.standsOn t ht⟩
  apart := by
    rw [List.pairwise_append]
    refine ⟨h.apart, hline.apart, ?_⟩
    intro t ht t' ht'
    rcases h.standsOn t ht with ⟨i, cs', hcs', hstands⟩
    rcases List.getElem?_eq_some_iff.1 hcs' with ⟨hi, -⟩
    left
    rw [hstands.line_eq, (hline.standsOn t' ht').line_eq]
    omega
  covered := by
    intro i cs' j c hcs' hc
    by_cases hi : i < lines.length
    . rw [List.getElem?_append_left hi] at hcs'
      rcases h.covered i cs' j c hcs' hc with hblank | ⟨t, ht, hcovers⟩
      . exact .inl hblank
      . exact .inr ⟨t, List.mem_append_left more ht, hcovers⟩
    . rw [List.getElem?_append_right (by omega), List.getElem?_singleton] at hcs'
      split at hcs'
      . next hlast =>
        cases hcs'
        have hi : i = lines.length := by omega
        subst hi
        rcases hline.covered j c (Nat.zero_le j) hc with hblank | ⟨t, ht, hcovers⟩
        . exact .inl hblank
        . exact .inr ⟨t, List.mem_append_right tiles ht, hcovers⟩
      . cases hcs'

end Tiling

namespace Pos

/--
The place of the end of a file: the number of its lines and the length of the last one without the
blanks at its end, both zero if there are no lines.
-/
def endOf (file : String) (lines : List (List Char)) : Pos where
  file := file
  line := lines.length
  col := (lines.getLast?.map fun cs => (trimRight cs).length).getD 0

theorem after_replicate_newline (file : String) (n : Nat) :
    after file (List.replicate n '\n') = ⟨file, n + 1, 1⟩ := by
  induction n with
  | zero => rfl
  | succ n ih =>
    rw [List.replicate_succ']
    exact after_append_newline ih

end Pos

namespace Lexer

variable {file : String} {cs : List Char}

theorem exists_lineTiling_of_scanLine {line : Nat} {acc ts : List Token}
    (h : scanLine file (line + 1) 1 (trimRight cs) acc = .ok ts) (hcs : '\n' ∉ cs) :
    ∃ tiles, ts = (tiles.map (·.token)).reverse ++ acc ∧
      LineTiling file (line + 1) cs 0 tiles := by
  have hpos := Pos.after_replicate_newline file line
  have hstart := trimRight_prefix cs
  have htext : '\n' ∉ trimRight cs := fun hmem => hcs (hstart.subset hmem)
  rcases exists_tiled_of_scanLine h htext hpos with ⟨ts', rfl, htiled⟩
  rcases exists_blanks_of_trimRight cs with ⟨bs, hwhole, hbs⟩
  have hblanks : Tiled file (List.replicate line '\n' ++ trimRight cs) (bs ++ []) [] :=
    (Tiled.nil _).blanks hbs
  rw [List.append_nil] at hblanks
  have hline := htiled.append hblanks fun b hb => hbs b (List.mem_of_head? hb)
  rw [← hwhole, List.append_nil] at hline
  rcases LineTiling.exists_of_tiled [] hline hpos hcs with ⟨tiles, rfl, htiles⟩
  exact ⟨tiles, rfl, htiles⟩

theorem exists_tiling_of_scanLines {rest : List (List Glyph)} {before after : List (List Char)}
    {tiles : List Tile} {stream : TokenStream} (hbefore : Tiling file before tiles)
    (h : scanLines file before.length (Pos.endOf file before).col (tiles.map (·.token)).reverse
      rest = .ok stream)
    (hrest : rest.map lineText = after.map trimRight) (hafter : ∀ cs ∈ after, '\n' ∉ cs) :
    ∃ tiles', stream = ⟨tiles'.map (·.token), Pos.endOf file (before ++ after)⟩ ∧
      Tiling file (before ++ after) tiles' := by
  induction rest generalizing before after tiles with
  | nil =>
    rw [List.map_nil, eq_comm, List.map_eq_nil_iff] at hrest
    rw [scanLines, List.reverse_reverse, Except.ok.injEq] at h
    rw [hrest, List.append_nil]
    exact ⟨tiles, h.symm, hbefore⟩
  | cons l rest ih =>
    cases after with
    | nil => cases hrest
    | cons cs after =>
      rw [List.map_cons, List.map_cons, List.cons.injEq] at hrest
      rw [List.forall_mem_cons] at hafter
      rcases exists_of_scanLines_cons h with ⟨ts, hline, hlines⟩
      rw [hrest.1] at hline hlines
      rcases exists_lineTiling_of_scanLine hline hafter.1 with ⟨more, rfl, hmore⟩
      have hend : Pos.endOf file (before ++ [cs]) =
          ⟨file, before.length + 1, (trimRight cs).length⟩ := by
        simp [Pos.endOf]
      rw [← List.reverse_append, ← List.map_append] at hlines
      have hnext : scanLines file (before ++ [cs]).length (Pos.endOf file (before ++ [cs])).col
          ((tiles ++ more).map (·.token)).reverse rest = .ok stream := by
        rw [hend, List.length_append, List.length_singleton]
        exact hlines
      rw [List.append_cons]
      exact ih (hbefore.concat hmore) hnext hrest.2 hafter.2

end Lexer

namespace TokenStream

variable {file : String} {bytes : List UInt8} {stream : TokenStream}

/--
The tokens of a file stand on its lines, each behind the ones before it and written as its lexeme, and
all other characters are blank. The last token is the end of the file, with the number of its lines
and the length of the last one without the blanks at its end.
-/
theorem exists_tiling_of_ofSource (h : ofSource file (Glyph.ofBytes bytes) = .ok stream) :
    ∃ tiles : List Tile,
      stream.toList = tiles.map (·.token) ++ [⟨.eof, Pos.endOf file (fileLines bytes)⟩] ∧
        stream.tokens.Pairwise (fun t t' => t.pos.Precedes t'.pos) ∧
        Tiling file (fileLines bytes) tiles := by
  have hlines := map_lineText_splitLines bytes
  rcases exists_tiling_of_scanLines .nil h hlines (newline_not_mem_fileLines bytes) with
    ⟨tiles, rfl, htiles⟩
  exact ⟨tiles, rfl, pairwise_of_ofSource h, htiles⟩

def twoLines : List UInt8 :=
  [0x61, 0x31, 0x20, 0x22, 0x78, 0x5C, 0x6E, 0x5C, 0x22, 0x22, 0x20, 0x32, 0x30, 0x62, 0x0D, 0x0A,
    0xC3, 0xA9, 0x3D, 0xFF, 0xE2, 0x80, 0x83]

def twoLinesStream : TokenStream where
  tokens :=
    [⟨.ident "a1", ⟨"a.idl", 1, 1⟩⟩, ⟨.string "x\n\x22", ⟨"a.idl", 1, 4⟩⟩,
      ⟨.number "20", ⟨"a.idl", 1, 12⟩⟩, ⟨.ident "b", ⟨"a.idl", 1, 14⟩⟩, ⟨.op 'é', ⟨"a.idl", 2, 1⟩⟩,
      ⟨.op '=', ⟨"a.idl", 2, 2⟩⟩, ⟨.op '\uFFFD', ⟨"a.idl", 2, 3⟩⟩]
  endPos := ⟨"a.idl", 2, 3⟩

theorem exists_tiling_of_ofSource_twoLines :
    ofSource "a.idl" (Glyph.ofBytes twoLines) = .ok twoLinesStream ∧
      fileLines twoLines = ["a1 \x22x\\n\\\x22\x22 20b".toList, "é=\uFFFD\u2003".toList] ∧
      ∃ tiles : List Tile,
        twoLinesStream.toList =
            tiles.map (·.token) ++ [⟨.eof, Pos.endOf "a.idl" (fileLines twoLines)⟩] ∧
          twoLinesStream.tokens.Pairwise (fun t t' => t.pos.Precedes t'.pos) ∧
          Tiling "a.idl" (fileLines twoLines) tiles := by
  have hsource : ofSource "a.idl" (Glyph.ofBytes twoLines) = .ok twoLinesStream := by
    cbv
  have hlines :
      fileLines twoLines = ["a1 \x22x\\n\\\x22\x22 20b".toList, "é=\uFFFD\u2003".toList] := by
    cbv
  exact ⟨hsource, hlines, exists_tiling_of_ofSource hsource⟩

end TokenStream

end IdlCompiler
