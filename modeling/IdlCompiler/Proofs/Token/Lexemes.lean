import IdlCompiler.Proofs.RoundTrip.Lines
import IdlCompiler.Proofs.Text.Blank

/-!
This module contains what the lexer reads apart from where it reads it: the lexemes of a line and of
a source, which do not depend on the lines before, and the order of the places of tokens.
-/

namespace IdlCompiler

open Text

def Pos.Precedes (p q : Pos) : Prop :=
  p.line < q.line ∨ p.line = q.line ∧ p.col < q.col

namespace Lexer

def decode : List Char → Option (List Char)
  | [] => none
  | '\\' :: c :: rest => (decode rest).map (unescape c :: ·)
  | c :: rest =>
    if c = '\x22' then some []
    else if c = '\\' then none
    else (decode rest).map (c :: ·)

theorem map_scanString_go {all cs : List Char} (acc : List Char) (width : Nat)
    (h : cs.length ≤ all.length) :
    (scanString.go all acc width cs h).map (·.1) = (decode cs).map (acc.reverse ++ ·) := by
  fun_induction decode cs generalizing acc width with
  | case1 => rfl
  | case2 letter rest ih =>
    rw [scanString_go_escaped h, ih, Option.map_map]
    congr 1
    funext value
    simp
  | case3 rest =>
    show some acc.reverse = _
    simp
  | case4 rest hend =>
    cases rest with
    | nil => rfl
    | cons c rest => exact absurd rfl (hend c rest rfl)
  | case5 c rest _ hquote hback ih =>
    rw [scanString_go_plain h hquote hback, ih, Option.map_map]
    congr 1
    funext value
    simp

theorem decode_of_scanString {cs value : List Char} {width : Nat}
    {rest : { rest : List Char // rest.length ≤ cs.length }}
    (h : scanString cs = some (value, width, rest)) : decode cs = some value := by
  have hmap := map_scanString_go [] 0 (Nat.le_refl cs.length)
  unfold scanString at h
  rw [h] at hmap
  simpa using hmap.symm

theorem eq_backslash_of_unescape {letter : Char} (h : unescape letter = '\\') :
    letter = '\\' := by
  unfold unescape at h
  split at h <;> first | exact h | exact absurd h (by decide)

def lexemes (cs : List Char) : Option (List Lexeme) :=
  match cs with
  | [] => some []
  | c :: cs =>
    if isBlank c then
      lexemes cs
    else
      match scanLexeme c cs with
      | none => none
      | some (lexeme, _, ⟨rest, _⟩) => (lexemes rest).map (lexeme :: ·)
termination_by cs.length

theorem lexemes_nil : lexemes [] = some [] := by
  rw [lexemes.eq_def]

theorem lexemes_cons_of_isBlank {c : Char} {cs : List Char} (h : isBlank c) :
    lexemes (c :: cs) = lexemes cs :=
  (lexemes.eq_def (c :: cs)).trans (if_pos h)

theorem lexemes_cons_of_not_isBlank {c : Char} {cs : List Char} (h : ¬isBlank c) :
    lexemes (c :: cs) =
      match scanLexeme c cs with
      | none => none
      | some (lexeme, _, ⟨rest, _⟩) => (lexemes rest).map (lexeme :: ·) :=
  (lexemes.eq_def (c :: cs)).trans (if_neg h)

def allLexemes : List (List Glyph) → Option (List Lexeme)
  | [] => some []
  | line :: lines =>
    if lineLimit ≤ lineSize line then none
    else (lexemes (lineText line)).bind fun ls => (allLexemes lines).map (ls ++ ·)

structure OnLine (line col : Nat) (ts : List Token) : Prop where
  line_eq : ∀ t ∈ ts, t.pos.line = line
  le_col : ∀ t ∈ ts, col ≤ t.pos.col
  pairwise : ts.Pairwise fun t t' => t.pos.Precedes t'.pos

theorem OnLine.mono {line col col' : Nat} {ts : List Token} (h : OnLine line col' ts)
    (hcol : col ≤ col') : OnLine line col ts where
  line_eq := h.line_eq
  le_col := fun t ht => Nat.le_trans hcol (h.le_col t ht)
  pairwise := h.pairwise

theorem OnLine.cons {line col col' : Nat} {ts : List Token} {t : Token} (h : OnLine line col' ts)
    (hline : t.pos.line = line) (hcol : t.pos.col = col) (hlt : col < col') :
    OnLine line col (t :: ts) where
  line_eq := List.forall_mem_cons.2 ⟨hline, h.line_eq⟩
  le_col := by
    refine List.forall_mem_cons.2 ⟨Nat.le_of_eq hcol.symm, ?_⟩
    intro t' ht'
    exact Nat.le_trans (Nat.le_of_lt hlt) (h.le_col t' ht')
  pairwise := by
    rw [List.pairwise_cons]
    refine ⟨?_, h.pairwise⟩
    intro t' ht'
    have hle := h.le_col t' ht'
    apply Or.inr
    rw [hline, h.line_eq t' ht', hcol]
    exact ⟨rfl, Nat.lt_of_lt_of_le hlt hle⟩

theorem width_pos_of_scanLexeme {c : Char} {cs : List Char} {lexeme : Lexeme} {width : Nat}
    {rest : { rest : List Char // rest.length ≤ cs.length }}
    (h : scanLexeme c cs = some (lexeme, width, rest)) : 0 < width := by
  unfold scanLexeme at h
  split at h
  . split at h
    . cases h
      exact Nat.succ_pos _
    . cases h
  . split at h
    . cases h
      exact Nat.succ_pos _
    . split at h
      . cases h
        exact Nat.succ_pos _
      . cases h
        exact Nat.one_pos

theorem scanLine_cases (file : String) (line col : Nat) (cs : List Char) (acc : List Token) :
    (∃ d, scanLine file line col cs acc = .error d ∧ lexemes cs = none) ∨
      ∃ ts, scanLine file line col cs acc = .ok (ts.reverse ++ acc) ∧
        lexemes cs = some (ts.map (·.lexeme)) ∧ OnLine line col ts := by
  induction hn : cs.length using Nat.strongRecOn generalizing cs col acc with
  | ind n ih =>
    cases cs with
    | nil =>
      exact .inr ⟨[], scanLine_nil, lexemes_nil, ⟨by simp, by simp, .nil⟩⟩
    | cons c cs =>
      rw [List.length_cons] at hn
      by_cases hblank : isBlank c
      . rw [scanLine_cons_of_isBlank hblank, lexemes_cons_of_isBlank hblank]
        rcases ih cs.length (by omega) (col + 1) cs acc rfl with herror | ⟨ts, hok, hls, hts⟩
        . exact .inl herror
        . exact .inr ⟨ts, hok, hls, hts.mono (Nat.le_succ col)⟩
      . rw [scanLine_cons_of_not_isBlank hblank, lexemes_cons_of_not_isBlank hblank]
        cases hscan : scanLexeme c cs with
        | none => exact .inl ⟨_, rfl, rfl⟩
        | some result =>
          rcases result with ⟨lexeme, width, rest, hrest⟩
          have hwidth := width_pos_of_scanLexeme hscan
          dsimp only
          rcases ih rest.length (by omega) (col + width) rest
            (⟨lexeme, ⟨file, line, col⟩⟩ :: acc) rfl with ⟨d, hd, hnone⟩ | ⟨ts, hok, hls, hts⟩
          . exact .inl ⟨d, hd, by rw [hnone, Option.map_none]⟩
          . refine .inr ⟨⟨lexeme, ⟨file, line, col⟩⟩ :: ts, ?_, ?_, ?_⟩
            . rw [hok, List.reverse_cons, List.append_assoc, List.singleton_append]
            . rw [hls, Option.map_some, List.map_cons]
            . exact hts.cons rfl rfl (by omega)

theorem scanLines_cases (file : String) (line width : Nat) (acc : List Token)
    (lines : List (List Glyph)) :
    (∃ e, scanLines file line width acc lines = .error e ∧ allLexemes lines = none) ∨
      ∃ ts endPos, scanLines file line width acc lines = .ok ⟨acc.reverse ++ ts, endPos⟩ ∧
        allLexemes lines = some (ts.map (·.lexeme)) ∧ (∀ t ∈ ts, line < t.pos.line) ∧
        ts.Pairwise fun t t' => t.pos.Precedes t'.pos := by
  induction lines generalizing line width acc with
  | nil =>
    refine .inr ⟨[], ⟨file, line, width⟩, ?_, rfl, by simp, .nil⟩
    rw [scanLines, List.append_nil]
  | cons glyphs lines ih =>
    rw [scanLines, allLexemes]
    by_cases hlimit : lineLimit ≤ lineSize glyphs
    . rw [if_pos hlimit, if_pos hlimit]
      exact .inl ⟨_, rfl, rfl⟩
    . rw [if_neg hlimit, if_neg hlimit]
      dsimp only
      rcases scanLine_cases file (line + 1) 1 (lineText glyphs) acc with
        ⟨d, hd, hnone⟩ | ⟨ts, hok, hls, hts⟩
      . rw [hd, hnone]
        exact .inl ⟨_, rfl, rfl⟩
      . rw [hok, hls, Option.bind_some]
        rcases ih (line + 1) (lineText glyphs).length (ts.reverse ++ acc) with
          ⟨e, he, hnone⟩ | ⟨ts', endPos, hok', hls', hlines, hpairwise⟩
        . exact .inl ⟨e, he, by rw [hnone, Option.map_none]⟩
        . refine .inr ⟨ts ++ ts', endPos, ?_, ?_, ?_, ?_⟩
          . show scanLines _ _ _ _ _ = _
            rw [hok', List.reverse_append, List.reverse_reverse, List.append_assoc]
          . rw [hls', Option.map_some, List.map_append]
          . intro t ht
            rcases List.mem_append.1 ht with ht | ht
            . rw [hts.line_eq t ht]
              exact Nat.lt_succ_self _
            . exact Nat.lt_of_succ_lt (hlines t ht)
          . rw [List.pairwise_append]
            refine ⟨hts.pairwise, hpairwise, ?_⟩
            intro t ht t' ht'
            apply Or.inl
            rw [hts.line_eq t ht]
            exact hlines t' ht'

theorem lexemes_quote {cs : List Char} {ls : List Lexeme}
    (h : lexemes ('\x22' :: cs) = some ls) :
    ∃ value ls', decode cs = some value ∧ ls = .string (String.ofList value) :: ls' := by
  have hblank : ¬isBlank '\x22' := by decide
  rw [lexemes_cons_of_not_isBlank hblank] at h
  cases hscan : scanString cs with
  | none => simp [scanLexeme, hscan] at h
  | some result =>
    rcases result with ⟨value, width, rest⟩
    simp only [scanLexeme, ↓reduceIte, hscan] at h
    rcases Option.map_eq_some_iff.1 h with ⟨ls', -, rfl⟩
    exact ⟨value, ls', decode_of_scanString hscan, rfl⟩

theorem Reads.exists_of_lexemes {Follow : List Char → Prop} {text : String}
    {P : List Token → Prop} (h : Reads Follow text P) {rest : List Char} {ls : List Lexeme}
    (hrest : Follow rest) (hls : lexemes (text.toList ++ rest) = some ls) :
    ∃ ts ls', P ts ∧ ls = ts.map (·.lexeme) ++ ls' ∧ lexemes rest = some ls' := by
  rcases h.scan rest hrest "" 0 0 [] with ⟨ts, col, hP, hscan⟩
  rcases scanLine_cases "" 0 0 (text.toList ++ rest) [] with ⟨d, -, hnone⟩ | ⟨all, hok, hall, -⟩
  . rw [hls] at hnone
    cases hnone
  . rw [hls, Option.some.injEq] at hall
    rcases scanLine_cases "" 0 col rest (ts.reverse ++ []) with ⟨d, hd, -⟩ | ⟨ts', hok', hls', -⟩
    . rw [hscan, hd] at hok
      cases hok
    . rw [hscan, hok', Except.ok.injEq, List.append_nil, List.append_nil, ← List.reverse_append,
        List.reverse_inj] at hok
      refine ⟨ts, ts'.map (·.lexeme), hP, ?_, hls'⟩
      rw [hall, ← hok, List.map_append]

theorem splitLines_go_eq (lines : List (List Glyph)) (src : List Glyph) :
    splitLines.go [] lines src = lines.reverse ++ splitLines src := by
  unfold splitLines
  suffices h : ∀ line lines, splitLines.go line lines src =
      lines.reverse ++ splitLines.go line [] src from h [] lines
  induction src with
  | nil =>
    intro line lines
    cases line <;> simp [splitLines.go]
  | cons g src ih =>
    intro line lines
    rw [splitLines.go, splitLines.go]
    split
    . rw [ih [] (line.reverse :: lines), ih [] [line.reverse], List.reverse_cons,
        List.append_assoc, List.reverse_singleton]
    . exact ih _ _

theorem splitLines_append (a b : List Glyph) {newline : Glyph} (h : newline.char = '\n') :
    splitLines (a ++ newline :: b) = splitLines a ++ splitLines b ∨
      splitLines (a ++ newline :: b) = splitLines a ++ [] :: splitLines b := by
  unfold splitLines
  suffices hgo : ∀ line lines,
      splitLines.go line lines (a ++ newline :: b) = splitLines.go line lines a ++ splitLines b ∨
        splitLines.go line lines (a ++ newline :: b) =
          splitLines.go line lines a ++ [] :: splitLines b from hgo [] []
  induction a with
  | nil =>
    intro line lines
    have hgo : splitLines.go line lines (newline :: b) =
        (line.reverse :: lines).reverse ++ splitLines b := by
      rw [splitLines.go, if_pos h, splitLines_go_eq]
    rw [List.nil_append, hgo]
    cases line with
    | nil =>
      apply Or.inr
      simp [splitLines.go]
    | cons g line =>
      apply Or.inl
      simp [splitLines.go]
  | cons g a ih =>
    intro line lines
    rw [List.cons_append, splitLines.go, splitLines.go]
    split
    . exact ih _ _
    . exact ih _ _

theorem splitLines_nil : splitLines [] = [] := rfl

theorem splitLines_last {l : List Glyph} (hl : ∀ g ∈ l, g.char ≠ '\n') (hne : l ≠ []) :
    splitLines l = [l] := by
  unfold splitLines
  rw [← List.append_nil l, splitLines_go_append hl, splitLines.go]
  simp [hne]

theorem splitLines_ofString {text : String} (hline : '\n' ∉ text.toList) (hne : text ≠ "") :
    splitLines (Glyph.ofString text) = [Glyph.ofString text] := by
  apply splitLines_last
  . intro g hg
    rcases List.mem_map.1 hg with ⟨c, hc, rfl⟩
    rintro rfl
    exact hline hc
  . simp [Glyph.ofString, hne]

theorem splitLines_line {l : List Glyph} (hl : ∀ g ∈ l, g.char ≠ '\n') {newline : Glyph}
    (hnewline : newline.char = '\n') (rest : List Glyph) :
    splitLines (l ++ newline :: rest) = l :: splitLines rest := by
  rw [splitLines, splitLines_go_append hl, splitLines.go, if_pos hnewline, splitLines_go_eq]
  simp

theorem breaks_induction {α : Type} (isBreak : α → Prop) [DecidablePred isBreak]
    {P : List α → Prop} (nil : P []) (last : ∀ l, (∀ a ∈ l, ¬isBreak a) → l ≠ [] → P l)
    (line : ∀ l b rest, (∀ a ∈ l, ¬isBreak a) → isBreak b → P rest → P (l ++ b :: rest))
    (all : List α) : P all := by
  induction hn : all.length using Nat.strongRecOn generalizing all with
  | ind n ih =>
    have hsplit := List.takeWhile_append_dropWhile (p := fun a => ¬isBreak a) (l := all)
    have hl : ∀ a ∈ all.takeWhile (fun a => ¬isBreak a), ¬isBreak a := by
      intro a ha
      simpa using List.all_eq_true.1 List.all_takeWhile a ha
    cases hrest : all.dropWhile (fun a => ¬isBreak a) with
    | nil =>
      rw [hrest, List.append_nil] at hsplit
      rw [hsplit] at hl
      by_cases hne : all = []
      . rw [hne]
        exact nil
      . exact last all hl hne
    | cons b rest =>
      have hbreak : isBreak b := by
        have hhead := List.head?_dropWhile_not (fun a => ¬isBreak a) all
        rw [hrest] at hhead
        simpa using hhead
      rw [hrest] at hsplit
      rw [← hsplit, List.length_append, List.length_cons] at hn
      rw [← hsplit]
      exact line _ b rest hl hbreak (ih rest.length (by omega) rest rfl)

theorem lines_induction {P : List Glyph → Prop} (nil : P [])
    (last : ∀ l, (∀ g ∈ l, g.char ≠ '\n') → l ≠ [] → P l)
    (line : ∀ l newline rest, (∀ g ∈ l, g.char ≠ '\n') → newline.char = '\n' → P rest →
      P (l ++ newline :: rest)) (src : List Glyph) : P src :=
  breaks_induction (·.char = '\n') nil last line src

theorem splitLines_eq_cons {src : List Glyph} (h : src ≠ []) :
    ∃ lines, splitLines src = src.takeWhile (·.char ≠ '\n') :: lines := by
  have htake {l : List Glyph} (hl : ∀ g ∈ l, g.char ≠ '\n') (rest : List Glyph) :
      (l ++ rest).takeWhile (·.char ≠ '\n') = l ++ rest.takeWhile (·.char ≠ '\n') := by
    apply List.takeWhile_append_of_pos
    simpa using hl
  cases src using lines_induction with
  | nil => exact absurd rfl h
  | last l hl hne =>
    have hwhole := htake hl []
    rw [List.append_nil, List.takeWhile_nil, List.append_nil] at hwhole
    rw [splitLines_last hl hne, hwhole]
    exact ⟨[], rfl⟩
  | line l newline rest hl hnewline _ =>
    rw [splitLines_line hl hnewline, htake hl]
    refine ⟨splitLines rest, ?_⟩
    simp [hnewline]

theorem exists_of_allLexemes_cons {line : List Glyph} {lines : List (List Glyph)} {ls : List Lexeme}
    (h : allLexemes (line :: lines) = some ls) :
    lineSize line < lineLimit ∧ ∃ ls₁ ls₂, ls = ls₁ ++ ls₂ ∧ lexemes (lineText line) = some ls₁ ∧
      allLexemes lines = some ls₂ := by
  rw [allLexemes] at h
  split at h
  . cases h
  . next hlimit =>
    rcases Option.bind_eq_some_iff.1 h with ⟨ls₁, hline, hmap⟩
    rcases Option.map_eq_some_iff.1 hmap with ⟨ls₂, hlines, rfl⟩
    exact ⟨Nat.lt_of_not_le hlimit, ls₁, ls₂, rfl, hline, hlines⟩

theorem allLexemes_append {lines lines' : List (List Glyph)} {ls ls' : List Lexeme}
    (h : allLexemes lines = some ls) (h' : allLexemes lines' = some ls') :
    allLexemes (lines ++ lines') = some (ls ++ ls') := by
  induction lines generalizing ls with
  | nil =>
    cases h
    exact h'
  | cons line lines ih =>
    rcases exists_of_allLexemes_cons h with ⟨hlimit, ls₁, ls₂, rfl, hline, hlines⟩
    rw [List.cons_append, allLexemes, if_neg (Nat.not_le.2 hlimit), hline, Option.bind_some,
      ih hlines, Option.map_some, List.append_assoc]

theorem allLexemes_cons_nil (lines : List (List Glyph)) :
    allLexemes ([] :: lines) = allLexemes lines := by
  have hempty : lexemes (lineText []) = some [] := lexemes_nil
  have hlimit : ¬lineLimit ≤ lineSize [] := by decide
  rw [allLexemes, if_neg hlimit, hempty, Option.bind_some]
  simp

end Lexer

namespace TokenStream

open Lexer

variable {file : String} {src a b : List Glyph} {stream : TokenStream} {ls ls' : List Lexeme}

theorem allLexemes_of_ofSource (h : ofSource file src = .ok stream) :
    allLexemes (splitLines src) = some (stream.tokens.map (·.lexeme)) := by
  unfold ofSource at h
  rcases scanLines_cases file 0 0 [] (splitLines src) with
    ⟨e, he, -⟩ | ⟨ts, endPos, hok, hls, -⟩
  . rw [he] at h
    cases h
  . rw [hok] at h
    cases h
    exact hls

theorem exists_ofSource_of_allLexemes (h : allLexemes (splitLines src) = some ls) (file : String) :
    ∃ stream, ofSource file src = .ok stream ∧ stream.tokens.map (·.lexeme) = ls := by
  unfold ofSource
  rcases scanLines_cases file 0 0 [] (splitLines src) with
    ⟨e, -, hnone⟩ | ⟨ts, endPos, hok, hls, -⟩
  . rw [h] at hnone
    cases hnone
  . rw [h, Option.some.injEq] at hls
    exact ⟨_, hok, hls.symm⟩

theorem pairwise_of_ofSource (h : ofSource file src = .ok stream) :
    stream.tokens.Pairwise fun t t' => t.pos.Precedes t'.pos := by
  unfold ofSource at h
  rcases scanLines_cases file 0 0 [] (splitLines src) with
    ⟨e, he, -⟩ | ⟨ts, endPos, hok, -, -, hpairwise⟩
  . rw [he] at h
    cases h
  . rw [hok] at h
    cases h
    exact hpairwise

theorem nodup_of_ofSource (h : ofSource file src = .ok stream) : stream.tokens.Nodup := by
  refine (pairwise_of_ofSource h).imp ?_
  rintro t t' hprecedes rfl
  rcases hprecedes with hlt | ⟨-, hlt⟩
  . exact Nat.lt_irrefl _ hlt
  . exact Nat.lt_irrefl _ hlt

theorem ne_eof_of_ofSource (h : ofSource file src = .ok stream) :
    ∀ t ∈ stream.tokens, t.lexeme ≠ .eof := by
  intro t ht heof
  have hspelled := spelled_of_ofSource h t ht
  rw [heof] at hspelled
  exact hspelled

theorem nodup_toList_of_ofSource (h : ofSource file src = .ok stream) : stream.toList.Nodup := by
  rw [toList, List.nodup_append]
  refine ⟨nodup_of_ofSource h, by simp, ?_⟩
  rintro t ht t' ht' rfl
  rw [List.mem_singleton.1 ht'] at ht
  exact ne_eof_of_ofSource h _ ht rfl

theorem allLexemes_append_newline (ha : allLexemes (splitLines a) = some ls)
    (hb : allLexemes (splitLines b) = some ls') {newline : Glyph} (h : newline.char = '\n') :
    allLexemes (splitLines (a ++ newline :: b)) = some (ls ++ ls') := by
  rcases splitLines_append a b h with hsplit | hsplit
  . rw [hsplit]
    exact allLexemes_append ha hb
  . rw [hsplit]
    refine allLexemes_append ha ?_
    rw [allLexemes_cons_nil]
    exact hb

end TokenStream

end IdlCompiler
