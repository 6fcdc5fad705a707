import IdlCompiler.Proofs.Token.Writing

/-!
This module contains that the tokens of a source tile it: each one stands at its position with the
characters that it is written with, and all other characters are blank. A source that can be tiled is
read, and the lexemes of its tokens are those of the tiles.
-/

namespace IdlCompiler

open Lexer Text

def Pos.after (file : String) (before : List Char) : Pos where
  file := file
  line := before.count '\n' + 1
  col := (before.reverse.takeWhile (· ≠ '\n')).length + 1

namespace Pos

variable {file : String} {before cs : List Char} {line col : Nat}

theorem after_append (h : after file before = ⟨file, line, col⟩) (hcs : '\n' ∉ cs) :
    after file (before ++ cs) = ⟨file, line, col + cs.length⟩ := by
  unfold after at h ⊢
  rw [Pos.mk.injEq] at h
  rcases h with ⟨-, hline, hcol⟩
  have hall : ∀ c ∈ cs.reverse, decide (c ≠ '\n') := by
    intro c hc
    rw [decide_eq_true_eq]
    rintro rfl
    exact hcs (List.mem_reverse.1 hc)
  rw [List.count_append, List.count_eq_zero.2 hcs, List.reverse_append,
    List.takeWhile_append_of_pos hall, List.length_append, List.length_reverse, Pos.mk.injEq]
  refine ⟨rfl, hline, ?_⟩
  omega

theorem after_append_newline (h : after file before = ⟨file, line, col⟩) :
    after file (before ++ ['\n']) = ⟨file, line + 1, 1⟩ := by
  unfold after at h ⊢
  rw [Pos.mk.injEq] at h
  rw [List.count_append, List.reverse_append]
  simp [h.2.1]

end Pos

/--
The characters behind `before` are tiled by tokens and blank characters. Each token stands at its
position with the characters that it is written with, and ends in front of the next ones.
-/
inductive Tiled (file : String) : List Char → List Char → List Token → Prop
  | nil (before : List Char) : Tiled file before [] []
  | blank {before rest : List Char} {c : Char} {ts : List Token} :
      isBlank c → Tiled file (before ++ [c]) rest ts → Tiled file before (c :: rest) ts
  | token {before written rest : List Char} {l : Lexeme} {ts : List Token} :
      l.WrittenAs written → l.EndsBefore rest → Tiled file (before ++ written) rest ts →
      Tiled file before (written ++ rest) (⟨l, Pos.after file before⟩ :: ts)

/--
None of the tokens starts before the place between `a` and `b` and ends behind it.
-/
def Gap (ts : List Token) (a b : List Char) : Prop :=
  ∀ t ∈ ts, ∀ before front back after, a = before ++ front → b = back ++ after →
    t.pos = Pos.after t.pos.file before → t.lexeme.WrittenAs (front ++ back) →
    front = [] ∨ back = []

theorem gap_behind_newline (ts : List Token) (a b : List Char) : Gap ts (a ++ ['\n']) b := by
  intro t _ before front back after ha _ _ hwritten
  left
  rcases List.eq_nil_or_concat front with rfl | ⟨front, c, rfl⟩
  . rfl
  . -- The token would have the line break as a character.
    have hmem := hwritten.newline_not_mem
    rw [List.concat_eq_append, ← List.append_assoc] at ha
    cases (List.append_inj' ha rfl).2
    simp at hmem

theorem gap_blanks (ts : List Token) (a : List Char) {b : List Char} (h : ∀ c ∈ b, isBlank c) :
    Gap ts a b := by
  intro t _ before front back after _ hb _ hwritten
  right
  rcases List.eq_nil_or_concat back with rfl | ⟨back, c, rfl⟩
  . rfl
  . -- The token would end with a blank character.
    rcases hwritten.exists_eq_cons with ⟨-, -, -, -, hlast⟩
    have hblank := h c (by simp [hb])
    rw [hlast c (by simp)] at hblank
    cases hblank

theorem gap_of_col {ts : List Token} {a : List Char} (ha : '\n' ∉ a)
    (h : ∀ t ∈ ts, a.length < t.pos.col ∨
      t.lexeme.kind ≠ "string" ∧ t.pos.col + t.lexeme.text.length ≤ a.length + 1)
    (b : List Char) : Gap ts a b := by
  rintro t ht before front back after rfl - hpos hwritten
  rw [List.mem_append, not_or] at ha
  have hcol : t.pos.col = before.length + 1 := by
    have hstart : Pos.after t.pos.file [] = ⟨t.pos.file, 1, 1⟩ := rfl
    rw [hpos, ← List.nil_append before, Pos.after_append hstart ha.1, List.nil_append, Nat.add_comm]
  rcases h t ht with hbehind | ⟨hkind, hfront⟩
  . left
    rw [List.length_append] at hbehind
    exact List.eq_nil_of_length_eq_zero (by omega)
  . right
    have hlength := hwritten.length_eq hkind
    rw [List.length_append] at hlength hfront
    exact List.eq_nil_of_length_eq_zero (by omega)

namespace Tiled

variable {file file' : String} {before before' cs bs rest : List Char} {ts ts' : List Token}

theorem blanks (h : Tiled file (before ++ bs) rest ts) (hbs : ∀ b ∈ bs, isBlank b) :
    Tiled file before (bs ++ rest) ts := by
  induction bs generalizing before with
  | nil =>
    rw [List.append_nil] at h
    exact h
  | cons b bs ih =>
    rw [List.forall_mem_cons] at hbs
    rw [← List.singleton_append, ← List.append_assoc] at h
    exact .blank hbs.1 (ih h hbs.2)

theorem append (h : Tiled file before cs ts) (h' : Tiled file (before ++ cs) rest ts')
    (hrest : ∀ c ∈ rest.head?, isBlank c) : Tiled file before (cs ++ rest) (ts ++ ts') := by
  induction h with
  | nil before =>
    rw [List.append_nil] at h'
    exact h'
  | blank hc _ ih =>
    rw [List.append_cons] at h'
    exact .blank hc (ih h')
  | @token before written cs l ts hwritten hend _ ih =>
    rw [← List.append_assoc] at h'
    rw [List.append_assoc]
    refine .token hwritten ?_ (ih h')
    cases cs with
    | nil => exact Lexeme.endsBefore_of_blank hrest
    | cons c cs => exact hend.congr rfl

theorem exists_of_append (h : Tiled file before (cs ++ rest) ts) (hgap : Gap ts (before ++ cs) rest) :
    ∃ ts₁ ts₂, ts = ts₁ ++ ts₂ ∧ Tiled file before cs ts₁ ∧ Tiled file (before ++ cs) rest ts₂ := by
  generalize hall : cs ++ rest = all at h
  induction h generalizing cs with
  | nil before =>
    rcases List.append_eq_nil_iff.1 hall with ⟨rfl, rfl⟩
    exact ⟨[], [], rfl, .nil _, .nil _⟩
  | @blank before tail c ts hc htail ih =>
    cases cs with
    | nil =>
      rw [List.nil_append] at hall
      rw [hall, List.append_nil]
      exact ⟨[], ts, rfl, .nil _, .blank hc htail⟩
    | cons d cs =>
      rcases List.cons.inj hall with ⟨rfl, hrest⟩
      rw [List.append_cons] at hgap ⊢
      rcases ih hgap hrest with ⟨ts₁, ts₂, rfl, hcs, hrest⟩
      exact ⟨ts₁, ts₂, rfl, .blank hc hcs, hrest⟩
  | @token before written tail l ts hwritten hend htail ih =>
    -- A place that is not behind the token is at its start or at its end, by the gap.
    rcases List.append_eq_append_iff.1 hall with ⟨back, rfl, rfl⟩ | ⟨more, rfl, rfl⟩
    . rcases hgap _ List.mem_cons_self before cs back tail rfl rfl rfl hwritten with rfl | rfl
      . refine ⟨[], _, rfl, .nil _, ?_⟩
        rw [List.append_nil]
        exact .token hwritten hend htail
      . refine ⟨[_], ts, rfl, ?_, ?_⟩
        . rw [List.append_nil] at hwritten
          have hone : Tiled file before (cs ++ []) [⟨l, Pos.after file before⟩] :=
            .token hwritten (Lexeme.endsBefore_of_blank (by simp)) (.nil _)
          rw [List.append_nil] at hone
          exact hone
        . rw [List.append_nil] at htail
          exact htail
    . rw [← List.append_assoc] at hgap ⊢
      have hgap' : Gap ts (before ++ written ++ more) rest :=
        fun t ht => hgap t (List.mem_cons_of_mem _ ht)
      rcases ih hgap' rfl with ⟨ts₁, ts₂, rfl, hmore, hrest⟩
      refine ⟨_ :: ts₁, ts₂, rfl, .token hwritten ?_ hmore, hrest⟩
      cases more with
      | nil => exact Lexeme.endsBefore_of_blank (by simp)
      | cons c more => exact hend.congr rfl

theorem eq_nil_of_blanks (h : Tiled file before bs ts) (hbs : ∀ b ∈ bs, isBlank b) : ts = [] := by
  induction h with
  | nil before => rfl
  | blank _ _ ih => exact ih (List.forall_mem_cons.1 hbs).2
  | token hwritten _ _ _ =>
    rcases hwritten.exists_eq_cons with ⟨c, tail, rfl, hc, -⟩
    have := hbs c (by simp)
    rw [hc] at this
    cases this

theorem of_append_blanks (h : Tiled file before (cs ++ bs) ts) (hbs : ∀ b ∈ bs, isBlank b) :
    Tiled file before cs ts := by
  rcases h.exists_of_append (gap_blanks ts _ hbs) with ⟨ts₁, ts₂, rfl, hcs, hrest⟩
  rw [hrest.eq_nil_of_blanks hbs, List.append_nil]
  exact hcs

theorem exists_move (h : Tiled file before cs ts) (file' : String) (before' : List Char) :
    ∃ ts', Tiled file' before' cs ts' ∧ ts'.map (·.lexeme) = ts.map (·.lexeme) := by
  induction h generalizing before' with
  | nil before => exact ⟨[], .nil before', rfl⟩
  | blank hc _ ih =>
    rcases ih (before' ++ [_]) with ⟨ts', htail, hsame⟩
    exact ⟨ts', .blank hc htail, hsame⟩
  | @token before written rest l ts hwritten hend _ ih =>
    rcases ih (before' ++ written) with ⟨ts', htail, hsame⟩
    refine ⟨_, .token hwritten hend htail, ?_⟩
    rw [List.map_cons, List.map_cons, hsame]

theorem lexemes_eq (h : Tiled file before cs ts) : lexemes cs = some (ts.map (·.lexeme)) := by
  induction h with
  | nil before => exact lexemes_nil
  | blank hc _ ih => rw [lexemes_cons_of_isBlank hc, ih]
  | @token before written rest l ts hwritten hend _ ih =>
    rcases hwritten.exists_eq_cons with ⟨c, cs, rfl, hc, -⟩
    rcases scanLexeme_of_writtenAs hwritten hend with ⟨width, hrest, hscan⟩
    rw [List.cons_append, lexemes_cons_of_not_isBlank (by rw [hc]; decide), hscan]
    dsimp only
    rw [ih, Option.map_some, List.map_cons]

end Tiled

namespace Lexer

variable {file : String} {line col : Nat} {before cs : List Char} {acc ts : List Token}

theorem exists_tiled_of_scanLine (h : scanLine file line col cs acc = .ok ts) (hcs : '\n' ∉ cs)
    (hpos : Pos.after file before = ⟨file, line, col⟩) :
    ∃ ts', ts = ts'.reverse ++ acc ∧ Tiled file before cs ts' := by
  -- A token takes several characters, so the induction is on how many are left.
  induction hn : cs.length using Nat.strongRecOn generalizing cs col acc before with
  | ind n ih =>
    cases cs with
    | nil =>
      rw [scanLine_nil] at h
      cases h
      exact ⟨[], rfl, .nil before⟩
    | cons c cs =>
      rw [List.length_cons] at hn
      rw [List.mem_cons, not_or] at hcs
      by_cases hblank : isBlank c
      . rw [scanLine_cons_of_isBlank hblank] at h
        have hc : '\n' ∉ [c] := by
          rw [List.mem_singleton]
          exact hcs.1
        rcases ih cs.length (by omega) h hcs.2 (Pos.after_append hpos hc) rfl with
          ⟨ts', rfl, htiled⟩
        exact ⟨ts', rfl, .blank hblank htiled⟩
      . rw [scanLine_cons_of_not_isBlank hblank] at h
        split at h
        . cases h
        . next l width rest hrest hscan =>
          have hline : '\n' ∉ c :: cs := by
            rw [List.mem_cons, not_or]
            exact hcs
          rcases exists_writtenAs_of_scanLexeme hscan (Bool.eq_false_iff.2 hblank) hline with
            ⟨written, hwhole, hwidth, hwritten, hend⟩
          rw [hwhole, List.mem_append, not_or] at hline
          have hnext := Pos.after_append hpos hline.1
          rw [hwidth] at hnext
          rcases ih rest.length (by omega) h hline.2 hnext rfl with ⟨ts', rfl, htiled⟩
          refine ⟨⟨l, ⟨file, line, col⟩⟩ :: ts', ?_, ?_⟩
          . rw [List.reverse_cons, List.append_assoc, List.singleton_append]
          . rw [hwhole, ← hpos]
            exact .token hwritten hend htiled

theorem newline_not_mem_lineText {l : List Glyph} (hl : ∀ g ∈ l, g.char ≠ '\n') :
    '\n' ∉ lineText l := by
  intro hmem
  have hstart := trimRight_prefix (l.map (·.char))
  rcases List.mem_map.1 (hstart.subset hmem) with ⟨g, hg, hchar⟩
  exact hl g hg hchar

theorem exists_of_scanLines_cons {l : List Glyph} {lines : List (List Glyph)} {width : Nat}
    {stream : TokenStream} (h : scanLines file line width acc (l :: lines) = .ok stream) :
    ∃ ts, scanLine file (line + 1) 1 (lineText l) acc = .ok ts ∧
      scanLines file (line + 1) (lineText l).length ts lines = .ok stream := by
  rw [scanLines] at h
  split at h
  . cases h
  . dsimp only at h
    split at h
    . cases h
    . next ts hline => exact ⟨ts, hline, h⟩

theorem exists_tiled_of_line {l : List Glyph}
    (h : scanLine file line 1 (lineText l) acc = .ok ts) (hl : ∀ g ∈ l, g.char ≠ '\n')
    (hpos : Pos.after file before = ⟨file, line, 1⟩) {rest : List Char}
    (hrest : ∀ c ∈ rest.head?, isBlank c) :
    ∃ ts', ts = ts'.reverse ++ acc ∧ ∀ {more},
      Tiled file (before ++ l.map (·.char)) rest more →
        Tiled file before (l.map (·.char) ++ rest) (ts' ++ more) := by
  rcases exists_tiled_of_scanLine h (newline_not_mem_lineText hl) hpos with ⟨ts', rfl, htiled⟩
  rcases exists_blanks_of_trimRight (l.map (·.char)) with ⟨bs, hwhole, hbs⟩
  refine ⟨ts', rfl, ?_⟩
  intro more hmore
  rw [hwhole, ← List.append_assoc] at hmore
  rw [hwhole, List.append_assoc]
  refine htiled.append (hmore.blanks hbs) ?_
  cases bs with
  | nil => exact hrest
  | cons b bs =>
    intro c hc
    cases hc
    exact hbs b List.mem_cons_self

theorem exists_tiled_of_scanLines {src : List Glyph} {width : Nat} {stream : TokenStream}
    (h : scanLines file line width acc (splitLines src) = .ok stream)
    (hpos : Pos.after file before = ⟨file, line + 1, 1⟩) :
    ∃ ts, stream.tokens = acc.reverse ++ ts ∧ Tiled file before (src.map (·.char)) ts := by
  induction src using lines_induction generalizing line width acc before with
  | nil =>
    rw [splitLines_nil, scanLines] at h
    cases h
    exact ⟨[], (List.append_nil _).symm, .nil before⟩
  | last l hl hne =>
    rw [splitLines_last hl hne] at h
    rcases exists_of_scanLines_cons h with ⟨ts, hline, hend⟩
    have hnone : ∀ c ∈ ([] : List Char).head?, isBlank c := by simp
    rcases exists_tiled_of_line hline hl hpos hnone with ⟨ts', rfl, htiled⟩
    rw [scanLines] at hend
    cases hend
    refine ⟨ts', by simp, ?_⟩
    have := htiled (.nil _)
    rw [List.append_nil, List.append_nil] at this
    exact this
  | line l newline rest hl hnewline ih =>
    rw [splitLines_line hl hnewline] at h
    rcases exists_of_scanLines_cons h with ⟨ts, hline, hlines⟩
    have hblank : isBlank newline.char := by
      rw [hnewline]
      rfl
    have hbreak : ∀ c ∈ (newline.char :: rest.map (·.char)).head?, isBlank c := by
      simpa using hblank
    rcases exists_tiled_of_line hline hl hpos hbreak with ⟨ts₁, rfl, htiled⟩
    -- The line break takes the position to the start of the next line, where scanning goes on.
    have hnext : Pos.after file (before ++ l.map (·.char) ++ [newline.char]) =
        ⟨file, line + 2, 1⟩ := by
      have hchars : '\n' ∉ l.map (·.char) := by
        intro hmem
        rcases List.mem_map.1 hmem with ⟨g, hg, hchar⟩
        exact hl g hg hchar
      rw [hnewline]
      exact Pos.after_append_newline (Pos.after_append hpos hchars)
    rcases ih hlines hnext with ⟨ts₂, htokens, hrest⟩
    refine ⟨ts₁ ++ ts₂, ?_, ?_⟩
    . rw [htokens, List.reverse_append, List.reverse_reverse, List.append_assoc]
    . rw [List.map_append, List.map_cons]
      exact htiled (.blank hblank hrest)

theorem allLexemes_of_tiled {src : List Glyph} (h : Tiled file before (src.map (·.char)) ts)
    (hsize : ∀ l ∈ splitLines src, lineSize l < lineLimit) :
    allLexemes (splitLines src) = some (ts.map (·.lexeme)) := by
  have hline {l : List Glyph} {before bs : List Char} {ts : List Token}
      (h : Tiled file before (l.map (·.char) ++ bs) ts) (hbs : ∀ b ∈ bs, isBlank b) :
      lexemes (lineText l) = some (ts.map (·.lexeme)) := by
    rcases exists_blanks_of_trimRight (l.map (·.char)) with ⟨more, hwhole, hmore⟩
    rw [hwhole] at h
    exact ((h.of_append_blanks hbs).of_append_blanks hmore).lexemes_eq
  induction src using lines_induction generalizing before ts with
  | nil =>
    rw [h.eq_nil_of_blanks (by simp)]
    rfl
  | last l hl hne =>
    rw [splitLines_last hl hne] at hsize ⊢
    rw [List.forall_mem_singleton] at hsize
    rw [← List.append_nil (l.map (·.char))] at h
    rw [allLexemes, if_neg (Nat.not_le.2 hsize), hline h (by simp), allLexemes, Option.bind_some,
      Option.map_some, List.append_nil]
  | line l newline rest hl hnewline ih =>
    rw [splitLines_line hl hnewline] at hsize ⊢
    rw [List.forall_mem_cons] at hsize
    rw [List.map_append, List.map_cons, hnewline, List.append_cons] at h
    rcases h.exists_of_append (by
      rw [← List.append_assoc]
      apply gap_behind_newline) with ⟨ts₁, ts₂, rfl, h₁, h₂⟩
    have hnewlineBlank : ∀ b ∈ ['\n'], isBlank b := List.forall_mem_singleton.2 rfl
    rw [allLexemes, if_neg (Nat.not_le.2 hsize.1), hline h₁ hnewlineBlank, ih h₂ hsize.2,
      Option.bind_some, Option.map_some, List.map_append]

end Lexer

namespace TokenStream

variable {file : String} {src : List Glyph} {stream : TokenStream} {before : List Char}
  {ts : List Token}

theorem tiled_of_ofSource (h : ofSource file src = .ok stream) :
    Tiled file [] (src.map (·.char)) stream.tokens := by
  have hstart : Pos.after file [] = ⟨file, 0 + 1, 1⟩ := rfl
  rcases exists_tiled_of_scanLines h hstart with ⟨ts, htokens, htiled⟩
  rw [htokens]
  exact htiled

theorem exists_ofSource_of_tiled (h : Tiled file before (src.map (·.char)) ts)
    (hsize : ∀ l ∈ splitLines src, lineSize l < lineLimit) (name : String) :
    ∃ stream, ofSource name src = .ok stream ∧
      stream.tokens.map (·.lexeme) = ts.map (·.lexeme) :=
  exists_ofSource_of_allLexemes (allLexemes_of_tiled h hsize) name

end TokenStream

end IdlCompiler
