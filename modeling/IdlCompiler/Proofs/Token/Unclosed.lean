import Mathlib
import IdlCompiler.Proofs.Token.FileLines
import IdlCompiler.Proofs.Token.Tiles

/-!
This module contains which files the lexer refuses: those with a line that is too long, or that
leaves a string open. The first such line decides.
-/

namespace IdlCompiler

open Text

namespace Lexer

/--
Where the next character of a line stands: outside of strings, or inside of the one whose opening
quote has the index `start`, and then maybe shielded by a backslash.
-/
inductive QuoteState where
  | outside
  | inside (start : Nat) (shielded : Bool)

namespace QuoteState

def step (i : Nat) (c : Char) : QuoteState → QuoteState
  | .outside => if c = '\x22' then .inside i false else .outside
  | .inside start true => .inside start false
  | .inside start false => if c = '\x22' then .outside else .inside start (c = '\\')

def run (i : Nat) (q : QuoteState) : List Char → QuoteState
  | [] => q
  | c :: cs => run (i + 1) (q.step i c) cs

def start? : QuoteState → Option Nat
  | .outside => none
  | .inside start _ => some start

end QuoteState

def unclosed? (cs : List Char) : Option Nat :=
  (QuoteState.run 0 .outside cs).start?

namespace QuoteState

variable {i start : Nat} {q : QuoteState} {cs body value : List Char}

theorem run_append (xs ys : List Char) :
    run i q (xs ++ ys) = run (i + xs.length) (run i q xs) ys := by
  induction xs generalizing i q with
  | nil => rfl
  | cons x xs ih =>
    rw [List.cons_append, run, run, ih, List.length_cons, Nat.add_assoc, Nat.add_comm 1]

theorem run_outside (h : '\x22' ∉ cs) : run i .outside cs = .outside := by
  induction cs generalizing i with
  | nil => rfl
  | cons c cs ih =>
    rw [List.mem_cons, not_or] at h
    rw [run, step, if_neg (Ne.symm h.1), ih h.2]

theorem run_of_quotes (h : Quotes body value) :
    run i (.inside start false) body = .inside start false := by
  induction h generalizing i with
  | nil => rfl
  | plain hquote hback _ ih =>
    rw [run, step, if_neg hquote, decide_eq_false hback, ih]
  | escaped _ ih =>
    show run (i + 1 + 1) (.inside start false) _ = _
    rw [ih]

theorem start?_of_decode (h : decode cs = none) :
    (run i (.inside start false) cs).start? = some start := by
  fun_induction decode cs generalizing i with
  | case1 => rfl
  | case2 c rest ih => exact ih (Option.map_eq_none_iff.1 h)
  | case3 rest => cases h
  | case4 rest hend =>
    cases rest with
    | nil => rfl
    | cons c rest => exact absurd rfl (hend c rest rfl)
  | case5 c rest _ hquote hback ih =>
    rw [run, step, if_neg hquote, decide_eq_false hback]
    exact ih (Option.map_eq_none_iff.1 h)

theorem quote_not_mem {c : Char} (hc : isIdentChar c) (hcs : ∀ d ∈ cs, isIdentChar d) :
    '\x22' ∉ c :: cs := by
  intro hmem
  rcases List.mem_cons.1 hmem with hmem | hmem
  . exact ne_quote_of_isIdentChar hc hmem.symm
  . exact ne_quote_of_isIdentChar (hcs _ hmem) rfl

theorem run_of_writtenAs {l : Lexeme} (h : l.WrittenAs cs) : run i .outside cs = .outside := by
  cases l with
  | ident name =>
    obtain ⟨⟨c, tail, hname, hletter, htail⟩, hcs⟩ := h
    rw [hcs, hname]
    exact run_outside (quote_not_mem (isIdentChar_of_isLetter hletter) htail)
  | number digits =>
    obtain ⟨⟨c, tail, hdigits, hdigit, htail⟩, hcs⟩ := h
    rw [hcs, hdigits]
    exact run_outside (quote_not_mem (isIdentChar_of_isDigit hdigit) fun d hd =>
      isIdentChar_of_isDigit (htail d hd))
  | string value =>
    obtain ⟨-, body, hquotes, hcs⟩ := h
    rw [hcs, run, step, if_pos rfl, run_append, run_of_quotes hquotes]
    rfl
  | op d =>
    obtain ⟨⟨-, hquote, -⟩, hcs⟩ := h
    rw [hcs]
    exact run_outside fun hmem => hquote (List.mem_singleton.1 hmem).symm
  | eof => cases h

end QuoteState

variable {i : Nat} {c : Char} {cs : List Char}

theorem decode_of_scanLexeme_eq_none (h : scanLexeme c cs = none) :
    c = '\x22' ∧ decode cs = none := by
  unfold scanLexeme at h
  split at h
  . next hquote =>
    refine ⟨hquote, ?_⟩
    split at h
    . cases h
    . next hscan =>
      have hmap := map_scanString_go [] 0 (Nat.le_refl cs.length)
      unfold scanString at hscan
      rw [hscan] at hmap
      exact Option.map_eq_none_iff.1 hmap.symm
  . split at h
    . cases h
    . split at h
      . cases h
      . cases h

def unclosedAt (file : String) (line start : Nat) : Diagnostic where
  pos := ⟨file, line, start + 1⟩
  cause := .unterminatedString

theorem scanLine_cases_start? (file : String) (line : Nat) (acc : List Token) (hcs : '\n' ∉ cs) :
    (∃ ts, scanLine file line (i + 1) cs acc = .ok ts ∧
      (QuoteState.run i .outside cs).start? = none) ∨
    ∃ start, scanLine file line (i + 1) cs acc = .error (unclosedAt file line start) ∧
      (QuoteState.run i .outside cs).start? = some start := by
  induction hn : cs.length using Nat.strongRecOn generalizing cs i acc with
  | ind n ih =>
    cases cs with
    | nil => exact .inl ⟨acc, scanLine_nil, rfl⟩
    | cons c cs =>
      rw [List.length_cons] at hn
      have hrest : '\n' ∉ cs := fun hmem => hcs (List.mem_cons_of_mem c hmem)
      by_cases hblank : isBlank c
      . have hquote : c ≠ '\x22' := by
          rintro rfl
          cases hblank
        rw [scanLine_cons_of_isBlank hblank, QuoteState.run, QuoteState.step, if_neg hquote]
        exact ih cs.length (by omega) acc hrest rfl
      . rw [scanLine_cons_of_not_isBlank hblank]
        cases hscan : scanLexeme c cs with
        | none =>
          obtain ⟨rfl, hdecode⟩ := decode_of_scanLexeme_eq_none hscan
          exact .inr ⟨i, rfl, QuoteState.start?_of_decode hdecode⟩
        | some result =>
          obtain ⟨lexeme, width, rest, hlength⟩ := result
          obtain ⟨written, hwhole, hwidth, hwritten, -⟩ :=
            exists_writtenAs_of_scanLexeme hscan (Bool.eq_false_iff.2 hblank) hcs
          have hpos := width_pos_of_scanLexeme hscan
          rw [hwhole, List.mem_append, not_or] at hcs
          -- The lexeme closes what it opens, so what follows it starts outside of strings again.
          rw [hwhole, QuoteState.run_append, QuoteState.run_of_writtenAs hwritten, hwidth]
          dsimp only
          rw [Nat.add_right_comm i 1 width]
          exact ih rest.length (by omega) _ hcs.2 rfl

end Lexer

namespace TokenStream

open Lexer

def Sound (line : List UInt8) : Prop :=
  line.length < lineLimit ∧ unclosed? (trimRight ((Glyph.ofBytes line).map (·.char))) = none

inductive Fails (file : String) (n : Nat) (line : List UInt8) : LexError → Prop
  | tooLong : lineLimit ≤ line.length → Fails file n line .lineTooLong
  | unclosed {start : Nat} :
    line.length < lineLimit →
      unclosed? (trimRight ((Glyph.ofBytes line).map (·.char))) = some start →
      Fails file n line (.diagnostic (unclosedAt file n start))

def FirstFails (file : String) (n : Nat) (lines : List (List UInt8)) (e : LexError) : Prop :=
  ∃ front line back, lines = front ++ line :: back ∧ (∀ l ∈ front, Sound l) ∧
    Fails file (n + front.length + 1) line e

variable {file : String} {n width : Nat} {line : List UInt8} {lines : List (List UInt8)}
  {rest : List (List Glyph)} {acc : List Token} {e : LexError}

theorem firstFails_cons_iff :
    FirstFails file n (line :: lines) e ↔
      Fails file (n + 1) line e ∨ Sound line ∧ FirstFails file (n + 1) lines e := by
  constructor
  . rintro ⟨front, l, back, hlines, hfront, hfails⟩
    cases front with
    | nil =>
      cases hlines
      exact .inl hfails
    | cons _ front =>
      cases hlines
      rw [List.forall_mem_cons] at hfront
      rw [List.length_cons, Nat.add_comm front.length, ← Nat.add_assoc n] at hfails
      exact .inr ⟨hfront.1, front, l, back, rfl, hfront.2, hfails⟩
  . rintro (hfails | ⟨hsound, front, l, back, rfl, hfront, hfails⟩)
    . exact ⟨[], line, lines, rfl, by simp, hfails⟩
    . rw [Nat.add_assoc n, Nat.add_comm 1] at hfails
      exact ⟨line :: front, l, back, rfl, List.forall_mem_cons.2 ⟨hsound, hfront⟩, hfails⟩

theorem scanLines_of_fails (hline : 0x0A ∉ line) (h : Fails file (n + 1) line e) :
    scanLines file n width acc (Glyph.ofBytes line :: rest) = .error e := by
  have hcs := newline_not_mem_lineText (Glyph.char_ne_newline_of_mem_ofBytes hline)
  rw [scanLines, lineSize_ofBytes]
  cases h with
  | tooLong hsize => rw [if_pos hsize]
  | @unclosed start hsize hstart =>
    rw [if_neg (Nat.not_le.2 hsize)]
    rcases scanLine_cases_start? file (n + 1) acc hcs with
      ⟨ts, hts, hnone⟩ | ⟨start', hd, hstart'⟩
    . cases hnone.symm.trans hstart
    . cases hstart'.symm.trans hstart
      dsimp only
      rw [hd]

theorem exists_scanLines_of_sound (file : String) (hline : 0x0A ∉ line) (h : Sound line) :
    ∃ width' acc', scanLines file n width acc (Glyph.ofBytes line :: rest) =
      scanLines file (n + 1) width' acc' rest := by
  have hcs := newline_not_mem_lineText (Glyph.char_ne_newline_of_mem_ofBytes hline)
  rw [scanLines, lineSize_ofBytes, if_neg (Nat.not_le.2 h.1)]
  rcases scanLine_cases_start? file (n + 1) acc hcs with ⟨ts, hts, -⟩ | ⟨start, -, hstart⟩
  . dsimp only
    rw [hts]
    exact ⟨_, ts, rfl⟩
  . cases hstart.symm.trans h.2

theorem sound_or_fails (file : String) (n : Nat) (line : List UInt8) :
    Sound line ∨ ∃ e, Fails file n line e := by
  by_cases hsize : line.length < lineLimit
  . cases hstart : unclosed? (trimRight ((Glyph.ofBytes line).map (·.char))) with
    | none => exact .inl ⟨hsize, hstart⟩
    | some start => exact .inr ⟨_, .unclosed hsize hstart⟩
  . exact .inr ⟨_, .tooLong (Nat.not_lt.1 hsize)⟩

theorem Fails.not_sound (h : Fails file n line e) : ¬Sound line := by
  rintro ⟨hsize, hnone⟩
  cases h with
  | tooLong hlimit => exact Nat.not_le.2 hsize hlimit
  | unclosed _ hstart => cases hnone.symm.trans hstart

theorem Fails.eq {e' : LexError} (h : Fails file n line e) (h' : Fails file n line e') :
    e = e' := by
  cases h with
  | tooLong hlimit =>
    cases h' with
    | tooLong _ => rfl
    | unclosed hsize _ => exact absurd hlimit (Nat.not_le.2 hsize)
  | unclosed hsize hstart =>
    cases h' with
    | tooLong hlimit => exact absurd hlimit (Nat.not_le.2 hsize)
    | unclosed _ hstart' =>
      cases hstart.symm.trans hstart'
      rfl

theorem scanLines_eq_error_iff (hlines : ∀ l ∈ lines, 0x0A ∉ l) :
    scanLines file n width acc (lines.map Glyph.ofBytes) = .error e ↔
      FirstFails file n lines e := by
  induction lines generalizing n width acc with
  | nil => simp [scanLines, FirstFails]
  | cons line lines ih =>
    rw [List.forall_mem_cons] at hlines
    rw [firstFails_cons_iff, List.map_cons]
    rcases sound_or_fails file (n + 1) line with hsound | ⟨e', hfails⟩
    . obtain ⟨width', acc', hnext⟩ := exists_scanLines_of_sound file hlines.1 hsound
      rw [hnext, ih hlines.2]
      constructor
      . exact fun hrest => .inr ⟨hsound, hrest⟩
      . rintro (hfails | ⟨-, hrest⟩)
        . exact absurd hsound hfails.not_sound
        . exact hrest
    . rw [scanLines_of_fails hlines.1 hfails]
      constructor
      . intro he
        cases he
        exact .inl hfails
      . rintro (hfails' | ⟨hsound, -⟩)
        . rw [hfails.eq hfails']
        . exact absurd hsound hfails.not_sound

theorem exists_byteLines_append (start more : List UInt8) :
    ∃ back, byteLines (start ++ 0x0A :: more) = byteLines start ++ back := by
  induction start using byteLines_induction with
  | nil => exact ⟨_, rfl⟩
  | last line hline hne =>
    exact ⟨byteLines more, by rw [byteLines_line hline, byteLines_last hline hne]; rfl⟩
  | line line rest hline ih =>
    obtain ⟨back, hback⟩ := ih
    refine ⟨back, ?_⟩
    rw [List.append_assoc, List.cons_append, byteLines_line hline, byteLines_line hline, hback,
      List.cons_append]

/--
A file is refused exactly if one of its lines is too long or leaves a string open. The first such
line decides: the error is about its length, or about the opening quote of the string. Whatever
follows on more lines, a file that starts with one that is refused is refused with the same error.
-/
theorem ofSource_eq_error_iff (file : String) (bytes : List UInt8) (e : LexError) :
    (ofSource file (Glyph.ofBytes bytes) = .error e ↔ FirstFails file 0 (byteLines bytes) e) ∧
      ∀ more, ofSource file (Glyph.ofBytes bytes) = .error e →
        ofSource file (Glyph.ofBytes (bytes ++ 0x0A :: more)) = .error e := by
  have hiff (bytes : List UInt8) :
      ofSource file (Glyph.ofBytes bytes) = .error e ↔ FirstFails file 0 (byteLines bytes) e := by
    rw [ofSource, splitLines_ofBytes]
    exact scanLines_eq_error_iff (newline_not_mem_byteLines bytes)
  refine ⟨hiff bytes, ?_⟩
  intro more
  rw [hiff, hiff]
  rintro ⟨front, line, back, hlines, hfront, hfails⟩
  obtain ⟨later, hlater⟩ := exists_byteLines_append bytes more
  refine ⟨front, line, back ++ later, ?_, hfront, hfails⟩
  rw [hlater, hlines, List.append_assoc, List.cons_append]

def openString : List UInt8 :=
  [0x22, 0x5C, 0x22, 0x22, 0x20, 0x22, 0x5C, 0x5C, 0x22, 0x0A, 0x5C, 0x22, 0x61, 0x22, 0x20,
    0x22, 0x62, 0x5C, 0x22, 0x20]

theorem ofSource_eq_error_iff_openString :
    ofSource "a.idl" (Glyph.ofBytes openString) = .error (.diagnostic (unclosedAt "a.idl" 2 5)) ∧
      FirstFails "a.idl" 0 (byteLines openString) (.diagnostic (unclosedAt "a.idl" 2 5)) ∧
      ∀ more, ofSource "a.idl" (Glyph.ofBytes (openString ++ 0x0A :: more)) =
        .error (.diagnostic (unclosedAt "a.idl" 2 5)) := by
  have hsource : ofSource "a.idl" (Glyph.ofBytes openString) =
      .error (.diagnostic (unclosedAt "a.idl" 2 5)) := by
    cbv
  have h := ofSource_eq_error_iff "a.idl" openString (.diagnostic (unclosedAt "a.idl" 2 5))
  exact ⟨hsource, h.1.1 hsource, fun more => h.2 more hsource⟩

end TokenStream

end IdlCompiler
