import IdlCompiler.Token.Lexer
import IdlCompiler.Token.Literal
import Mathlib.Data.Nat.Init

/-!
This module contains how lexemes are spelled: what the lexer reads is spelled like a lexeme, and
what is spelled like a lexeme is read as that lexeme.
-/

namespace IdlCompiler

open Lexer Text

def IsIdent (name : String) : Prop :=
  ∃ c cs, name.toList = c :: cs ∧ isLetter c ∧ ∀ d ∈ cs, isIdentChar d

def IsNumber (digits : String) : Prop :=
  ∃ c cs, digits.toList = c :: cs ∧ isDigit c ∧ ∀ d ∈ cs, isDigit d

def Lexeme.Spelled : Lexeme → Prop
  | .ident name => IsIdent name
  | .number digits => IsNumber digits
  | .string _ => True
  | .op _ => True
  | .eof => False

theorem isIdent_of_chars {name : String} {c : Char} {cs : List Char} (hname : name.toList = c :: cs)
    (hc : isLetter c) (hcs : cs.all isIdentChar) : IsIdent name :=
  ⟨c, cs, hname, hc, List.all_eq_true.1 hcs⟩

namespace Lexer

theorem spelled_of_scanLexeme {c : Char} {cs : List Char} {lexeme : Lexeme} {width : Nat}
    {rest : { rest : List Char // rest.length ≤ cs.length }}
    (h : scanLexeme c cs = some (lexeme, width, rest)) : lexeme.Spelled := by
  unfold scanLexeme at h
  split at h
  . split at h
    . simp only [Option.some.injEq, Prod.mk.injEq] at h
      rw [← h.1]
      trivial
    . cases h
  . split at h
    . next hletter =>
      simp only [Option.some.injEq, Prod.mk.injEq] at h
      rw [← h.1]
      exact ⟨c, _, String.toList_ofList, hletter, List.all_eq_true.1 List.all_takeWhile⟩
    . split at h
      . next hdigit =>
        simp only [Option.some.injEq, Prod.mk.injEq] at h
        rw [← h.1]
        exact ⟨c, _, String.toList_ofList, hdigit, List.all_eq_true.1 List.all_takeWhile⟩
      . simp only [Option.some.injEq, Prod.mk.injEq] at h
        rw [← h.1]
        trivial

theorem scanLine_nil {file : String} {line col : Nat} {acc : List Token} :
    scanLine file line col [] acc = .ok acc := by
  unfold scanLine
  rfl

theorem scanLine_cons_of_isBlank {file : String} {line col : Nat} {c : Char} {cs : List Char}
    {acc : List Token} (h : isBlank c) :
    scanLine file line col (c :: cs) acc = scanLine file line (col + 1) cs acc :=
  (scanLine.eq_2 file line col acc c cs).trans (if_pos h)

theorem scanLine_cons_of_not_isBlank {file : String} {line col : Nat} {c : Char} {cs : List Char}
    {acc : List Token} (h : ¬isBlank c) :
    scanLine file line col (c :: cs) acc =
      match scanLexeme c cs with
      | none => .error { pos := ⟨file, line, col⟩, cause := .unterminatedString }
      | some (lexeme, width, ⟨rest, _⟩) =>
        scanLine file line (col + width) rest (⟨lexeme, ⟨file, line, col⟩⟩ :: acc) :=
  (scanLine.eq_2 file line col acc c cs).trans (if_neg h)

theorem spelled_of_scanLine {file : String} {line col : Nat} {cs : List Char} {acc ts : List Token}
    (h : scanLine file line col cs acc = .ok ts) (hacc : ∀ t ∈ acc, t.lexeme.Spelled) :
    ∀ t ∈ ts, t.lexeme.Spelled := by
  induction hn : cs.length using Nat.strongRecOn generalizing cs col acc with
  | ind n ih =>
    cases cs with
    | nil =>
      rw [scanLine_nil] at h
      cases h
      exact hacc
    | cons c cs =>
      by_cases hblank : isBlank c
      . rw [scanLine_cons_of_isBlank hblank] at h
        exact ih cs.length (by simp at hn; omega) h hacc rfl
      . rw [scanLine_cons_of_not_isBlank hblank] at h
        split at h
        . cases h
        . next lexeme width rest hrest hscan =>
          refine ih rest.length (by simp at hn; omega) h ?_ rfl
          intro t ht
          rcases List.mem_cons.1 ht with rfl | ht
          . exact spelled_of_scanLexeme hscan
          . exact hacc t ht

theorem spelled_of_scanLines {file : String} {line width : Nat} {lines : List (List Glyph)}
    {acc : List Token} {stream : TokenStream}
    (h : scanLines file line width acc lines = .ok stream) (hacc : ∀ t ∈ acc, t.lexeme.Spelled) :
    ∀ t ∈ stream.tokens, t.lexeme.Spelled := by
  induction lines generalizing line width acc with
  | nil =>
    rw [scanLines] at h
    cases h
    intro t ht
    exact hacc t (List.mem_reverse.1 ht)
  | cons glyphs lines ih =>
    rw [scanLines] at h
    split at h
    . cases h
    . dsimp only at h
      split at h
      . cases h
      . next acc' hline => exact ih h (spelled_of_scanLine hline hacc)

end Lexer

theorem TokenStream.spelled_of_ofSource {file : String} {src : List Glyph} {stream : TokenStream}
    (h : TokenStream.ofSource file src = .ok stream) : ∀ t ∈ stream.tokens, t.lexeme.Spelled :=
  spelled_of_scanLines h (by simp)

namespace Lexer

def EndsWord (rest : List Char) : Prop :=
  ∀ c ∈ rest.head?, isIdentChar c = false

def Anything (_ : List Char) : Prop :=
  True

/--
Wherever `text` stands on a line, if what follows it is as `Follow` says, then the tokens that it is
read as are as `P` says. It has no line break in it.
-/
structure Reads (Follow : List Char → Prop) (text : String) (P : List Token → Prop) : Prop where
  on_line : '\n' ∉ text.toList
  scan : ∀ rest, Follow rest → ∀ file line col acc, ∃ ts col', P ts ∧
    scanLine file line col (text.toList ++ rest) acc =
      scanLine file line col' rest (ts.reverse ++ acc)

def Then (P Q : List Token → Prop) (ts : List Token) : Prop :=
  ∃ ts₁ ts₂, ts = ts₁ ++ ts₂ ∧ P ts₁ ∧ Q ts₂

def Single (lexeme : Lexeme) (ts : List Token) : Prop :=
  ∃ p, ts = [⟨lexeme, p⟩]

variable {Follow Follow' : List Char → Prop} {a b : String} {P Q : List Token → Prop}

theorem Reads.append (ha : Reads Follow a P) (hb : Reads Follow' b Q)
    (hfollow : ∀ rest, Follow' rest → Follow (b.toList ++ rest)) :
    Reads Follow' (a ++ b) (Then P Q) where
  on_line := by
    rw [String.toList_append, List.mem_append, not_or]
    exact ⟨ha.on_line, hb.on_line⟩
  scan := by
    intro rest hrest file line col acc
    rcases ha.scan (b.toList ++ rest) (hfollow rest hrest) file line col acc with
      ⟨ts₁, col₁, hP, hscan₁⟩
    rcases hb.scan rest hrest file line col₁ (ts₁.reverse ++ acc) with ⟨ts₂, col₂, hQ, hscan₂⟩
    refine ⟨ts₁ ++ ts₂, col₂, ⟨ts₁, ts₂, rfl, hP, hQ⟩, ?_⟩
    rw [String.toList_append, List.append_assoc, hscan₁, hscan₂, List.reverse_append,
      List.append_assoc]

theorem Reads.imp (h : Reads Follow a P) (hPQ : ∀ ts, P ts → Q ts) : Reads Follow a Q where
  on_line := h.on_line
  scan := by
    intro rest hrest file line col acc
    rcases h.scan rest hrest file line col acc with ⟨ts, col', hP, hscan⟩
    exact ⟨ts, col', hPQ ts hP, hscan⟩

theorem Reads.weaken (h : Reads Anything a P) : Reads Follow a P where
  on_line := h.on_line
  scan := fun rest _ => h.scan rest trivial

theorem reads_empty : Reads Follow "" (· = []) where
  on_line := by simp
  scan := fun _ _ _ _ col _ => ⟨[], col, rfl, rfl⟩

theorem reads_blank : Reads Anything " " (· = []) where
  on_line := by decide
  scan := by
    intro rest _ file line col acc
    exact ⟨[], col + 1, rfl, scanLine_cons_of_isBlank rfl⟩

theorem reads_of_scanLexeme {text : String} {c : Char} {cs : List Char} {lexeme : Lexeme}
    (htext : text.toList = c :: cs) (hline : '\n' ∉ text.toList) (hblank : isBlank c = false)
    (hscan : ∀ rest, Follow rest →
      ∃ width h, scanLexeme c (cs ++ rest) = some (lexeme, width, ⟨rest, h⟩)) :
    Reads Follow text (Single lexeme) where
  on_line := hline
  scan := by
    intro rest hrest file line col acc
    rcases hscan rest hrest with ⟨width, h, hscan⟩
    refine ⟨[⟨lexeme, ⟨file, line, col⟩⟩], col + width, ⟨_, rfl⟩, ?_⟩
    rw [htext, List.cons_append, scanLine_cons_of_not_isBlank (by rw [hblank]; decide), hscan]
    rfl

theorem toNat_of_isIdentChar {c : Char} (h : isIdentChar c) : 48 ≤ c.toNat ∧ c.toNat ≤ 122 := by
  simp only [isIdentChar, isLetter, isDigit, Bool.or_eq_true, Bool.and_eq_true,
    decide_eq_true_eq] at h
  rcases h with ((⟨h, h'⟩ | ⟨h, h'⟩) | rfl) | ⟨h, h'⟩
  . exact ⟨Nat.le_trans (by decide) (show 'a'.toNat ≤ c.toNat from h), h'⟩
  . exact ⟨Nat.le_trans (by decide) (show 'A'.toNat ≤ c.toNat from h), Nat.le_trans h' (by decide)⟩
  . decide
  . exact ⟨h, Nat.le_trans h' (by decide)⟩

theorem isBlank_of_isIdentChar {c : Char} (h : isIdentChar c) : isBlank c = false := by
  rcases toNat_of_isIdentChar h with ⟨h, h'⟩
  simp only [isBlank, Bool.or_eq_false_iff, Bool.and_eq_false_iff, decide_eq_false_iff_not,
    beq_eq_false_iff_ne]
  omega

theorem isIdentChar_of_isLetter {c : Char} (h : isLetter c) : isIdentChar c := by
  simp [isIdentChar, h]

theorem isIdentChar_of_isDigit {c : Char} (h : isDigit c) : isIdentChar c := by
  simp [isIdentChar, h]

theorem isLetter_of_isDigit {c : Char} (h : isDigit c) : isLetter c = false := by
  simp only [isDigit, Bool.and_eq_true, decide_eq_true_eq] at h
  have hc : c.toNat ≤ 57 := h.2
  simp only [isLetter, Bool.or_eq_false_iff, Bool.and_eq_false_iff, decide_eq_false_iff_not]
  refine ⟨⟨.inl ?_, .inl ?_⟩, ?_⟩
  . intro h'
    have h' : 97 ≤ c.toNat := h'
    omega
  . intro h'
    have h' : 65 ≤ c.toNat := h'
    omega
  . rintro rfl
    exact absurd hc (by decide)

theorem ne_quote_of_isIdentChar {c : Char} (h : isIdentChar c) : c ≠ '\x22' := by
  rintro rfl
  simp [isIdentChar, isLetter, isDigit] at h

theorem ne_newline_of_isIdentChar {c : Char} (h : isIdentChar c) : c ≠ '\n' := by
  rintro rfl
  simp [isIdentChar, isLetter, isDigit] at h

theorem isDigit_of_not_isIdentChar {c : Char} (h : isIdentChar c = false) : isDigit c = false := by
  rw [isIdentChar, Bool.or_eq_false_iff] at h
  exact h.2

theorem takeWhile_append_of_head {p : Char → Bool} {cs rest : List Char} (hcs : ∀ c ∈ cs, p c)
    (hrest : ∀ c ∈ rest.head?, p c = false) :
    (cs ++ rest).takeWhile p = cs ∧ (cs ++ rest).dropWhile p = rest := by
  rw [List.takeWhile_append_of_pos hcs, List.dropWhile_append_of_pos hcs]
  cases rest with
  | nil => simp
  | cons c rest => simp [hrest c rfl]

theorem newline_not_mem {c : Char} {cs : List Char} (hc : isIdentChar c)
    (hcs : ∀ d ∈ cs, isIdentChar d) : '\n' ∉ c :: cs := by
  intro hmem
  rcases List.mem_cons.1 hmem with hmem | hmem
  . exact ne_newline_of_isIdentChar hc hmem.symm
  . exact ne_newline_of_isIdentChar (hcs _ hmem) rfl

theorem scanLexeme_ident {name : String} {c : Char} {cs rest : List Char}
    (hname : name.toList = c :: cs) (hletter : isLetter c) (hcs : ∀ d ∈ cs, isIdentChar d)
    (hrest : EndsWord rest) :
    ∃ width h, scanLexeme c (cs ++ rest) = some (.ident name, width, ⟨rest, h⟩) := by
  have hc := isIdentChar_of_isLetter hletter
  have hword := takeWhile_append_of_head hcs hrest
  refine ⟨cs.length + 1, by simp, ?_⟩
  rw [scanLexeme, if_neg (ne_quote_of_isIdentChar hc), if_pos hletter]
  simp only [Option.some.injEq, Prod.mk.injEq, Lexeme.ident.injEq, Subtype.mk.injEq]
  exact ⟨by rw [hword.1, ← hname, String.ofList_toList], by rw [hword.1], hword.2⟩

theorem scanLexeme_number {digits : String} {c : Char} {cs rest : List Char}
    (hdigits : digits.toList = c :: cs) (hdigit : isDigit c) (hcs : ∀ d ∈ cs, isDigit d)
    (hrest : ∀ d ∈ rest.head?, isDigit d = false) :
    ∃ width h, scanLexeme c (cs ++ rest) = some (.number digits, width, ⟨rest, h⟩) := by
  have hc := isIdentChar_of_isDigit hdigit
  have hletter : ¬isLetter c := by simp [isLetter_of_isDigit hdigit]
  have hword := takeWhile_append_of_head hcs hrest
  refine ⟨cs.length + 1, by simp, ?_⟩
  rw [scanLexeme, if_neg (ne_quote_of_isIdentChar hc), if_neg hletter, if_pos hdigit]
  simp only [Option.some.injEq, Prod.mk.injEq, Lexeme.number.injEq, Subtype.mk.injEq]
  exact ⟨by rw [hword.1, ← hdigits, String.ofList_toList], by rw [hword.1], hword.2⟩

theorem reads_ident {name : String} (h : IsIdent name) :
    Reads EndsWord name (Single (.ident name)) := by
  rcases h with ⟨c, cs, hname, hletter, hcs⟩
  have hc := isIdentChar_of_isLetter hletter
  refine reads_of_scanLexeme hname (hname ▸ newline_not_mem hc hcs) (isBlank_of_isIdentChar hc) ?_
  intro rest hrest
  exact scanLexeme_ident hname hletter hcs hrest

theorem reads_number {digits : String} (h : IsNumber digits) :
    Reads EndsWord digits (Single (.number digits)) := by
  rcases h with ⟨c, cs, hdigits, hdigit, hcs⟩
  have hc := isIdentChar_of_isDigit hdigit
  have hcs' (d : Char) (hd : d ∈ cs) := isIdentChar_of_isDigit (hcs d hd)
  refine reads_of_scanLexeme hdigits (hdigits ▸ newline_not_mem hc hcs')
    (isBlank_of_isIdentChar hc) ?_
  intro rest hrest
  exact scanLexeme_number hdigits hdigit hcs fun d hd => isDigit_of_not_isIdentChar (hrest d hd)

def IsOp (c : Char) : Prop :=
  isBlank c = false ∧ c ≠ '\x22' ∧ isIdentChar c = false

instance (c : Char) : Decidable (IsOp c) :=
  inferInstanceAs (Decidable (_ ∧ _))

theorem scanLexeme_op {c : Char} (h : IsOp c) (rest : List Char) :
    ∃ width hle, scanLexeme c rest = some (.op c, width, ⟨rest, hle⟩) := by
  rcases h with ⟨-, hquote, hident⟩
  simp only [isIdentChar, Bool.or_eq_false_iff] at hident
  refine ⟨1, Nat.le_refl _, ?_⟩
  simp [scanLexeme, hquote, hident]

theorem reads_op (c : Char) (h : IsOp c) :
    Reads Anything (String.singleton c) (Single (.op c)) := by
  refine reads_of_scanLexeme (String.toList_singleton c) ?_ h.1 fun rest _ => scanLexeme_op h rest
  rw [String.toList_singleton, List.mem_singleton]
  rintro rfl
  cases h.1

def SpellsChar (spelling : List Char) (c : Char) : Prop :=
  spelling = [c] ∧ c ≠ '\x22' ∧ c ≠ '\\' ∨ ∃ letter, spelling = ['\\', letter] ∧ unescape letter = c

theorem scanString_go_plain {all acc rest : List Char} {width : Nat} {c : Char}
    (h : (c :: rest).length ≤ all.length) (hquote : c ≠ '\x22') (hback : c ≠ '\\') :
    scanString.go all acc width (c :: rest) h =
      scanString.go all (c :: acc) (width + 1) rest (Nat.le_of_succ_le h) := by
  rw [scanString.go.eq_def]
  split
  . next hnil _ => cases hnil
  . next hcons _ => exact absurd (List.cons.inj hcons).1 hback
  . next hcons _ =>
    rcases List.cons.inj hcons with ⟨rfl, rfl⟩
    rw [if_neg hquote, if_neg hback]

theorem scanString_go_escaped {all acc rest : List Char} {width : Nat} {letter : Char}
    (h : ('\\' :: letter :: rest).length ≤ all.length) :
    scanString.go all acc width ('\\' :: letter :: rest) h =
      scanString.go all (unescape letter :: acc) (width + 2) rest
        (Nat.le_of_succ_le (Nat.le_of_succ_le h)) := rfl

inductive Quotes : List Char → List Char → Prop
  | nil : Quotes [] []
  | plain {c : Char} {body value : List Char} :
      c ≠ '\x22' → c ≠ '\\' → Quotes body value → Quotes (c :: body) (c :: value)
  | escaped {c : Char} {body value : List Char} :
      Quotes body value → Quotes ('\\' :: c :: body) (unescape c :: value)

theorem quotes_of_spellsChar {spell : Char → List Char} {value : List Char}
    (hspell : ∀ c ∈ value, SpellsChar (spell c) c) : Quotes (value.flatMap spell) value := by
  induction value with
  | nil => exact .nil
  | cons c value ih =>
    rw [List.forall_mem_cons] at hspell
    rw [List.flatMap_cons]
    rcases hspell.1 with ⟨hc, hquote, hback⟩ | ⟨letter, hc, rfl⟩
    . rw [hc]
      exact .plain hquote hback (ih hspell.2)
    . rw [hc]
      exact .escaped (ih hspell.2)

theorem scanString_go_of_quotes {all body value rest : List Char} (acc : List Char) (width : Nat)
    (hquotes : Quotes body value) (hrest : rest.length ≤ all.length)
    (h : (body ++ '\x22' :: rest).length ≤ all.length) :
    scanString.go all acc width (body ++ '\x22' :: rest) h =
      some (acc.reverse ++ value, width + body.length + 1, ⟨rest, hrest⟩) := by
  induction hquotes generalizing acc width with
  | nil =>
    show some (acc.reverse, width + 1, _) = _
    rw [List.append_nil, List.length_nil, Nat.add_zero]
  | @plain c body value hquote hback _ ih =>
    have hgo := ih (c :: acc) (width + 1) (Nat.le_of_succ_le h)
    rw [List.reverse_cons, List.append_assoc, List.singleton_append] at hgo
    rw [List.length_cons, Nat.add_comm body.length, ← Nat.add_assoc, ← hgo]
    exact scanString_go_plain h hquote hback
  | @escaped letter body value _ ih =>
    have hgo := ih (unescape letter :: acc) (width + 2) (Nat.le_of_succ_le (Nat.le_of_succ_le h))
    rw [List.reverse_cons, List.append_assoc, List.singleton_append] at hgo
    rw [List.length_cons, List.length_cons, Nat.add_comm (body.length + 1), Nat.add_comm body.length,
      ← Nat.add_assoc, ← Nat.add_assoc, ← hgo]
    exact scanString_go_escaped h

theorem scanLexeme_string {body value : List Char} (hquotes : Quotes body value)
    (rest : List Char) :
    ∃ h, scanLexeme '\x22' (body ++ ['\x22'] ++ rest) =
      some (.string (String.ofList value), body.length + 2, ⟨rest, h⟩) := by
  rw [List.append_assoc, List.singleton_append]
  have hle : rest.length ≤ (body ++ '\x22' :: rest).length := by
    rw [List.length_append, List.length_cons]
    omega
  have hscan := scanString_go_of_quotes [] 0 hquotes hle (Nat.le_refl _)
  rw [Nat.zero_add] at hscan
  refine ⟨hle, ?_⟩
  simp only [scanLexeme, ↓reduceIte, scanString, hscan]
  rfl

theorem reads_string {spell : Char → List Char} {value : List Char} {text : String}
    (hspell : ∀ c ∈ value, SpellsChar (spell c) c) (hline : '\n' ∉ text.toList)
    (htext : text.toList = '\x22' :: (value.flatMap spell ++ ['\x22'])) :
    Reads Anything text (Single (.string (String.ofList value))) :=
  reads_of_scanLexeme htext hline (by decide) fun rest _ =>
    ⟨_, scanLexeme_string (quotes_of_spellsChar hspell) rest⟩

/--
Literals with these escape letters are on one line, and what they are read as is what they were
written for: each letter is read as its character, and the characters that a literal cannot have as
they are have letters.
-/
structure Escapes (letter? : Char → Option Char) : Prop where
  unescape_letter : ∀ c letter, letter? c = some letter → unescape letter = c
  letter_ne_newline : ∀ c, letter? c ≠ some '\n'
  quote : letter? '\x22' ≠ none
  backslash : letter? '\\' ≠ none
  newline : letter? '\n' ≠ none

theorem escapes_sourceLetter? : Escapes Literal.sourceLetter? where
  unescape_letter := by
    intro c letter h
    unfold Literal.sourceLetter? at h
    split at h <;> cases h <;> rfl
  letter_ne_newline := by
    intro c h
    unfold Literal.sourceLetter? at h
    split at h <;> cases h
  quote := nofun
  backslash := nofun
  newline := nofun

theorem escapes_listingLetter? : Escapes Literal.listingLetter? where
  unescape_letter := by
    intro c letter h
    unfold Literal.listingLetter? at h
    split at h <;> cases h <;> rfl
  letter_ne_newline := by
    intro c h
    unfold Literal.listingLetter? at h
    split at h <;> cases h
  quote := nofun
  backslash := nofun
  newline := nofun

namespace Escapes

variable {letter? : Char → Option Char}

theorem spellsChar (h : Escapes letter?) (c : Char) :
    SpellsChar (Literal.escapedBy letter? c) c := by
  unfold Literal.escapedBy
  split
  . next letter hletter => exact .inr ⟨letter, rfl, h.unescape_letter c letter hletter⟩
  . next hnone =>
    refine .inl ⟨rfl, ?_, ?_⟩
    . rintro rfl
      exact h.quote hnone
    . rintro rfl
      exact h.backslash hnone

theorem newline_not_mem_escapedBy (h : Escapes letter?) (c : Char) :
    '\n' ∉ Literal.escapedBy letter? c := by
  unfold Literal.escapedBy
  split
  . next letter hletter =>
    have hne : '\n' ≠ letter := by
      rintro rfl
      exact h.letter_ne_newline c hletter
    simp [hne]
  . next hnone =>
    rw [List.mem_singleton]
    rintro rfl
    exact h.newline hnone

theorem newline_not_mem (h : Escapes letter?) (value : List Char) :
    '\n' ∉ Literal.charsBy letter? value := by
  simp [Literal.charsBy, h.newline_not_mem_escapedBy]

theorem quotes (h : Escapes letter?) (value : List Char) :
    Quotes (value.flatMap (Literal.escapedBy letter?)) value :=
  quotes_of_spellsChar fun c _ => h.spellsChar c

end Escapes

theorem reads_source (value : String) :
    Reads Anything (Literal.source value) (Single (.string value)) := by
  have hspell (c : Char) (_ : c ∈ value.toList) := escapes_sourceLetter?.spellsChar c
  have hline : '\n' ∉ (Literal.source value).toList := by
    rw [Literal.source, String.toList_ofList]
    exact escapes_sourceLetter?.newline_not_mem value.toList
  have h := reads_string hspell hline String.toList_ofList
  rwa [String.ofList_toList] at h

theorem reads_quoted {value : String} (hquote : '\x22' ∉ value.toList) (hback : '\\' ∉ value.toList)
    (hline : '\n' ∉ value.toList) :
    Reads Anything ("\x22" ++ value ++ "\x22") (Single (.string value)) := by
  have hspell (c : Char) (hc : c ∈ value.toList) : SpellsChar [c] c := by
    refine .inl ⟨rfl, ?_, ?_⟩
    . rintro rfl
      exact hquote hc
    . rintro rfl
      exact hback hc
  have htext : ("\x22" ++ value ++ "\x22").toList =
      '\x22' :: (value.toList.flatMap (fun c => [c]) ++ ['\x22']) := by
    simp
  have h := reads_string hspell (by simp [hline]) htext
  rwa [String.ofList_toList] at h

end Lexer

end IdlCompiler
