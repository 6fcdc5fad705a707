import IdlCompiler.Proofs.Token.Lexemes

/-!
This module contains which characters of a source a lexeme takes. The lexer scans a lexeme from the
characters that it is written with, provided that it ends in front of the next ones, and from no
others.
-/

namespace IdlCompiler

open Lexer Text

namespace Lexeme

def WrittenAs : Lexeme → List Char → Prop
  | .ident name, cs => IsIdent name ∧ cs = name.toList
  | .number digits, cs => IsNumber digits ∧ cs = digits.toList
  | .string value, cs =>
    '\n' ∉ cs ∧ ∃ body, Quotes body value.toList ∧ cs = '\x22' :: (body ++ ['\x22'])
  | .op c, cs => IsOp c ∧ cs = [c]
  | .eof, _ => False

def EndsBefore (l : Lexeme) (rest : List Char) : Prop :=
  match l with
  | .ident _ => ∀ c ∈ rest.head?, isIdentChar c = false
  | .number _ => ∀ c ∈ rest.head?, isDigit c = false
  | _ => True

variable {l : Lexeme} {cs rest rest' : List Char}

theorem EndsBefore.congr (h : l.EndsBefore rest) (hhead : rest'.head? = rest.head?) :
    l.EndsBefore rest' := by
  unfold EndsBefore at h ⊢
  rw [hhead]
  exact h

theorem endsBefore_of_blank (h : ∀ c ∈ rest.head?, isBlank c) : l.EndsBefore rest := by
  have hident : ∀ c ∈ rest.head?, isIdentChar c = false := by
    intro c hc
    rw [Bool.eq_false_iff]
    intro hident
    have hblank := h c hc
    rw [isBlank_of_isIdentChar hident] at hblank
    cases hblank
  cases l with
  | ident name => exact hident
  | number digits => exact fun c hc => isDigit_of_not_isIdentChar (hident c hc)
  | _ => trivial

namespace WrittenAs

theorem exists_eq_cons (h : l.WrittenAs cs) :
    ∃ c tail, cs = c :: tail ∧ isBlank c = false ∧ ∀ d ∈ cs.getLast?, isBlank d = false := by
  cases l with
  | ident name =>
    rcases h with ⟨⟨c, tail, hname, hletter, htail⟩, rfl⟩
    have hc := isIdentChar_of_isLetter hletter
    refine ⟨c, tail, hname, isBlank_of_isIdentChar hc, ?_⟩
    rw [hname]
    intro d hd
    rcases List.mem_cons.1 (List.mem_of_getLast? hd) with rfl | hd
    . exact isBlank_of_isIdentChar hc
    . exact isBlank_of_isIdentChar (htail d hd)
  | number digits =>
    rcases h with ⟨⟨c, tail, hdigits, hdigit, htail⟩, rfl⟩
    have hc := isIdentChar_of_isDigit hdigit
    refine ⟨c, tail, hdigits, isBlank_of_isIdentChar hc, ?_⟩
    rw [hdigits]
    intro d hd
    rcases List.mem_cons.1 (List.mem_of_getLast? hd) with rfl | hd
    . exact isBlank_of_isIdentChar hc
    . exact isBlank_of_isIdentChar (isIdentChar_of_isDigit (htail d hd))
  | string value =>
    rcases h with ⟨-, body, -, rfl⟩
    refine ⟨'\x22', body ++ ['\x22'], rfl, by decide, ?_⟩
    intro d hd
    rw [← List.cons_append, List.getLast?_append, List.getLast?_singleton] at hd
    cases hd
    decide
  | op c =>
    rcases h with ⟨⟨hblank, -⟩, rfl⟩
    refine ⟨c, [], rfl, hblank, ?_⟩
    intro d hd
    cases hd
    exact hblank
  | eof => cases h

theorem newline_not_mem (h : l.WrittenAs cs) : '\n' ∉ cs := by
  cases l with
  | ident name =>
    rcases h with ⟨⟨c, tail, hname, hletter, htail⟩, rfl⟩
    rw [hname]
    exact Lexer.newline_not_mem (isIdentChar_of_isLetter hletter) htail
  | number digits =>
    rcases h with ⟨⟨c, tail, hdigits, hdigit, htail⟩, rfl⟩
    rw [hdigits]
    exact Lexer.newline_not_mem (isIdentChar_of_isDigit hdigit)
      fun d hd => isIdentChar_of_isDigit (htail d hd)
  | string value => exact h.1
  | op c =>
    rcases h with ⟨⟨hblank, -⟩, rfl⟩
    rw [List.mem_singleton]
    rintro rfl
    cases hblank
  | eof => cases h

theorem length_eq (h : l.WrittenAs cs) (hkind : l.kind ≠ "string") :
    cs.length = l.text.length := by
  cases l with
  | ident name =>
    rcases h with ⟨-, rfl⟩
    rfl
  | number digits =>
    rcases h with ⟨-, rfl⟩
    rfl
  | string value => exact absurd rfl hkind
  | op c =>
    rcases h with ⟨-, rfl⟩
    exact String.length_singleton.symm
  | eof => cases h

end WrittenAs

end Lexeme

namespace Lexer

variable {c : Char} {cs rest : List Char} {l : Lexeme} {width : Nat}

theorem exists_quotes_of_scanString_go {all cs acc value : List Char} {width width' : Nat}
    {rest : { rest : List Char // rest.length ≤ all.length }} (h : cs.length ≤ all.length)
    (hscan : scanString.go all acc width cs h = some (value, width', rest)) :
    ∃ body decoded, cs = body ++ '\x22' :: rest.val ∧ Quotes body decoded ∧
      value = acc.reverse ++ decoded ∧ width' = width + body.length + 1 := by
  fun_induction decode cs generalizing acc width value with
  | case1 => cases hscan
  | case2 letter cs ih =>
    rw [scanString_go_escaped h] at hscan
    rcases ih _ hscan with ⟨body, decoded, rfl, hquotes, rfl, rfl⟩
    refine ⟨'\\' :: letter :: body, unescape letter :: decoded, rfl, .escaped hquotes, ?_, ?_⟩
    . simp
    . simp only [List.length_cons]
      omega
  | case3 cs =>
    cases hscan
    exact ⟨[], [], rfl, .nil, by simp, rfl⟩
  | case4 cs hend =>
    cases cs with
    | nil => cases hscan
    | cons c cs => exact absurd rfl (hend c cs rfl)
  | case5 c cs _ hquote hback ih =>
    rw [scanString_go_plain h hquote hback] at hscan
    rcases ih _ hscan with ⟨body, decoded, rfl, hquotes, rfl, rfl⟩
    refine ⟨c :: body, c :: decoded, rfl, .plain hquote hback hquotes, ?_, ?_⟩
    . simp
    . simp only [List.length_cons]
      omega

theorem exists_writtenAs_of_scanLexeme {rest : { rest : List Char // rest.length ≤ cs.length }}
    (h : scanLexeme c cs = some (l, width, rest)) (hblank : isBlank c = false)
    (hline : '\n' ∉ c :: cs) :
    ∃ written, c :: cs = written ++ rest.val ∧ written.length = width ∧ l.WrittenAs written ∧
      l.EndsBefore rest.val := by
  have hhead (p : Char → Bool) : ∀ d ∈ (cs.dropWhile p).head?, p d = false := by
    intro d hd
    have := List.head?_dropWhile_not p cs
    rw [Option.mem_def.1 hd] at this
    simpa using this
  unfold scanLexeme at h
  split at h
  . next hquote =>
    subst hquote
    split at h
    . next value width' rest' hscan =>
      cases h
      rcases exists_quotes_of_scanString_go (Nat.le_refl _) hscan with
        ⟨body, decoded, hcs, hquotes, hvalue, hwidth⟩
      refine ⟨'\x22' :: (body ++ ['\x22']), ?_, ?_, ⟨?_, body, ?_, rfl⟩, trivial⟩
      . exact (congrArg ('\x22' :: ·) hcs).trans (by simp)
      . rw [hwidth]
        simp
      . rw [hcs] at hline
        simp at hline ⊢
        exact hline.1
      . rw [String.toList_ofList, hvalue]
        exact hquotes
    . cases h
  . next hquote =>
    split at h
    . next hletter =>
      cases h
      refine ⟨c :: cs.takeWhile isIdentChar, ?_, rfl, ⟨?_, ?_⟩, hhead isIdentChar⟩
      . rw [List.cons_append, List.takeWhile_append_dropWhile]
      . exact ⟨c, _, String.toList_ofList, hletter, List.all_eq_true.1 List.all_takeWhile⟩
      . exact String.toList_ofList.symm
    . next hletter =>
      split at h
      . next hdigit =>
        cases h
        refine ⟨c :: cs.takeWhile isDigit, ?_, rfl, ⟨?_, ?_⟩, hhead isDigit⟩
        . rw [List.cons_append, List.takeWhile_append_dropWhile]
        . exact ⟨c, _, String.toList_ofList, hdigit, List.all_eq_true.1 List.all_takeWhile⟩
        . exact String.toList_ofList.symm
      . next hdigit =>
        cases h
        refine ⟨[c], rfl, rfl, ⟨⟨hblank, hquote, ?_⟩, rfl⟩, trivial⟩
        simp [isIdentChar, hletter, hdigit]

theorem scanLexeme_of_writtenAs (h : l.WrittenAs (c :: cs)) (hend : l.EndsBefore rest) :
    ∃ width hrest, scanLexeme c (cs ++ rest) = some (l, width, ⟨rest, hrest⟩) := by
  cases l with
  | ident name =>
    rcases h with ⟨⟨d, tail, hname, hletter, htail⟩, hcs⟩
    cases hcs.trans hname
    exact scanLexeme_ident hname hletter htail hend
  | number digits =>
    rcases h with ⟨⟨d, tail, hdigits, hdigit, htail⟩, hcs⟩
    cases hcs.trans hdigits
    exact scanLexeme_number hdigits hdigit htail hend
  | string value =>
    rcases h with ⟨-, body, hquotes, hcs⟩
    cases hcs
    have hscan := scanLexeme_string hquotes rest
    rw [String.ofList_toList] at hscan
    exact ⟨_, hscan⟩
  | op d =>
    rcases h with ⟨hop, hcs⟩
    cases hcs
    exact scanLexeme_op hop rest
  | eof => cases h

end Lexer

end IdlCompiler
