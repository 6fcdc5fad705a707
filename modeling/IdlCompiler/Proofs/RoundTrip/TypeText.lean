import Mathlib
import IdlCompiler.Proofs.Grammar.Members
import IdlCompiler.Proofs.IdlType.WellFormed
import IdlCompiler.Proofs.Layout.Alike
import IdlCompiler.Proofs.RoundTrip.Types
import IdlCompiler.Proofs.Token.Tiles

/-!
This module contains that types can be told from their texts. What is read as a type is well formed,
and the text of a well-formed type is read as that type wherever it stands in front of a token that
the type does not go on with.
-/

namespace IdlCompiler

open Lexer Text

namespace Lexer

def TokensOf (text : String) (ts : List Token) : Prop :=
  lexemes text.toList = some (ts.map (·.lexeme))

theorem tokensOf_of_ofSource {text file : String} {stream : TokenStream}
    (h : TokenStream.ofSource file (Glyph.ofString text) = .ok stream) :
    TokensOf text stream.tokens := by
  have htiled := TokenStream.tiled_of_ofSource h
  rw [map_char_ofString] at htiled
  exact htiled.lexemes_eq

theorem TokensOf.sameLexemes {text : String} {ts ts' : List Token} (h : TokensOf text ts)
    (h' : TokensOf text ts') : SameLexemes ts ts' := by
  unfold TokensOf at h h'
  rw [h, Option.some.injEq] at h'
  exact h'

theorem Reads.exists_tiled {text : String} {P : List Token → Prop} (h : Reads EndsWord text P)
    (file : String) : ∃ ts, P ts ∧ Tiled file [] text.toList ts := by
  have hend : EndsWord [] := by simp [EndsWord]
  obtain ⟨ts, col, hP, hscan⟩ := h.scan [] hend file 1 1 []
  rw [List.append_nil, List.append_nil, scanLine_nil] at hscan
  have hstart : Pos.after file [] = ⟨file, 1, 1⟩ := rfl
  obtain ⟨ts', hts, htiled⟩ := exists_tiled_of_scanLine hscan h.on_line hstart
  rw [List.append_nil, List.reverse_inj] at hts
  rw [← hts] at htiled
  exact ⟨ts, hP, htiled⟩

theorem Reads.exists_ofSource {text : String} {P : List Token → Prop} (h : Reads EndsWord text P)
    (hne : text ≠ "") (hsize : lineSize (Glyph.ofString text) < lineLimit) (file : String) :
    ∃ stream, TokenStream.ofSource file (Glyph.ofString text) = .ok stream := by
  have hlines : ∀ l ∈ splitLines (Glyph.ofString text), lineSize l < lineLimit := by
    rw [splitLines_ofString h.on_line hne, List.forall_mem_singleton]
    exact hsize
  obtain ⟨ts, -, htiled⟩ := h.exists_tiled file
  rw [← map_char_ofString] at htiled
  obtain ⟨stream, hsource, -⟩ := TokenStream.exists_ofSource_of_tiled htiled hlines file
  exact ⟨stream, hsource⟩

end Lexer

theorem Tiled.identsSpelled {file : String} {before cs : List Char} {ts : List Token}
    (h : Tiled file before cs ts) : IdentsSpelled ts := by
  induction h with
  | nil before => simp [IdentsSpelled]
  | blank _ _ ih => exact ih
  | @token before written rest l ts hwritten _ _ ih =>
    unfold IdentsSpelled at ih ⊢
    rw [List.forall_mem_cons]
    refine ⟨?_, ih⟩
    rintro name rfl
    exact hwritten.1

namespace IdlType

open Cursor Grammar

variable {t : IdlType} {ts rest : List Token} {eof : Pos}

inductive GoesOnWith : IdlType → Lexeme → Prop where
  | mark {t : IdlType} : (∀ elem, t ≠ .optional elem) → GoesOnWith t (.op '?')
  | args {name : String} :
      name ≠ "long" → name ≠ "long long" → GoesOnWith (.simple name) (.op '<')
  | long : GoesOnWith (.simple "long") (.ident "long")

def StopsBefore (t : IdlType) (rest : List Token) : Prop :=
  ∀ token ∈ rest.head?, ¬t.GoesOnWith token.lexeme

theorem StopsBefore.isAtOp_eq_false {c : Char} (h : t.StopsBefore rest)
    (hc : t.GoesOnWith (.op c)) : isAtOp c rest = false := by
  cases rest with
  | nil => rfl
  | cons token rest =>
    have hstops := h token rfl
    simp only [isAtOp, decide_eq_false_iff_not]
    intro hop
    rw [hop] at hstops
    exact hstops hc

theorem StopsBefore.takeWord?_long (h : (IdlType.simple "long").StopsBefore rest) :
    takeWord? "long" rest = none := by
  rw [Option.eq_none_iff_forall_ne_some]
  rintro ⟨rest', hrest'⟩ htake
  obtain ⟨p, rfl⟩ := takeWord?_eq_some_iff.1 htake
  exact h _ rfl .long

theorem StopsBefore.endsBefore (h : t.StopsBefore rest) (hlong : t ≠ .simple "long long") :
    t.EndsBefore rest := by
  cases t with
  | simple name =>
    refine ⟨h.isAtOp_eq_false (.mark (by simp)), ?_⟩
    show if name = "long" then takeWord? "long" rest = none else isAtOp '<' rest = false
    split
    . next hname =>
      subst hname
      exact h.takeWord?_long
    . next hname =>
      apply h.isAtOp_eq_false
      apply GoesOnWith.args hname
      rintro rfl
      exact hlong rfl
  | optional elem => trivial
  | _ => exact ⟨h.isAtOp_eq_false (.mark (by simp)), trivial⟩

theorem not_isIdent_longLong : ¬IsIdent "long long" := by
  rintro ⟨c, cs, hname, -, hcs⟩
  have hchars : "long long".toList = 'l' :: ['o', 'n', 'g', ' ', 'l', 'o', 'n', 'g'] := rfl
  rw [hchars, List.cons.injEq] at hname
  have hblank := hcs ' ' (by simp [← hname.2])
  exact absurd hblank (by decide)

theorem read_of_typeDerives (hderives : TypeDerives ts t) (hspelled : IdentsSpelled ts)
    (hstops : t.StopsBefore rest) : ∃ h, read eof (ts ++ rest) = .ok (t, ⟨rest, h⟩) := by
  by_cases hlong : t = .simple "long long"
  . subst hlong
    cases hderives with
    | simple hfree =>
      have hname := hspelled _ List.mem_cons_self _ rfl
      exact absurd hname not_isIdent_longLong
    | @longLong p q =>
      have hplain : ∃ h, readPlain eof ([⟨.ident "long", p⟩, ⟨.ident "long", q⟩] ++ rest) =
          .ok (.simple "long long", ⟨rest, h⟩) := by
        rw [readPlain]
        exact ⟨_, rfl⟩
      obtain ⟨h, hplain⟩ := hplain
      exact ⟨h, read_of_readPlain hplain (hstops.isAtOp_eq_false (.mark (by simp)))⟩
  . exact (readsFully ts).1 t rest hderives (hstops.endsBefore hlong)

theorem read_of_sameLexemes {ts' : List Token} (hsame : SameLexemes ts ts')
    (h : ∃ h, read eof (ts ++ rest) = .ok (t, ⟨rest, h⟩)) :
    ∃ h, read eof (ts' ++ rest) = .ok (t, ⟨rest, h⟩) := by
  obtain ⟨hlt, hread⟩ := h
  have hall : SameLexemes (ts ++ rest) (ts' ++ rest) := by
    unfold SameLexemes at hsame ⊢
    rw [List.map_append, List.map_append, hsame]
  have halike : (Comparison.upToPos eof eof).Results _ (read eof (ts ++ rest))
      (read eof (ts' ++ rest)) := read_alike (Comparison.tokens_upToPos_iff.2 hall)
  rw [hread] at halike
  cases hread' : read eof (ts' ++ rest) with
  | error d =>
    rw [hread'] at halike
    cases halike
  | ok result =>
    obtain ⟨t', rest', hlt'⟩ := result
    rw [hread'] at halike
    cases halike with
    | ok hresult =>
      obtain ⟨rfl, hrest⟩ := hresult
      -- Both are what is left of the same tokens, and they are as many.
      obtain ⟨pre, hpre, -, -⟩ := (readsSoundly (ts' ++ rest)).1 _ _ _ hread'
      have hlength : rest.length = rest'.length := by
        have := congrArg List.length (Comparison.tokens_upToPos_iff.1 hrest)
        simpa using this
      have hleft := (List.append_inj' hpre hlength).2
      subst hleft
      exact ⟨hlt', rfl⟩

theorem WellFormed.exists_tiled (h : t.WellFormed) (file : String) :
    ∃ ts, TypeDerives ts t ∧ Tiled file [] t.text.toList ts := by
  obtain ⟨ts, hderives, hspelled⟩ := exists_typeDerives t h
  exact (hderives.reads hspelled).exists_tiled file

theorem WellFormed.exists_ofSource (h : t.WellFormed)
    (hsize : lineSize (Glyph.ofString t.text) < lineLimit) (file : String) :
    ∃ stream, TokenStream.ofSource file (Glyph.ofString t.text) = .ok stream := by
  obtain ⟨ts, hderives, hspelled⟩ := exists_typeDerives t h
  apply (hderives.reads hspelled).exists_ofSource _ hsize
  intro hempty
  obtain ⟨ts', hderives', htiled⟩ := h.exists_tiled file
  rw [hempty] at htiled
  rw [htiled.eq_nil_of_blanks (by simp)] at hderives'
  obtain ⟨word, p, tail, hnil⟩ := hderives'.exists_cons
  cases hnil

theorem WellFormed.read_tokensOf (h : t.WellFormed) (hts : TokensOf t.text ts)
    (hstops : t.StopsBefore rest) : ∃ h, read eof (ts ++ rest) = .ok (t, ⟨rest, h⟩) := by
  obtain ⟨ts', hderives, htiled⟩ := h.exists_tiled ""
  have hsame : SameLexemes ts' ts := TokensOf.sameLexemes htiled.lexemes_eq hts
  exact read_of_sameLexemes hsame (read_of_typeDerives hderives htiled.identsSpelled hstops)

theorem stopsBefore_nil : t.StopsBefore [] := by
  simp [StopsBefore]

theorem WellFormed.eq_of_text_eq {t' : IdlType} (h : t.WellFormed) (h' : t'.WellFormed)
    (htext : t.text = t'.text) : t = t' := by
  obtain ⟨ts, -, htiled⟩ := h.exists_tiled ""
  have hts : TokensOf t.text ts := htiled.lexemes_eq
  have hts' : TokensOf t'.text ts := htext ▸ hts
  have hread : ∃ h, read default (ts ++ []) = .ok (t, ⟨[], h⟩) :=
    h.read_tokensOf hts stopsBefore_nil
  have hread' : ∃ h, read default (ts ++ []) = .ok (t', ⟨[], h⟩) :=
    h'.read_tokensOf hts' stopsBefore_nil
  obtain ⟨hlt, hread⟩ := hread
  obtain ⟨hlt', hread'⟩ := hread'
  rw [hread, Except.ok.injEq, Prod.mk.injEq] at hread'
  exact hread'.1

theorem wellFormed_of_read {result : Shorter ts} (h : read eof ts = .ok (t, result))
    (hspelled : IdentsSpelled ts) : t.WellFormed := by
  obtain ⟨rest, hlt⟩ := result
  obtain ⟨pre, rfl, hderives, -⟩ := (readsSoundly ts).1 t rest hlt h
  exact hderives.wellFormed (hspelled.mono fun _ ht => List.mem_append_left rest ht)

/--
What is read as a type is well formed. A well-formed type is read from the tokens of its text, and none
of the tokens behind them is taken, if the type does not go on with the first one of those. So no two
well-formed types have the same text.
-/
theorem wellFormed_of_read_and_read_tokensOf (eof : Pos) :
    (∀ ts t rest, IdentsSpelled ts → read eof ts = .ok (t, rest) → t.WellFormed) ∧
      (∀ file src stream, TokenStream.ofSource file src = .ok stream →
        IdentsSpelled stream.tokens) ∧
      (∀ t : IdlType, t.WellFormed →
        (∃ ts, TokensOf t.text ts) ∧
          ∀ ts rest, TokensOf t.text ts → t.StopsBefore rest →
            ∃ h, read eof (ts ++ rest) = .ok (t, ⟨rest, h⟩)) ∧
      (∀ t : IdlType, t.WellFormed → lineSize (Glyph.ofString t.text) < lineLimit →
        ∀ file, ∃ stream, TokenStream.ofSource file (Glyph.ofString t.text) = .ok stream ∧
          TokensOf t.text stream.tokens) ∧
      ∀ t t' : IdlType, t.WellFormed → t'.WellFormed → t.text = t'.text → t = t' := by
  refine ⟨?_, ?_, ?_, ?_, ?_⟩
  . intro ts t rest hspelled hread
    exact wellFormed_of_read hread hspelled
  . intro file src stream hsource
    exact TokenStream.identsSpelled_of_ofSource hsource
  . intro t ht
    obtain ⟨ts, -, htiled⟩ := ht.exists_tiled ""
    refine ⟨⟨ts, htiled.lexemes_eq⟩, ?_⟩
    intro ts rest hts hstops
    exact ht.read_tokensOf hts hstops
  . intro t ht hsize file
    obtain ⟨stream, hsource⟩ := ht.exists_ofSource hsize file
    exact ⟨stream, hsource, tokensOf_of_ofSource hsource⟩
  . intro t t' ht ht' htext
    exact ht.eq_of_text_eq ht' htext

def nestedType : IdlType :=
  .optional (.record (.simple "long long")
    (.union [.generic "A" [.simple "long"], .optional (.simple "b")]))

theorem wellFormed_nestedType : nestedType.WellFormed := by
  have hlong : IsIdent "long" := isIdent_of_chars rfl rfl rfl
  have hA : IsIdent "A" := isIdent_of_chars rfl rfl rfl
  have hb : IsIdent "b" := isIdent_of_chars rfl rfl rfl
  simp [WellFormed, nestedType, parts, visited, visitedAll, WellMade, reserved, hlong, hA, hb]

theorem wellFormed_of_read_and_read_tokensOf_nestedType :
    nestedType.WellFormed ∧ nestedType.text = "record<long long, union<A<long>, b?>>?" ∧
      ∃ stream, TokenStream.ofSource "a.idl" (Glyph.ofString nestedType.text) = .ok stream ∧
        TokensOf nestedType.text stream.tokens ∧
        nestedType.StopsBefore [⟨.op '?', stream.endPos⟩] ∧
        ∃ h, read stream.endPos (stream.tokens ++ [⟨.op '?', stream.endPos⟩]) =
          .ok (nestedType, ⟨[⟨.op '?', stream.endPos⟩], h⟩) := by
  have htext : nestedType.text = "record<long long, union<A<long>, b?>>?" := by cbv
  have hsize : lineSize (Glyph.ofString nestedType.text) < lineLimit := by
    rw [htext]
    decide
  obtain ⟨-, -, -, hsources, -⟩ := wellFormed_of_read_and_read_tokensOf default
  obtain ⟨stream, hsource, hts⟩ := hsources nestedType wellFormed_nestedType hsize "a.idl"
  have hstops : nestedType.StopsBefore [⟨.op '?', stream.endPos⟩] := by
    rintro token htoken hgoes
    cases htoken
    cases hgoes with
    | mark hnot => exact hnot _ rfl
  obtain ⟨-, -, htypes, -⟩ := wellFormed_of_read_and_read_tokensOf stream.endPos
  obtain ⟨-, hread⟩ := htypes nestedType wellFormed_nestedType
  exact ⟨wellFormed_nestedType, htext, stream, hsource, hts, hstops, hread _ _ hts hstops⟩

end IdlType

end IdlCompiler
