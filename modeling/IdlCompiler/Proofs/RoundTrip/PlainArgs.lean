import IdlCompiler.Proofs.Grammar.ExtAttrs
import IdlCompiler.Proofs.RoundTrip.Blocks
import IdlCompiler.Proofs.RoundTrip.Lines
import IdlCompiler.Proofs.Token.Lexemes
import Mathlib

/-!
This module contains which blocks of extended attributes are read again as what was written. Since
their strings are written without escapes, these are exactly the blocks in which no string needs one.

A string that needs an escape is read as another string, or not at all. So the strings that are read
tell where the first such string stands.
-/

namespace IdlCompiler

open Lexer Text

def Lexeme.strings : Lexeme → List String
  | .string value => [value]
  | _ => []

def Token.strings (ts : List Token) : List String :=
  (ts.map (·.lexeme)).flatMap Lexeme.strings

def ExtAttr.strings (a : ExtAttr) : List String :=
  a.args.flatMap Lexeme.strings

theorem Token.strings_append (ts ts' : List Token) :
    strings (ts ++ ts') = strings ts ++ strings ts' := by
  unfold strings
  rw [List.map_append, List.flatMap_append]

theorem Lexeme.exists_string_of_not_plain {lexeme : Lexeme} (h : ¬lexeme.Plain) :
    ∃ value, lexeme = .string value := by
  cases lexeme with
  | string value => exact ⟨value, rfl⟩
  | _ => exact absurd trivial h

namespace Grammar

variable {ts : List Token}

theorem SepBy.strings_eq {α : Type} {Derives : List Token → α → Prop} {values : α → List String}
    {as : List α} (h : SepBy Derives ts as)
    (hvalues : ∀ ts a, Derives ts a → Token.strings ts = values a) :
    Token.strings ts = as.flatMap values := by
  induction h with
  | last h => rw [List.flatMap_singleton, hvalues _ _ h]
  | @more ts ts' a as p h _ ih =>
    have hcomma : Token.strings (⟨.op ',', p⟩ :: ts') = Token.strings ts' := rfl
    rw [Token.strings_append, hcomma, ih, hvalues _ _ h, List.flatMap_cons]

theorem LiteralDerives.strings_eq {lexeme : Lexeme} (h : LiteralDerives ts lexeme) :
    Token.strings ts = lexeme.strings := by
  rcases h with ⟨_⟩
  exact List.append_nil _

theorem AttrDerives.strings_eq {a : ExtAttr} (h : AttrDerives ts a) :
    Token.strings ts = a.strings := by
  cases h with
  | bare => rfl
  | @equals name ts lexeme p h =>
    have hequals : Token.strings (name.token :: ⟨.op '=', p⟩ :: ts) = Token.strings ts := rfl
    rw [hequals, h.strings_eq]
    exact (List.append_nil _).symm
  | @parens name ts args p q h =>
    have hopen : Token.strings (name.token :: ⟨.op '(', p⟩ :: ts) = Token.strings ts := rfl
    have hclose : Token.strings [⟨.op ')', q⟩] = [] := rfl
    rw [Token.strings_append, hopen, hclose, List.append_nil]
    exact h.strings_eq fun _ _ => LiteralDerives.strings_eq

theorem BlockDerives.strings_eq {attrs : List ExtAttr} (h : BlockDerives ts attrs) :
    Token.strings ts = attrs.flatMap (·.strings) := by
  cases h with
  | none => rfl
  | @some ts attrs p q h =>
    have hopen : Token.strings (⟨.op '[', p⟩ :: ts) = Token.strings ts := rfl
    have hclose : Token.strings [⟨.op ']', q⟩] = [] := rfl
    rw [Token.strings_append, hopen, hclose, List.append_nil,
      h.strings_eq fun _ _ => AttrDerives.strings_eq]

end Grammar

namespace Lexer

theorem replicate_append_cons (k : Nat) (c : Char) (cs : List Char) :
    List.replicate k c ++ c :: cs = c :: (List.replicate k c ++ cs) := by
  rw [← List.cons_append, ← List.replicate_succ, List.replicate_succ', List.append_assoc,
    List.singleton_append]

theorem plain_of_decode {q value suffix : List Char} {k : Nat}
    (hstarts : q <+: value ++ '\x22' :: suffix)
    (hdecode : decode q = some (List.replicate k '\\' ++ value)) :
    k = 0 ∧ ∀ c ∈ value, c ≠ '\x22' ∧ c ≠ '\\' ∧ c ∈ q := by
  -- Every backslash has to stand for itself, so the reading falls behind by one more backslash each
  -- time: `k` counts them.
  fun_induction decode q generalizing value k with
  | case1 => cases hdecode
  | case2 letter rest ih =>
    rcases Option.map_eq_some_iff.1 hdecode with ⟨out, hout, heq⟩
    cases value with
    | nil =>
      rw [List.nil_append, List.cons_prefix_cons] at hstarts
      exact absurd hstarts.1 (by decide)
    | cons c value =>
      rw [List.cons_append, List.cons_prefix_cons] at hstarts
      rcases hstarts with ⟨rfl, hstarts⟩
      rw [replicate_append_cons, List.cons.injEq] at heq
      rcases heq with ⟨hletter, rfl⟩
      have hletter : letter = '\\' := eq_backslash_of_unescape hletter
      subst hletter
      cases value with
      | nil =>
        rw [List.nil_append, List.cons_prefix_cons] at hstarts
        exact absurd hstarts.1 (by decide)
      | cons d value =>
        rw [List.cons_append, List.cons_prefix_cons] at hstarts
        rcases hstarts with ⟨rfl, hstarts⟩
        rw [replicate_append_cons, ← List.cons_append, ← List.replicate_succ] at hout
        exact absurd (ih hstarts hout).1 (Nat.succ_ne_zero k)
  | case3 rest =>
    rw [Option.some.injEq, eq_comm, List.append_eq_nil_iff, List.replicate_eq_nil_iff] at hdecode
    rcases hdecode with ⟨hk, rfl⟩
    exact ⟨hk, by simp⟩
  | case4 => cases hdecode
  | case5 c rest _ hquote hback ih =>
    rcases Option.map_eq_some_iff.1 hdecode with ⟨out, hout, heq⟩
    cases value with
    | nil =>
      rw [List.nil_append, List.cons_prefix_cons] at hstarts
      exact absurd hstarts.1 hquote
    | cons d value =>
      rw [List.cons_append, List.cons_prefix_cons] at hstarts
      rcases hstarts with ⟨rfl, hstarts⟩
      cases k with
      | succ k =>
        rw [List.replicate_succ, List.cons_append, List.cons.injEq] at heq
        exact absurd heq.1 hback
      | zero =>
        rw [List.replicate_zero, List.nil_append, List.cons.injEq] at heq
        rcases heq with ⟨-, rfl⟩
        have hvalue := (ih (k := 0) hstarts hout).2
        refine ⟨rfl, List.forall_mem_cons.2 ⟨⟨hquote, hback, List.mem_cons_self⟩, ?_⟩⟩
        intro d hd
        rcases hvalue d hd with ⟨hquote, hback, hmem⟩
        exact ⟨hquote, hback, List.mem_cons_of_mem _ hmem⟩

/--
A text in which the strings `values` are written between quotes, one of which needs an escape that
is missing.
-/
def Breaks (text : String) (values : List String) : Prop :=
  ∃ pre value post before after, text = pre ++ ("\x22" ++ value ++ "\x22") ++ post ∧
    values = before ++ value :: after ∧ ¬(Lexeme.string value).Plain ∧
    Reads Anything pre (Token.strings · = before)

theorem Breaks.append_right {a : String} {values : List String} (h : Breaks a values) (b : String)
    (values' : List String) : Breaks (a ++ b) (values ++ values') := by
  rcases h with ⟨pre, value, post, before, after, rfl, rfl, hvalue, hpre⟩
  refine ⟨pre, value, post ++ b, before, after ++ values', ?_, ?_, hvalue, hpre⟩
  . rw [String.append_assoc]
  . rw [List.append_assoc, List.cons_append]

theorem Breaks.append_left {a b : String} {values values' : List String} (hb : Breaks b values')
    (ha : Reads Anything a (Token.strings · = values)) : Breaks (a ++ b) (values ++ values') := by
  rcases hb with ⟨pre, value, post, before, after, rfl, rfl, hvalue, hpre⟩
  refine ⟨a ++ pre, value, post, values ++ before, after, ?_, ?_, hvalue, ?_⟩
  . simp only [String.append_assoc]
  . rw [List.append_assoc]
  . refine (ha.append hpre fun _ _ => trivial).imp ?_
    rintro _ ⟨ts, ts', rfl, rfl, rfl⟩
    rw [Token.strings_append]

theorem breaks_intercalate {α : Type} {text : α → String} {values : α → List String}
    {Good : α → Prop} {xs : List α}
    (hreads : ∀ x ∈ xs, Good x → Reads EndsWord (text x) (Token.strings · = values x))
    (hbreaks : ∀ x ∈ xs, ¬Good x → Breaks (text x) (values x)) (hbad : ¬∀ x ∈ xs, Good x) :
    Breaks (", ".intercalate (xs.map text)) (xs.flatMap values) := by
  induction xs with
  | nil => exact absurd (by simp) hbad
  | cons x xs ih =>
    rw [List.map_cons, List.flatMap_cons]
    by_cases hx : Good x
    . have hrest : ¬∀ x ∈ xs, Good x := fun h => hbad (List.forall_mem_cons.2 ⟨hx, h⟩)
      have hne : xs ≠ [] := by
        rintro rfl
        exact hrest (by simp)
      have hcomma : Reads Anything (text x ++ ", ") (Token.strings · = values x) := by
        refine ((hreads x List.mem_cons_self hx).append reads_comma
          fun rest _ => endsWord_of_cons rfl rfl rest).imp ?_
        rintro _ ⟨ts, _, rfl, hts, ⟨p, rfl⟩⟩
        rw [Token.strings_append, hts]
        exact List.append_nil _
      have hbreak := ih (fun y hy => hreads y (List.mem_cons_of_mem _ hy))
        (fun y hy => hbreaks y (List.mem_cons_of_mem _ hy)) hrest
      rw [String.intercalate_cons_of_ne_nil (by simpa using hne)]
      exact hbreak.append_left hcomma
    . have hbreak := hbreaks x List.mem_cons_self hx
      by_cases hxs : xs = []
      . subst hxs
        rw [List.map_nil, String.intercalate_singleton, List.flatMap_nil, List.append_nil]
        exact hbreak
      . rw [String.intercalate_cons_of_ne_nil (by simpa using hxs), String.append_assoc]
        exact hbreak.append_right _ _

theorem breaks_description {lexeme : Lexeme} (h : ¬lexeme.Plain) :
    Breaks lexeme.description lexeme.strings := by
  rcases Lexeme.exists_string_of_not_plain h with ⟨value, rfl⟩
  refine ⟨"", value, "", [], [], ?_, rfl, h, reads_empty.imp ?_⟩
  . rw [String.empty_append, String.append_empty]
    rfl
  . rintro _ rfl
    rfl

theorem reads_strings_of_op {text : String} {c : Char} (h : Reads EndsWord text (Token.strings · = []))
    (hc : IsOp c) : Reads Anything (text ++ String.singleton c) (Token.strings · = []) := by
  have hend (rest : List Char) (_ : Anything rest) :
      EndsWord ((String.singleton c).toList ++ rest) :=
    endsWord_of_cons (String.toList_singleton c) hc.2.2 rest
  refine (h.append (reads_op c hc) hend).imp ?_
  rintro _ ⟨ts, _, rfl, hts, ⟨p, rfl⟩⟩
  rw [Token.strings_append, hts]
  rfl

theorem breaks_attr {a : ExtAttr} (ha : a.Spelled) (h : ¬∀ arg ∈ a.args, arg.Plain) :
    Breaks a.text a.strings := by
  rcases a with ⟨⟨name, pos⟩, args⟩
  have hname : Reads EndsWord name (Token.strings · = []) := by
    refine (reads_ident ha.name).imp ?_
    rintro _ ⟨p, rfl⟩
    rfl
  unfold ExtAttr.text
  split
  . next hargs =>
    have hnil : args = [] := hargs
    exact absurd (by simp [hnil]) h
  . next arg hargs =>
    simp only at hargs
    subst hargs
    have harg : ¬arg.Plain := fun hplain => h (List.forall_mem_singleton.2 hplain)
    have hbreak := (breaks_description harg).append_left
      (reads_strings_of_op (c := '=') hname (by decide))
    rw [List.nil_append] at hbreak
    unfold ExtAttr.strings
    rw [List.flatMap_singleton]
    exact hbreak
  . have hargs : Breaks (", ".intercalate (args.map Lexeme.description))
        (args.flatMap Lexeme.strings) := by
      refine breaks_intercalate ?_ (fun arg _ => breaks_description) h
      intro arg harg hplain
      refine (reads_description (ha.args arg harg).1 (ha.args arg harg).2 hplain).imp ?_
      rintro _ ⟨p, rfl⟩
      exact List.append_nil _
    have hbreak := (hargs.append_left (reads_strings_of_op (c := '(') hname (by decide))).append_right
      ")" []
    rw [List.nil_append, List.append_nil] at hbreak
    exact hbreak

theorem breaks_blockText {attrs : List ExtAttr} (hattrs : ∀ a ∈ attrs, a.Spelled)
    (h : ¬ExtAttr.PlainArgs attrs) :
    Breaks (ExtAttr.blockText attrs) (attrs.flatMap (·.strings)) := by
  cases attrs with
  | nil => exact absurd (by simp [ExtAttr.PlainArgs]) h
  | cons a attrs =>
    have hinner : Breaks (", ".intercalate ((a :: attrs).map ExtAttr.text))
        ((a :: attrs).flatMap (·.strings)) := by
      refine breaks_intercalate ?_ (fun b hb => breaks_attr (hattrs b hb)) h
      intro b hb hplain
      refine (reads_attr (hattrs b hb) hplain).imp ?_
      rintro ts ⟨b', hderives, hsame⟩
      have hargs : b'.args = b.args := by
        show b'.withoutPos.args = b.withoutPos.args
        rw [hsame]
      rw [hderives.strings_eq]
      unfold ExtAttr.strings
      rw [hargs]
    have hopen : Reads Anything "[" (Token.strings · = []) := by
      refine (reads_op '[' (by decide)).imp ?_
      rintro _ ⟨p, rfl⟩
      rfl
    have hbreak := (hinner.append_left hopen).append_right "]" [] |>.append_right " " []
    rw [List.nil_append, List.append_nil, List.append_nil] at hbreak
    rw [blockText_cons]
    exact hbreak

theorem not_prefix_strings_of_breaks {text file : String} {values : List String}
    {stream : TokenStream} (h : Breaks text values)
    (hsource : TokenStream.ofSource file (Glyph.ofString text) = .ok stream) :
    ¬values <+: Token.strings stream.tokens := by
  rcases h with ⟨pre, value, post, before, after, rfl, rfl, hvalue, hpre⟩
  generalize hall : pre ++ ("\x22" ++ value ++ "\x22") ++ post = text at hsource
  have hchars : text.toList = pre.toList ++ '\x22' :: (value.toList ++ '\x22' :: post.toList) := by
    rw [← hall]
    simp
  have hne : Glyph.ofString text ≠ [] := by
    simp [Glyph.ofString, hchars]
  rcases splitLines_eq_cons hne with ⟨lines, hlines⟩
  have hls := TokenStream.allLexemes_of_ofSource hsource
  rw [hlines] at hls
  rcases exists_of_allLexemes_cons hls with ⟨-, ls₁, ls₂, htokens, hfirst, -⟩
  -- What stands behind the opening quote on the first line.
  have hline : lineText ((Glyph.ofString text).takeWhile (·.char ≠ '\n')) = pre.toList ++
      '\x22' :: trimRight ((value.toList ++ '\x22' :: post.toList).takeWhile (· ≠ '\n')) := by
    have htake : ((Glyph.ofString text).takeWhile (·.char ≠ '\n')).map (·.char) =
        text.toList.takeWhile (· ≠ '\n') := by
      rw [Glyph.ofString, List.takeWhile_map, List.map_map]
      exact List.map_id _
    have hpre' : ∀ c ∈ pre.toList, decide (c ≠ '\n') = true := by
      intro c hc
      apply decide_eq_true
      rintro rfl
      exact hpre.on_line hc
    rw [lineText, htake, hchars, List.takeWhile_append_of_pos hpre',
      List.takeWhile_cons_of_pos (by decide), trimRight_append_cons _ _ (by decide)]
  rw [hline] at hfirst
  generalize hq : trimRight _ = q at hfirst
  rcases hpre.exists_of_lexemes trivial hfirst with ⟨ts, ls', hts, rfl, hquote⟩
  rcases lexemes_quote hquote with ⟨value', ls'', hdecode, rfl⟩
  have hstrings : Token.strings stream.tokens =
      before ++ String.ofList value' :: (ls'' ++ ls₂).flatMap Lexeme.strings := by
    unfold Token.strings at hts ⊢
    rw [htokens, List.append_assoc, List.flatMap_append, hts]
    rfl
  rw [hstrings]
  intro hstarts
  rw [List.prefix_append_right_inj, List.cons_prefix_cons] at hstarts
  have hsame : value' = value.toList := by
    rw [hstarts.1, String.toList_ofList]
  subst hsame
  have hqstarts : q <+: (value.toList ++ '\x22' :: post.toList).takeWhile (· ≠ '\n') := by
    rw [← hq]
    exact trimRight_prefix _
  have hplain := plain_of_decode (k := 0) (hqstarts.trans (List.takeWhile_prefix _)) hdecode
  refine hvalue ⟨fun hmem => (hplain.2 _ hmem).1 rfl, fun hmem => (hplain.2 _ hmem).2.1 rfl, ?_⟩
  intro hmem
  have hnewline := hqstarts.subset (hplain.2 _ hmem).2.2
  simpa using List.all_eq_true.1 List.all_takeWhile _ hnewline

theorem lineSize_of_ofSource {text file : String} {stream : TokenStream}
    (hline : '\n' ∉ text.toList)
    (hsource : TokenStream.ofSource file (Glyph.ofString text) = .ok stream) :
    lineSize (Glyph.ofString text) < lineLimit := by
  by_cases hne : text = ""
  . subst hne
    decide
  . have hls := TokenStream.allLexemes_of_ofSource hsource
    rw [splitLines_ofString hline hne] at hls
    exact (exists_of_allLexemes_cons hls).1

theorem exists_ofSource_blockText {attrs : List ExtAttr} (hattrs : ∀ a ∈ attrs, a.Spelled)
    (hplain : ExtAttr.PlainArgs attrs)
    (hsize : lineSize (Glyph.ofString (ExtAttr.blockText attrs)) < lineLimit) (file : String) :
    ∃ stream, TokenStream.ofSource file (Glyph.ofString (ExtAttr.blockText attrs)) = .ok stream ∧
      ReadsBlock attrs stream.tokens := by
  cases attrs with
  | nil =>
    have hlines : ReadsLines [] (ReadsBlock []) :=
      readsLines_nil.imp fun ts hts => ⟨[], hts ▸ .none, rfl⟩
    exact hlines.exists_ofSource rfl (by simp [ExtAttr.blockText, Glyph.ofString, splitLines,
      splitLines.go]) file
  | cons a attrs =>
    have hline := (reads_blockText hattrs hplain).on_line
    have hbrackets := reads_brackets (by simp) hattrs hplain
    have htrim : trimRight (ExtAttr.blockText (a :: attrs)).toList =
        ("[" ++ ", ".intercalate ((a :: attrs).map ExtAttr.text) ++ "]").toList := by
      have hclose : "]".toList = [']'] := rfl
      have hblank : trimRight " ".toList = [] := by decide
      rw [blockText_cons, String.toList_append, String.toList_append, hclose, List.append_assoc,
        List.singleton_append, trimRight_append_cons _ _ (by decide), hblank]
    have hne : ExtAttr.blockText (a :: attrs) ≠ "" := by
      rw [blockText_cons]
      simp
    have hsplit := splitLines_ofString hline hne
    refine (hbrackets.weaken.readsLines_of_trimRight htrim hline).exists_ofSource hsplit ?_ file
    rw [hsplit]
    exact List.forall_mem_singleton.2 hsize

end Lexer

namespace ExtAttr

/--
A block of extended attributes that was read in a source, written and read again is the same except
for its positions exactly if no string in it needs an escape and what is written is not too long for
a line.
-/
theorem readBlock_blockText_iff {file : String} {src : List Glyph} {stream : TokenStream}
    {before ts : List Token} {attrs : List ExtAttr} {rest : NotLonger ts}
    (hsource : TokenStream.ofSource file src = .ok stream) (htokens : stream.tokens = before ++ ts)
    (hblock : readBlock stream.endPos ts = .ok (attrs, rest)) (file' : String) :
    (∃ stream' attrs' rest',
        TokenStream.ofSource file' (Glyph.ofString (blockText attrs)) = .ok stream' ∧
        readBlock stream'.endPos stream'.tokens = .ok (attrs', rest') ∧
        attrs'.map (·.withoutPos) = attrs.map (·.withoutPos)) ↔
      PlainArgs attrs ∧ lineSize (Glyph.ofString (blockText attrs)) < lineLimit := by
  rcases rest with ⟨rest, hrest⟩
  rcases blockDerives_of_readBlock hblock with ⟨pre, rfl, hderives⟩
  have hattrs : ∀ a ∈ attrs, a.Spelled := by
    refine hderives.spelled ?_
    intro t ht
    apply TokenStream.spelled_of_ofSource hsource
    rw [htokens]
    exact List.mem_append_right _ (List.mem_append_left _ ht)
  constructor
  . rintro ⟨stream', attrs', ⟨rest', hrest'⟩, hsource', hblock', hsame⟩
    -- If a string needed an escape, what is read in its place would be other strings.
    have hplain : PlainArgs attrs := by
      apply Classical.byContradiction
      intro hnot
      apply not_prefix_strings_of_breaks (breaks_blockText hattrs hnot) hsource'
      rcases blockDerives_of_readBlock hblock' with ⟨pre', htokens', hderives'⟩
      have hstrings : attrs'.flatMap (·.strings) = attrs.flatMap (·.strings) := by
        have hmap (attrs : List ExtAttr) :
            (attrs.map (·.withoutPos)).flatMap (·.strings) = attrs.flatMap (·.strings) := by
          rw [List.flatMap_map]
          rfl
        rw [← hmap attrs', hsame, hmap]
      rw [htokens', Token.strings_append, hderives'.strings_eq, hstrings]
      exact List.prefix_append _ _
    exact ⟨hplain, lineSize_of_ofSource (reads_blockText hattrs hplain).on_line hsource'⟩
  . rintro ⟨hplain, hsize⟩
    rcases exists_ofSource_blockText hattrs hplain hsize file' with
      ⟨stream', hsource', attrs', hderives', hsame⟩
    have hread := readBlock_of_blockDerives stream'.endPos [] hderives' rfl
    rw [List.append_nil] at hread
    rcases hread with ⟨_, hread⟩
    exact ⟨stream', attrs', _, hsource', hread, hsame⟩

def plainStream : TokenStream where
  tokens := [
    ⟨.op '[', ⟨"a.idl", 1, 1⟩⟩, ⟨.ident "a", ⟨"a.idl", 1, 2⟩⟩, ⟨.op '=', ⟨"a.idl", 1, 3⟩⟩,
    ⟨.string "x y", ⟨"a.idl", 1, 4⟩⟩, ⟨.op ',', ⟨"a.idl", 1, 9⟩⟩, ⟨.ident "b", ⟨"a.idl", 1, 11⟩⟩,
    ⟨.op '(', ⟨"a.idl", 1, 12⟩⟩, ⟨.number "1", ⟨"a.idl", 1, 13⟩⟩, ⟨.op ',', ⟨"a.idl", 1, 14⟩⟩,
    ⟨.string "", ⟨"a.idl", 1, 16⟩⟩, ⟨.op ')', ⟨"a.idl", 1, 18⟩⟩, ⟨.op ']', ⟨"a.idl", 1, 19⟩⟩]
  endPos := ⟨"a.idl", 1, 19⟩

def plainAttrs : List ExtAttr :=
  [⟨⟨"a", ⟨"a.idl", 1, 2⟩⟩, [.string "x y"]⟩,
    ⟨⟨"b", ⟨"a.idl", 1, 11⟩⟩, [.number "1", .string ""]⟩]

theorem readBlock_blockText_plainAttrs :
    TokenStream.ofSource "a.idl" (Glyph.ofString "[a=\"x y\", b(1, \"\")]") = .ok plainStream ∧
      readBlock plainStream.endPos plainStream.tokens = .ok (plainAttrs, ⟨[], Nat.zero_le _⟩) ∧
      ((∃ stream' attrs' rest',
          TokenStream.ofSource "b.idl" (Glyph.ofString (blockText plainAttrs)) = .ok stream' ∧
          readBlock stream'.endPos stream'.tokens = .ok (attrs', rest') ∧
          attrs'.map (·.withoutPos) = plainAttrs.map (·.withoutPos)) ↔
        PlainArgs plainAttrs ∧ lineSize (Glyph.ofString (blockText plainAttrs)) < lineLimit) := by
  have hsource : TokenStream.ofSource "a.idl" (Glyph.ofString "[a=\"x y\", b(1, \"\")]") =
      .ok plainStream := by
    cbv
  have hblock : readBlock plainStream.endPos plainStream.tokens =
      .ok (plainAttrs, ⟨[], Nat.zero_le _⟩) := by
    cbv
  exact ⟨hsource, hblock, readBlock_blockText_iff hsource (List.nil_append _).symm hblock "b.idl"⟩

def quoteStream : TokenStream where
  tokens := [
    ⟨.op '[', ⟨"a.idl", 1, 1⟩⟩, ⟨.ident "a", ⟨"a.idl", 1, 2⟩⟩, ⟨.op '=', ⟨"a.idl", 1, 3⟩⟩,
    ⟨.string "x\"y", ⟨"a.idl", 1, 4⟩⟩, ⟨.op ']', ⟨"a.idl", 1, 10⟩⟩]
  endPos := ⟨"a.idl", 1, 10⟩

def quoteAttrs : List ExtAttr :=
  [⟨⟨"a", ⟨"a.idl", 1, 2⟩⟩, [.string "x\"y"]⟩]

theorem unterminated_blockText_quoteAttrs :
    TokenStream.ofSource "a.idl" (Glyph.ofString "[a=\"x\\\"y\"]") = .ok quoteStream ∧
      readBlock quoteStream.endPos quoteStream.tokens = .ok (quoteAttrs, ⟨[], Nat.zero_le _⟩) ∧
      TokenStream.ofSource "b.idl" (Glyph.ofString (blockText quoteAttrs)) =
        .error (.diagnostic { pos := ⟨"b.idl", 1, 8⟩, cause := .unterminatedString }) := by
  refine ⟨?_, ?_, ?_⟩
  . cbv
  . cbv
  . cbv

end ExtAttr

end IdlCompiler
