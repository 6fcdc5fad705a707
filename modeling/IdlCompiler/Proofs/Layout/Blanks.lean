import Mathlib
import IdlCompiler.Proofs.Layout.Alike
import IdlCompiler.Proofs.Token.Tiles

/-!
This module contains that the layout of a source has no meaning. Blank characters can be put in
wherever no token is torn apart: the source has the same lexemes then, and so the same declarations
and warnings or the same error, up to positions.
-/

namespace IdlCompiler

open Lexer Text

/--
The second source is the first one with blank characters put in, at places that lie inside of none of
the tokens. The first source is read from behind `before` on.
-/
inductive Widened (ts : List Token) : List Char → List Glyph → List Glyph → Prop
  | done (before : List Char) (src : List Glyph) : Widened ts before src src
  | insert {before : List Char} {kept rest rest' : List Glyph} {g : Glyph} :
      isBlank g.char → Gap ts (before ++ kept.map (·.char)) (rest.map (·.char)) →
      Widened ts (before ++ kept.map (·.char)) rest rest' →
      Widened ts before (kept ++ rest) (kept ++ g :: rest')

variable {file : String} {src src' : List Glyph} {stream : TokenStream}

theorem Widened.exists_tiled {all ts : List Token} {before : List Char}
    (h : Widened all before src src') (htiled : Tiled file before (src.map (·.char)) ts)
    (hall : ∀ t ∈ ts, t ∈ all) (before' : List Char) :
    ∃ ts', Tiled file before' (src'.map (·.char)) ts' ∧
      ts'.map (·.lexeme) = ts.map (·.lexeme) := by
  induction h generalizing before' ts with
  | done before src => exact htiled.exists_move file before'
  | @insert before kept rest rest' g hblank hgap _ ih =>
    rw [List.map_append] at htiled
    have hgap' : Gap ts (before ++ kept.map (·.char)) (rest.map (·.char)) :=
      fun t ht => hgap t (hall t ht)
    rcases htiled.exists_of_append hgap' with ⟨ts₁, ts₂, rfl, hkept, hrest⟩
    rcases hkept.exists_move file before' with ⟨ts₁', hkept', hsame₁⟩
    rcases ih hrest (fun t ht => hall t (List.mem_append_right _ ht))
      (before' ++ kept.map (·.char) ++ [g.char]) with ⟨ts₂', hrest', hsame₂⟩
    refine ⟨ts₁' ++ ts₂', ?_, ?_⟩
    . rw [List.map_append, List.map_cons]
      refine hkept'.append (.blank hblank hrest') ?_
      intro c hc
      cases hc
      exact hblank
    . rw [List.map_append, List.map_append, hsame₁, hsame₂]

theorem Widened.exists_ofSource (h : Widened stream.tokens [] src src')
    (hsource : TokenStream.ofSource file src = .ok stream)
    (hsize : ∀ l ∈ splitLines src', lineSize l < lineLimit) :
    ∃ stream', TokenStream.ofSource file src' = .ok stream' ∧
      SameLexemes stream.tokens stream'.tokens := by
  have htiled := TokenStream.tiled_of_ofSource hsource
  rcases h.exists_tiled htiled (fun _ => id) [] with ⟨ts', htiled', hsame⟩
  rcases TokenStream.exists_ofSource_of_tiled htiled' hsize file with ⟨stream', hsource', hlexemes⟩
  exact ⟨stream', hsource', by rw [SameLexemes, hlexemes, hsame]⟩

namespace Declaration

/--
Blank characters between the tokens of a source, in front of them or behind them, can be put in as
long as no line gets too long. The source is still read and has the same lexemes. It gives the same
warnings up to positions, and it declares the same up to positions or has the same error.
-/
theorem ofSource_alike_of_widened (s : Schema)
    (hsource : TokenStream.ofSource file src = .ok stream)
    (hwidened : Widened stream.tokens [] src src')
    (hsize : ∀ l ∈ splitLines src', lineSize l < lineLimit) :
    (∃ stream', TokenStream.ofSource file src' = .ok stream' ∧
      SameLexemes stream.tokens stream'.tokens) ∧
    (ofSource s file src).warnings.map (·.withoutPos) =
      (ofSource s file src').warnings.map (·.withoutPos) ∧
    ((∃ ds ds', (ofSource s file src).result = .ok ds ∧ (ofSource s file src').result = .ok ds' ∧
        ds.map (·.withoutPos) = ds'.map (·.withoutPos)) ∨
      ∃ d d', (ofSource s file src).result = .error (.source d) ∧
        (ofSource s file src').result = .error (.source d') ∧ d.withoutPos = d'.withoutPos) := by
  rcases hwidened.exists_ofSource hsource hsize with ⟨stream', hsource', hsame⟩
  refine ⟨⟨stream', hsource', hsame⟩, ?_⟩
  have hread : ofSource s file src = (ofTokens s stream).mapError Error.source := by
    rw [ofSource, hsource]
  have hread' : ofSource s file src' = (ofTokens s stream').mapError Error.source := by
    rw [ofSource, hsource']
  rw [hread, hread']
  rcases ofTokens_alike (s := s) hsame with ⟨hwarnings, hresult⟩
  refine ⟨hwarnings, ?_⟩
  unfold Outcome.mapError
  dsimp only
  generalize (ofTokens s stream).result = r at hresult ⊢
  generalize (ofTokens s stream').result = r' at hresult ⊢
  cases hresult with
  | ok hds => exact .inl ⟨_, _, rfl, rfl, hds⟩
  | error hd => exact .inr ⟨_, _, rfl, rfl, hd⟩

def attributedStream : TokenStream where
  tokens :=
    [⟨.op '[', ⟨"a.idl", 1, 1⟩⟩, ⟨.ident "x", ⟨"a.idl", 1, 2⟩⟩, ⟨.op '=', ⟨"a.idl", 1, 3⟩⟩,
      ⟨.string "a b", ⟨"a.idl", 1, 4⟩⟩, ⟨.op ']', ⟨"a.idl", 1, 9⟩⟩,
      ⟨.ident "interface", ⟨"a.idl", 1, 10⟩⟩, ⟨.ident "A", ⟨"a.idl", 1, 20⟩⟩,
      ⟨.op '{', ⟨"a.idl", 1, 21⟩⟩, ⟨.op '}', ⟨"a.idl", 1, 22⟩⟩, ⟨.op ';', ⟨"a.idl", 1, 23⟩⟩]
  endPos := ⟨"a.idl", 1, 23⟩

theorem widened_attributedStream :
    Widened attributedStream.tokens [] (Glyph.ofString "[x=\"a b\"]interface A{};")
      (Glyph.ofString "\n[x=\t\"a b\"]interface A{}; ") := by
  let kept := Glyph.ofString "\"a b\"]interface A{};"
  have hstart : Gap attributedStream.tokens [] "[x=\"a b\"]interface A{};".toList :=
    gap_of_col (by decide) (by decide) _
  have hvalue : Gap attributedStream.tokens "[x=".toList "\"a b\"]interface A{};".toList :=
    gap_of_col (by decide) (by decide) _
  have hend : Gap attributedStream.tokens "[x=\"a b\"]interface A{};".toList [] :=
    gap_blanks _ _ (by simp)
  have hlast : Widened attributedStream.tokens "[x=".toList (kept ++ [])
      (kept ++ ⟨' ', 1⟩ :: []) :=
    .insert rfl hend (.done _ [])
  have hmiddle : Widened attributedStream.tokens [] (Glyph.ofString "[x=" ++ kept)
      (Glyph.ofString "[x=" ++ ⟨'\t', 1⟩ :: (kept ++ [⟨' ', 1⟩])) :=
    .insert rfl hvalue hlast
  exact @Widened.insert _ [] [] _ _ ⟨'\n', 1⟩ rfl hstart hmiddle

theorem ofSource_alike_of_widened_attributed :
    ∃ src src', src = Glyph.ofString "[x=\"a b\"]interface A{};" ∧
      src' = Glyph.ofString "\n[x=\t\"a b\"]interface A{}; " ∧
      TokenStream.ofSource "a.idl" src = .ok attributedStream ∧
      Widened attributedStream.tokens [] src src' ∧
      (∀ l ∈ splitLines src', lineSize l < lineLimit) ∧
      ∃ stream', TokenStream.ofSource "a.idl" src' = .ok stream' ∧
        SameLexemes attributedStream.tokens stream'.tokens ∧
        (ofSource ⟨fun _ => []⟩ "a.idl" src).warnings.map (·.withoutPos) =
          (ofSource ⟨fun _ => []⟩ "a.idl" src').warnings.map (·.withoutPos) := by
  have hsource : TokenStream.ofSource "a.idl" (Glyph.ofString "[x=\"a b\"]interface A{};") =
      .ok attributedStream := by
    cbv
  have hsize : ∀ l ∈ splitLines (Glyph.ofString "\n[x=\t\"a b\"]interface A{}; "),
      lineSize l < lineLimit := by
    decide
  rcases ofSource_alike_of_widened ⟨fun _ => []⟩ hsource widened_attributedStream hsize with
    ⟨⟨stream', hsource', hsame⟩, hwarnings, -⟩
  exact ⟨_, _, rfl, rfl, hsource, widened_attributedStream, hsize, stream', hsource', hsame,
    hwarnings⟩

end Declaration

end IdlCompiler
