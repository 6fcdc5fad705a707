import IdlCompiler.Proofs.RoundTrip.Spelling

/-!
This module contains how the lines of a source are read: one after the other, each as it is read on
its own.
-/

namespace IdlCompiler

open Lexer Text

def Text.unlines (lines : List String) : String :=
  String.join (lines.map (· ++ "\n"))

namespace Lexer

theorem splitLines_go_append {l rest line : List Glyph} {lines : List (List Glyph)}
    (h : ∀ g ∈ l, g.char ≠ '\n') :
    splitLines.go line lines (l ++ rest) = splitLines.go (l.reverse ++ line) lines rest := by
  induction l generalizing line with
  | nil => rfl
  | cons g l ih =>
    have hg := h g List.mem_cons_self
    rw [List.cons_append, splitLines.go, if_neg hg, ih fun g hg => h g (List.mem_cons_of_mem _ hg)]
    simp

theorem splitLines_go_unlines {lines : List String} {acc : List (List Glyph)}
    (h : ∀ l ∈ lines, '\n' ∉ l.toList) :
    splitLines.go [] acc (Glyph.ofString (unlines lines)) =
      acc.reverse ++ lines.map Glyph.ofString := by
  induction lines generalizing acc with
  | nil => simp [unlines, Glyph.ofString, splitLines.go]
  | cons l lines ih =>
    have hl : ∀ g ∈ Glyph.ofString l, g.char ≠ '\n' := by
      intro g hg
      rcases List.mem_map.1 hg with ⟨c, hc, rfl⟩
      rintro rfl
      exact h l List.mem_cons_self hc
    have hsplit : Glyph.ofString (unlines (l :: lines)) =
        Glyph.ofString l ++ ⟨'\n', '\n'.utf8Size⟩ :: Glyph.ofString (unlines lines) := by
      simp [unlines, Glyph.ofString]
    rw [hsplit, splitLines_go_append hl, splitLines.go, if_pos rfl,
      ih fun l hl => h l (List.mem_cons_of_mem _ hl)]
    simp

theorem splitLines_unlines {lines : List String} (h : ∀ l ∈ lines, '\n' ∉ l.toList) :
    splitLines (Glyph.ofString (unlines lines)) = lines.map Glyph.ofString :=
  splitLines_go_unlines h

/--
The tokens that `lines` are read as are as `P` says, wherever the lines stand in a source. No line
has a line break in it.
-/
structure ReadsLines (lines : List String) (P : List Token → Prop) : Prop where
  on_line : ∀ l ∈ lines, '\n' ∉ l.toList
  scan : (∀ l ∈ lines, lineSize (Glyph.ofString l) < lineLimit) →
    ∀ file n width acc rest, ∃ ts n' width', P ts ∧
      scanLines file n width acc (lines.map Glyph.ofString ++ rest) =
        scanLines file n' width' (ts.reverse ++ acc) rest

variable {lines lines' : List String} {P Q : List Token → Prop}

theorem readsLines_nil : ReadsLines [] (· = []) where
  on_line := by simp
  scan := fun _ _ n width _ _ => ⟨[], n, width, rfl, rfl⟩

theorem ReadsLines.append (h : ReadsLines lines P) (h' : ReadsLines lines' Q) :
    ReadsLines (lines ++ lines') (Then P Q) where
  on_line := by
    intro l hl
    rcases List.mem_append.1 hl with hl | hl
    . exact h.on_line l hl
    . exact h'.on_line l hl
  scan := by
    intro hsize file n width acc rest
    rcases h.scan (fun l hl => hsize l (List.mem_append_left _ hl)) file n width acc
      (lines'.map Glyph.ofString ++ rest) with ⟨ts₁, n₁, width₁, hP, hscan₁⟩
    rcases h'.scan (fun l hl => hsize l (List.mem_append_right _ hl)) file n₁ width₁
      (ts₁.reverse ++ acc) rest with ⟨ts₂, n₂, width₂, hQ, hscan₂⟩
    refine ⟨ts₁ ++ ts₂, n₂, width₂, ⟨ts₁, ts₂, rfl, hP, hQ⟩, ?_⟩
    rw [List.map_append, List.append_assoc, hscan₁, hscan₂, List.reverse_append, List.append_assoc]

theorem ReadsLines.imp (h : ReadsLines lines P) (hPQ : ∀ ts, P ts → Q ts) : ReadsLines lines Q where
  on_line := h.on_line
  scan := by
    intro hsize file n width acc rest
    rcases h.scan hsize file n width acc rest with ⟨ts, n', width', hP, hscan⟩
    exact ⟨ts, n', width', hPQ ts hP, hscan⟩

theorem map_char_ofString (text : String) : (Glyph.ofString text).map (·.char) = text.toList := by
  rw [Glyph.ofString, List.map_map]
  exact List.map_id _

theorem lineText_ofString (l : String) : lineText (Glyph.ofString l) = trimRight l.toList := by
  rw [lineText, map_char_ofString]

theorem trimRight_append {b : String} {c : Char} (a : String) (hb : b.toList.getLast? = some c)
    (hc : isBlank c = false) : trimRight (a ++ b).toList = (a ++ b).toList := by
  rcases List.getLast?_eq_some_iff.1 hb with ⟨cs, hcs⟩
  simp [hcs, trimRight, hc]

theorem Reads.readsLines_of_trimRight {l l' : String} (h : Reads EndsWord l P)
    (htrim : trimRight l'.toList = l.toList) (hline : '\n' ∉ l'.toList) : ReadsLines [l'] P where
  on_line := List.forall_mem_singleton.2 hline
  scan := by
    intro hsize file n width acc rest
    have hend : EndsWord [] := by simp [EndsWord]
    rcases h.scan [] hend file (n + 1) 1 acc with ⟨ts, col, hP, hscan⟩
    have hline : scanLine file (n + 1) 1 l.toList acc = .ok (ts.reverse ++ acc) := by
      rw [List.append_nil] at hscan
      rw [hscan, scanLine_nil]
    refine ⟨ts, n + 1, l.toList.length, hP, ?_⟩
    have hlimit := hsize l' (List.mem_singleton.2 rfl)
    rw [List.map_singleton, List.singleton_append, scanLines, if_neg (Nat.not_le.2 hlimit)]
    simp only [lineText_ofString, htrim, hline]

theorem Reads.readsLines {l : String} (h : Reads EndsWord l P)
    (htrim : trimRight l.toList = l.toList) : ReadsLines [l] P :=
  h.readsLines_of_trimRight htrim h.on_line

def Each {α : Type} (P : α → List Token → Prop) : List α → List Token → Prop
  | [] => (· = [])
  | x :: xs => Then (P x) (Each P xs)

theorem readsLines_map {α : Type} {xs : List α} {f : α → String} {P : α → List Token → Prop}
    (h : ∀ x ∈ xs, ReadsLines [f x] (P x)) : ReadsLines (xs.map f) (Each P xs) := by
  induction xs with
  | nil => exact readsLines_nil
  | cons x xs ih =>
    rw [List.map_cons, ← List.singleton_append]
    exact (h x List.mem_cons_self).append (ih fun y hy => h y (List.mem_cons_of_mem _ hy))

theorem ReadsLines.exists_ofSource (h : ReadsLines lines P) {src : List Glyph}
    (hlines : splitLines src = lines.map Glyph.ofString)
    (hsize : ∀ l ∈ splitLines src, lineSize l < lineLimit) (file : String) :
    ∃ stream, TokenStream.ofSource file src = .ok stream ∧ P stream.tokens := by
  rw [hlines] at hsize
  have hsize' (l : String) (hl : l ∈ lines) := hsize _ (List.mem_map_of_mem hl)
  rcases h.scan hsize' file 0 0 [] [] with ⟨ts, n, width, hP, hscan⟩
  refine ⟨⟨ts, ⟨file, n, width⟩⟩, ?_, hP⟩
  rw [List.append_nil, List.append_nil] at hscan
  rw [TokenStream.ofSource, hlines, hscan, scanLines, List.reverse_reverse]

theorem exists_ofSource_unlines (h : ReadsLines lines P)
    (hsize : ∀ l ∈ splitLines (Glyph.ofString (unlines lines)), lineSize l < lineLimit)
    (file : String) :
    ∃ stream, TokenStream.ofSource file (Glyph.ofString (unlines lines)) = .ok stream ∧
      P stream.tokens :=
  h.exists_ofSource (splitLines_unlines h.on_line) hsize file

end Lexer

end IdlCompiler
