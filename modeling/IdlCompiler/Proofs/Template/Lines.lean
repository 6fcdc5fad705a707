import IdlCompiler.Proofs.Except
import IdlCompiler.Proofs.Text.Cut
import IdlCompiler.Template.Directive

/-!
This module contains the directives of a line of a template text by the parts of the line behind
opening braces. A line has directives exactly if there are closing braces in all of these parts.
-/

namespace IdlCompiler.Template

namespace Directive

def openingBraces : List Char :=
  ['{', '{']

theorem openingBraces_ne_nil : openingBraces ≠ [] :=
  List.cons_ne_nil _ _

def closingBraces : List Char :=
  ['}', '}']

theorem closingBraces_ne_nil : closingBraces ≠ [] :=
  List.cons_ne_nil _ _

theorem ofLine_eq {cs before : List Char} {chunks : List (List Char)}
    (h : Text.splitAt openingBraces cs = before :: chunks) :
    ofLine cs = chunks.mapM ofChunk >>= fun parts => .ok (literals before ++ parts.flatten) := by
  unfold openingBraces at h
  unfold ofLine
  rw [h]
  rfl

def chunks (cs : List Char) : List (List Char) :=
  (Text.splitAt openingBraces cs).tail

theorem exists_splitAt_eq_cons (cs : List Char) :
    ∃ before, Text.splitAt openingBraces cs = before :: chunks cs := by
  obtain ⟨before, rest, hsplit⟩ :=
    List.exists_cons_of_ne_nil (Text.splitAt_ne_nil openingBraces cs)
  unfold chunks
  rw [hsplit]
  exact ⟨before, rfl⟩

theorem chunks_eq_nil_iff {cs : List Char} : chunks cs = [] ↔ ¬ openingBraces <:+: cs := by
  rw [← Text.cutAt?_eq_none_iff openingBraces_ne_nil]
  unfold chunks
  cases hcut : Text.cutAt? openingBraces cs with
  | none => simp [Text.splitAt_of_none hcut]
  | some parts => simp [Text.splitAt_of_some openingBraces_ne_nil hcut, Text.splitAt_ne_nil]

theorem ofLine_of_not_opening {cs : List Char} (h : ¬ openingBraces <:+: cs) :
    ofLine cs = .ok (literals cs) := by
  rw [← Text.cutAt?_eq_none_iff openingBraces_ne_nil] at h
  rw [ofLine_eq (Text.splitAt_of_none h), List.mapM_nil]
  exact congrArg Except.ok (List.append_nil _)

theorem ofLine_braced {inner : List Char} (hopening : '{' ∉ inner) (hclosing : '}' ∉ inner) :
    ofLine (openingBraces ++ (inner ++ closingBraces)) = .ok [ofChars inner] := by
  have hbare : ¬ openingBraces <:+: inner ++ closingBraces := by
    intro h
    have hmem : '{' ∈ inner ++ closingBraces := h.mem List.mem_cons_self
    rcases List.mem_append.1 hmem with hmem | hmem
    . exact hopening hmem
    . simp [closingBraces] at hmem
  have hsplit : Text.splitAt openingBraces (openingBraces ++ (inner ++ closingBraces)) =
      [[], inner ++ closingBraces] := by
    rw [← Text.cutAt?_eq_none_iff openingBraces_ne_nil] at hbare
    rw [Text.splitAt_mark openingBraces_ne_nil, Text.splitAt_of_none hbare]
  have hcut : Text.cutAt? closingBraces (inner ++ closingBraces) = some (inner, []) := by
    have hapart : ∀ c ∈ inner, closingBraces.head? ≠ some c := by
      intro c hc h
      cases h
      exact hclosing hc
    exact Text.cutAt?_append closingBraces_ne_nil hapart
  have hchunk : ofChunk (inner ++ closingBraces) = .ok [ofChars inner] := by
    unfold closingBraces at hcut ⊢
    unfold ofChunk
    rw [hcut]
    dsimp only
    split
    . next hd => rw [hd]
    . rfl
  rw [ofLine_eq hsplit, List.mapM_cons, hchunk]
  rfl

end Directive

namespace Located

open Directive

variable {line : Nat} {cs : List Char} {rest : List (List Char)} {ds : List Directive}

theorem map_directive_map_mk (line : Nat) (ds : List Directive) :
    (ds.map (Located.mk line)).map (·.directive) = ds := by
  rw [List.map_map]
  exact List.map_id ds

theorem ofLines_singleton (h : ofLine cs = .ok ds) :
    ofLines line [cs] = .ok (ds.map (⟨line, ·⟩)) := by
  rw [ofLines, h]
  rfl

theorem ofLines_cons (h : ofLine cs = .ok ds) (hrest : rest ≠ []) :
    ofLines line (cs :: rest) =
      ofLines (line + 1) rest >>= fun ls => .ok (ds.map (⟨line, ·⟩) ++ ⟨line, .lineEnd⟩ :: ls) := by
  have hempty : rest.isEmpty = false := by
    rw [List.isEmpty_eq_false_iff]
    exact hrest
  rw [ofLines, h]
  dsimp only
  rw [hempty]
  rfl

theorem exists_of_ofLines_cons {ls : List Located} (h : ofLines line (cs :: rest) = .ok ls) :
    ∃ ds, ofLine cs = .ok ds ∧
      (rest = [] ∧ ls = ds.map (⟨line, ·⟩) ∨
        rest ≠ [] ∧ ∃ ls', ofLines (line + 1) rest = .ok ls' ∧
          ls = ds.map (⟨line, ·⟩) ++ ⟨line, .lineEnd⟩ :: ls') := by
  cases hline : ofLine cs with
  | error cause =>
    rw [ofLines, hline] at h
    cases h
  | ok ds =>
    refine ⟨ds, rfl, ?_⟩
    by_cases hrest : rest = []
    . subst hrest
      rw [ofLines_singleton hline] at h
      cases h
      exact Or.inl ⟨rfl, rfl⟩
    . rw [ofLines_cons hline hrest] at h
      rcases Except.bind_eq_ok_iff.1 h with ⟨ls', hls', hls⟩
      cases hls
      exact Or.inr ⟨hrest, ls', hls', rfl⟩

theorem exists_ofLines_of_map (line : Nat) {css : List (List Char)} {dss : List (List Directive)}
    (h : css.map ofLine = dss.map .ok) (hcs : ofLine cs = .ok ds) :
    ∃ ls, ofLines line (css ++ [cs]) = .ok ls ∧
      ls.map (·.directive) = dss.flatMap (· ++ [.lineEnd]) ++ ds := by
  induction css generalizing line dss with
  | nil =>
    rw [List.map_nil, eq_comm, List.map_eq_nil_iff] at h
    subst h
    exact ⟨_, ofLines_singleton hcs, map_directive_map_mk line ds⟩
  | cons first css ih =>
    rw [List.map_cons, eq_comm, List.map_eq_cons_iff] at h
    obtain ⟨ds', dss, rfl, hds', hdss⟩ := h
    obtain ⟨ls, hls, hmap⟩ := ih (line + 1) hdss.symm
    refine ⟨ds'.map (⟨line, ·⟩) ++ ⟨line, .lineEnd⟩ :: ls, ?_, ?_⟩
    . rw [List.cons_append, ofLines_cons hds'.symm (by simp), hls]
      rfl
    . rw [List.map_append, List.map_cons, map_directive_map_mk, hmap, List.flatMap_cons]
      simp only [List.append_assoc]
      rfl

end Located

end IdlCompiler.Template
