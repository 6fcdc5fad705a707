import IdlCompiler.Proofs.Template.Layout
import IdlCompiler.Template.Render
import Mathlib

/-!
This module contains what becomes of the rest of a line behind a continuation. The literal directly
behind it is dropped, but the directives behind that are kept with all that follows them: the rest
of the line has no part in the template exactly if there are no opening braces in it.
-/

namespace IdlCompiler.Template

namespace Directive

def continuationChunk : List Char :=
  ['\\', '}', '}']

def isBraced : Directive → Bool
  | .literal _ => false
  | .lineEnd => false
  | _ => true

theorem isBraced_ofChars (cs : List Char) : (ofChars cs).isBraced = true := by
  unfold ofChars
  split
  . rfl
  . split <;> rfl

theorem countP_isBraced_literals (cs : List Char) : (literals cs).countP isBraced = 0 := by
  unfold literals
  split <;> rfl

theorem countP_isBraced_ofChunk {chunk : List Char} {ds : List Directive}
    (h : ofChunk chunk = .ok ds) : ds.countP isBraced = 1 := by
  unfold ofChunk at h
  split at h
  . cases h
  . next inner rest _ =>
    split at h
    . cases h
      rfl
    . cases h
      rw [List.countP_cons_of_pos (isBraced_ofChars inner), countP_isBraced_literals]

theorem countP_isBraced_ofLine {cs : List Char} {ds : List Directive} (h : ofLine cs = .ok ds) :
    ds.countP isBraced = (chunks cs).length := by
  have hchunks {chunks : List (List Char)} {parts : List (List Directive)}
      (h : chunks.mapM ofChunk = .ok parts) : parts.flatten.countP isBraced = chunks.length := by
    have hones : parts.map (List.countP isBraced) = chunks.map fun _ => 1 :=
      Except.map_eq_map_of_mapM_eq_ok (fun _ _ => countP_isBraced_ofChunk) h
    rw [List.countP_flatten, hones]
    simp
  obtain ⟨before, hsplit⟩ := exists_splitAt_eq_cons cs
  rw [ofLine_eq hsplit] at h
  rcases Except.bind_eq_ok_iff.1 h with ⟨parts, hparts, hds⟩
  cases hds
  rw [List.countP_append, countP_isBraced_literals, hchunks hparts, Nat.zero_add]

theorem countP_isBraced_layOut (before ds : List Directive) :
    (layOut before ds).countP isBraced = ds.countP isBraced := by
  induction ds generalizing before with
  | nil => rfl
  | cons d ds ih =>
    have hd : (d.laidOut before).countP isBraced = [d].countP isBraced := by
      cases d <;> unfold laidOut <;> dsimp only <;> split <;> rfl
    rw [layOut, List.countP_append, ih, hd, ← List.countP_append, List.singleton_append]

theorem ofChunk_continuationChunk (rest : List Char) :
    ofChunk (continuationChunk ++ rest) = .ok [.continuation] := by
  have hcut : Text.cutAt? ['}', '}'] (continuationChunk ++ rest) = some (['\\'], rest) := by
    have hmark := Text.cutAt?_mark (List.cons_ne_nil '}' ['}']) rest
    unfold continuationChunk
    rw [List.cons_append, Text.cutAt?_cons (by simp)]
    exact congrArg (Option.map _) hmark
  unfold ofChunk
  rw [hcut]
  rfl

def continued (pre rest : List Char) : List Char :=
  pre ++ openingBraces ++ (continuationChunk ++ rest)

theorem splitAt_continuationChunk (rest : List Char) :
    Text.splitAt openingBraces (continuationChunk ++ rest) =
      (Text.splitAt openingBraces rest).modifyHead (continuationChunk ++ ·) := by
  have hcons {c : Char} (hc : c ≠ '{') (cs : List Char) :
      Text.splitAt openingBraces (c :: cs) =
        (Text.splitAt openingBraces cs).modifyHead (c :: ·) := by
    apply Text.splitAt_cons openingBraces_ne_nil
    simp [openingBraces, hc.symm]
  unfold continuationChunk
  dsimp only [List.cons_append, List.nil_append]
  rw [hcons (by decide), hcons (by decide), hcons (by decide), List.modifyHead_modifyHead,
    List.modifyHead_modifyHead]
  rfl

theorem splitAt_continued {pre : List Char} (hpre : pre.getLast? ≠ some '{') (rest : List Char) :
    Text.splitAt openingBraces (continued pre rest) =
      Text.splitAt openingBraces pre ++
        (Text.splitAt openingBraces rest).modifyHead (continuationChunk ++ ·) := by
  unfold continued
  rw [← splitAt_continuationChunk]
  exact Text.splitAt_append pre _ hpre

theorem exists_chunks_continued {pre : List Char} (hpre : pre.getLast? ≠ some '{')
    (rest : List Char) :
    ∃ dropped, chunks (continued pre rest) =
      chunks pre ++ (continuationChunk ++ dropped) :: chunks rest := by
  obtain ⟨before, hsplit⟩ := exists_splitAt_eq_cons pre
  obtain ⟨dropped, hrest⟩ := exists_splitAt_eq_cons rest
  refine ⟨dropped, ?_⟩
  have hcontinued := congrArg List.tail (splitAt_continued hpre rest)
  rw [hsplit, hrest] at hcontinued
  exact hcontinued

theorem ofLine_continued_congr {pre rest rest' : List Char} (hpre : pre.getLast? ≠ some '{')
    (h : chunks rest = chunks rest') :
    ofLine (continued pre rest) = ofLine (continued pre rest') := by
  obtain ⟨before, hsplit⟩ := exists_splitAt_eq_cons pre
  have hline (rest : List Char) :
      ofLine (continued pre rest) =
        ((chunks pre ++ continuationChunk :: chunks rest).mapM ofChunk >>=
          fun parts => .ok (literals before ++ parts.flatten)) := by
    obtain ⟨dropped, hrest⟩ := exists_splitAt_eq_cons rest
    have hcontinued := splitAt_continued hpre rest
    rw [hsplit, hrest, List.modifyHead_cons, List.cons_append] at hcontinued
    have hdropped : ofChunk (continuationChunk ++ dropped) = ofChunk continuationChunk := by
      rw [ofChunk_continuationChunk]
      exact (ofChunk_continuationChunk []).symm
    rw [ofLine_eq hcontinued, List.mapM_append, List.mapM_append, List.mapM_cons, List.mapM_cons,
      hdropped]
  rw [hline rest, hline rest', h]

def fromBraces (cs : List Char) : List Char :=
  match Text.cutAt? openingBraces cs with
  | none => []
  | some (_, rest) => openingBraces ++ rest

theorem fromBraces_suffix (cs : List Char) : fromBraces cs <:+ cs := by
  unfold fromBraces
  split
  . apply List.nil_suffix
  . next before rest hcut =>
    refine ⟨before, ?_⟩
    rw [← List.append_assoc]
    exact (Text.cutAt?_eq_some hcut).symm

theorem chunks_fromBraces (cs : List Char) : chunks (fromBraces cs) = chunks cs := by
  unfold fromBraces chunks
  cases hcut : Text.cutAt? openingBraces cs with
  | none =>
    dsimp only
    rw [Text.splitAt_of_none hcut, Text.splitAt_nil openingBraces_ne_nil]
    rfl
  | some parts =>
    dsimp only
    rw [Text.splitAt_of_some openingBraces_ne_nil hcut, Text.splitAt_mark openingBraces_ne_nil]
    rfl

theorem fromBraces_eq_nil {cs : List Char} (h : ¬ openingBraces <:+: cs) : fromBraces cs = [] := by
  rw [← Text.cutAt?_eq_none_iff openingBraces_ne_nil] at h
  unfold fromBraces
  rw [h]

end Directive

open Directive

theorem Located.ofLines_congr {css css' : List (List Char)}
    (h : css.map ofLine = css'.map ofLine) (line : Nat) :
    ofLines line css = ofLines line css' := by
  induction css generalizing css' line with
  | nil =>
    rw [List.map_nil, eq_comm, List.map_eq_nil_iff] at h
    rw [h]
  | cons cs css ih =>
    cases css' with
    | nil => cases h
    | cons cs' css' =>
      rw [List.map_cons, List.map_cons, List.cons.injEq] at h
      have hempty : css.isEmpty = css'.isEmpty := by
        have hlength := congrArg List.length h.2
        cases css <;> cases css' <;> simp_all
      rw [ofLines, ofLines, h.1, hempty, ih h.2]

theorem Located.countP_isBraced_ofLines {line : Nat} {css : List (List Char)} {ls : List Located}
    (h : ofLines line css = .ok ls) :
    (ls.map (·.directive)).countP isBraced = (css.flatMap chunks).length := by
  induction css generalizing line ls with
  | nil =>
    cases h
    rfl
  | cons cs css ih =>
    obtain ⟨ds, hds, ⟨rfl, rfl⟩ | ⟨-, rest, hrest, rfl⟩⟩ := exists_of_ofLines_cons h
    . rw [map_directive_map_mk, countP_isBraced_ofLine hds, List.flatMap_singleton]
    . have hlineEnd : isBraced .lineEnd = false := rfl
      rw [List.map_append, List.map_cons, map_directive_map_mk, List.countP_append,
        List.countP_cons_of_neg (by simp [hlineEnd]), countP_isBraced_ofLine hds, ih hrest,
        List.flatMap_cons, List.length_append]

theorem countP_isBraced_unfoldAll {text : String} {t : Template} (h : parse text = .ok t) :
    (unfoldAll t.nodes).countP isBraced = ((text.toList.splitOn '\n').flatMap chunks).length := by
  rcases Except.bind_eq_ok_iff.1 h with ⟨ls, hls, h⟩
  rcases Except.bind_eq_ok_iff.1 h with ⟨nodes, hnodes, ht⟩
  cases ht
  have hunfold := unfoldAll_of_nest (Located.spelled_of_ofText hls) (by simp) hnodes
  have htidy : unfoldAll (tidyAll .start nodes) = layOut [] (unfoldAll nodes) :=
    unfoldAll_tidyAll nodes []
  rw [htidy, countP_isBraced_layOut, hunfold]
  exact Located.countP_isBraced_ofLines hls

def withContinuation (above : List String) (pre rest : String) (below : List String) : String :=
  "\n".intercalate (above ++ (pre ++ "\x7b\x7b\\\x7d\x7d" ++ rest) :: below)

section Lines

variable {above below : List String} {pre rest : String}

theorem splitOn_withContinuation
    (h : ∀ line ∈ above ++ pre :: rest :: below, '\n' ∉ line.toList) :
    (withContinuation above pre rest below).toList.splitOn '\n' =
      above.map String.toList ++
        continued pre.toList rest.toList :: below.map String.toList := by
  have hmark : "\x7b\x7b\\\x7d\x7d".toList = openingBraces ++ continuationChunk := rfl
  have hline : (pre ++ "\x7b\x7b\\\x7d\x7d" ++ rest).toList =
      continued pre.toList rest.toList := by
    rw [String.toList_append, String.toList_append, hmark]
    unfold continued
    simp only [List.append_assoc]
  simp only [List.forall_mem_append, List.forall_mem_cons] at h
  obtain ⟨habove, hpre, hrest, hbelow⟩ := h
  unfold withContinuation
  rw [String.toList_intercalate, List.map_append, List.map_cons, hline]
  apply List.splitOn_intercalate
  . simp only [List.forall_mem_append, List.forall_mem_cons, List.forall_mem_map]
    refine ⟨habove, ?_, hbelow⟩
    unfold continued
    simp [hpre, hrest, openingBraces, continuationChunk]
  . simp

theorem parse_withContinuation_fromBraces (hpre : pre.toList.getLast? ≠ some '{')
    (h : ∀ line ∈ above ++ pre :: rest :: below, '\n' ∉ line.toList) :
    parse (withContinuation above pre rest below) =
      parse (withContinuation above pre (String.ofList (fromBraces rest.toList)) below) := by
  have h' : ∀ line ∈ above ++ pre :: String.ofList (fromBraces rest.toList) :: below,
      '\n' ∉ line.toList := by
    simp only [List.forall_mem_append, List.forall_mem_cons, String.toList_ofList] at h ⊢
    refine ⟨h.1, h.2.1, ?_, h.2.2.2⟩
    intro hmem
    exact h.2.2.1 ((fromBraces_suffix rest.toList).mem hmem)
  have hline : ofLine (continued pre.toList rest.toList) =
      ofLine (continued pre.toList (fromBraces rest.toList)) := by
    apply ofLine_continued_congr hpre
    rw [chunks_fromBraces]
  have htext : Located.ofText (withContinuation above pre rest below) = Located.ofText
      (withContinuation above pre (String.ofList (fromBraces rest.toList)) below) := by
    unfold Located.ofText
    rw [splitOn_withContinuation h, splitOn_withContinuation h', String.toList_ofList]
    apply Located.ofLines_congr
    rw [List.map_append, List.map_append, List.map_cons, List.map_cons, hline]
  unfold parse
  rw [htext]

variable {t₁ t₂ : Template}

theorem ne_of_parse_withContinuation (hpre : pre.toList.getLast? ≠ some '{')
    (h : ∀ line ∈ above ++ pre :: rest :: below, '\n' ∉ line.toList)
    (h₁ : parse (withContinuation above pre rest below) = .ok t₁)
    (h₂ : parse (withContinuation above pre "" below) = .ok t₂)
    (hbraces : openingBraces <:+: rest.toList) : t₁ ≠ t₂ := by
  have h' : ∀ line ∈ above ++ pre :: "" :: below, '\n' ∉ line.toList := by
    simp only [List.forall_mem_append, List.forall_mem_cons] at h ⊢
    refine ⟨h.1, h.2.1, ?_, h.2.2.2⟩
    simp
  have hchunks : chunks rest.toList ≠ [] := by
    rw [ne_eq, chunks_eq_nil_iff, not_not]
    exact hbraces
  obtain ⟨dropped, hline⟩ := exists_chunks_continued hpre rest.toList
  obtain ⟨dropped', hline'⟩ := exists_chunks_continued hpre []
  have hlength := List.length_pos_iff.2 hchunks
  have hnone : chunks [] = [] := by
    rw [chunks_eq_nil_iff]
    decide
  have hcount₁ := countP_isBraced_unfoldAll h₁
  have hcount₂ := countP_isBraced_unfoldAll h₂
  rw [splitOn_withContinuation h, List.flatMap_append, List.flatMap_cons, hline] at hcount₁
  rw [splitOn_withContinuation h', List.flatMap_append, List.flatMap_cons, String.toList_empty,
    hline', hnone] at hcount₂
  simp only [List.length_append, List.length_cons, List.length_nil] at hcount₁ hcount₂
  intro heq
  rw [heq] at hcount₁
  omega

/--
Two templates that differ in the rest of a line behind a continuation give the same text for all
data if there are no opening braces in the rest. If there are some, they are different templates:
what starts with the first of these braces is part of the template.
-/
theorem render_withContinuation (hpre : pre.toList.getLast? ≠ some '{')
    (h : ∀ line ∈ above ++ pre :: rest :: below, '\n' ∉ line.toList)
    (h₁ : parse (withContinuation above pre rest below) = .ok t₁)
    (h₂ : parse (withContinuation above pre "" below) = .ok t₂) :
    (¬ openingBraces <:+: rest.toList → ∀ data, t₁.render data = t₂.render data) ∧
      (openingBraces <:+: rest.toList →
        t₁ ≠ t₂ ∧
          parse (withContinuation above pre (String.ofList (fromBraces rest.toList)) below) =
            .ok t₁) := by
  have hrest := parse_withContinuation_fromBraces hpre h
  constructor
  . intro hbraces data
    rw [fromBraces_eq_nil hbraces, String.ofList_nil, h₁, h₂] at hrest
    cases hrest
    rfl
  . intro hbraces
    rw [← hrest]
    exact ⟨ne_of_parse_withContinuation hpre h h₁ h₂ hbraces, h₁⟩

def keptTemplate : Template where
  nodes := [.literal "a", .continuation, .emit ["x"], .literal "c", .lineEnd, .literal "d"]

def joinedTemplate : Template where
  nodes := [.literal "a", .continuation, .literal "d"]

theorem render_withContinuation_kept :
    (∃ t₁ t₂, parse (withContinuation [] "a" "b \x7d\x7b c" [" \td"]) = .ok t₁ ∧
        parse (withContinuation [] "a" "" [" \td"]) = .ok t₂ ∧
        ∀ data, t₁.render data = t₂.render data) ∧
      parse (withContinuation [] "a" "b\x7b\x7bx\x7d\x7dc" ["d"]) = .ok keptTemplate ∧
      parse (withContinuation [] "a" "" ["d"]) = .ok joinedTemplate ∧
      keptTemplate ≠ joinedTemplate ∧
      parse (withContinuation [] "a" "\x7b\x7bx\x7d\x7dc" ["d"]) = .ok keptTemplate := by
  have hdropped : parse (withContinuation [] "a" "b \x7d\x7b c" [" \td"]) = .ok joinedTemplate := by
    cbv
  have hindented : parse (withContinuation [] "a" "" [" \td"]) = .ok joinedTemplate := by
    cbv
  have hkept : parse (withContinuation [] "a" "b\x7b\x7bx\x7d\x7dc" ["d"]) = .ok keptTemplate := by
    cbv
  have hjoined : parse (withContinuation [] "a" "" ["d"]) = .ok joinedTemplate := by
    cbv
  have hsame := (render_withContinuation (by decide) (by decide) hdropped hindented).1 (by decide)
  have hother := (render_withContinuation (by decide) (by decide) hkept hjoined).2 (by decide)
  exact ⟨⟨_, _, hdropped, hindented, hsame⟩, hkept, hjoined, hother⟩

theorem render_ne_withContinuation_kept :
    parse (withContinuation [] "a" "b\x7b\x7bx\x7d\x7dc" ["d"]) = .ok keptTemplate ∧
      parse (withContinuation [] "a" "" ["d"]) = .ok joinedTemplate ∧
      keptTemplate.render (.map [("x", .text "X")]) = "aXc\nd" ∧
      joinedTemplate.render (.map [("x", .text "X")]) = "ad" := by
  refine ⟨?_, ?_, ?_, ?_⟩
  all_goals cbv

end Lines

end IdlCompiler.Template
