import IdlCompiler.Proofs.Template.Paths
import IdlCompiler.Template.Tree

/-!
This module contains the layout of templates: which line ends and which indentations of a text have
no part in its template. It is said of the flat list of directives, by what stands in front of each
one, and holds of the tree of nodes at every depth.
-/

namespace IdlCompiler.Template

mutual

def Node.unfold : Node → List Directive
  | .literal text => [.literal text]
  | .emit path => [.emit path]
  | .lineEnd => [.lineEnd]
  | .continuation => [.continuation]
  | .block kind path body => .enter kind path :: (unfoldAll body ++ [.leave path])

def unfoldAll : List Node → List Directive
  | [] => []
  | n :: ns => n.unfold ++ unfoldAll ns

end

namespace Directive

/--
Whether a line end has no part in the template, by the directives before it, the last one first: it
is at the start, or directly behind the start or the end of a section or a continuation.
-/
def dropsLineEnd : List Directive → Bool
  | [] => true
  | .enter _ _ :: _ => true
  | .leave _ :: _ => true
  | .continuation :: _ => true
  | _ => false

def startsJoinedLine : List Directive → Bool
  | .lineEnd :: .continuation :: _ => true
  | _ => false

def laidOut (before : List Directive) : Directive → List Directive
  | .lineEnd => if dropsLineEnd before then [] else [.lineEnd]
  | .literal text =>
    if startsJoinedLine before then [.literal (String.ofList (text.toList.dropWhile isIndent))]
    else [.literal text]
  | d => [d]

def layOut (before : List Directive) : List Directive → List Directive
  | [] => []
  | d :: ds => d.laidOut before ++ layOut (d :: before) ds

theorem layOut_append (before xs ys : List Directive) :
    layOut before (xs ++ ys) = layOut before xs ++ layOut (xs.reverse ++ before) ys := by
  induction xs generalizing before with
  | nil => rfl
  | cons d xs ih =>
    rw [List.cons_append, layOut, layOut, ih, List.append_assoc, List.reverse_cons,
      List.append_assoc]
    rfl

def asBefore : List Directive → Before
  | [] => .start
  | .enter _ _ :: _ => .start
  | .leave _ :: _ => .block
  | .continuation :: _ => .continuation
  | .lineEnd :: .continuation :: _ => .joined
  | _ => .other

theorem dropsLineEnd_asBefore (before : List Directive) :
    (asBefore before).dropsLineEnd = dropsLineEnd before := by
  unfold asBefore
  split <;> simp_all [dropsLineEnd, Before.dropsLineEnd]

theorem asBefore_eq_joined_iff {before : List Directive} :
    asBefore before = .joined ↔ startsJoinedLine before = true := by
  unfold asBefore
  split <;> simp_all [startsJoinedLine]

theorem asBefore_lineEnd (before : List Directive) :
    asBefore (.lineEnd :: before) = Node.lineEnd.after (asBefore before) := by
  unfold Node.after
  cases before with
  | nil => rfl
  | cons d before =>
    cases d with
    | lineEnd => cases before with
      | nil => rfl
      | cons d before => cases d <;> rfl
    | _ => rfl

end Directive

open Directive

theorem asBefore_unfold (n : Node) (before : List Directive) :
    asBefore (n.unfold.reverse ++ before) = n.after (asBefore before) := by
  cases n with
  | lineEnd => exact asBefore_lineEnd before
  | block kind path body => simp [Node.unfold, asBefore, Node.after]
  | _ => rfl

theorem unfoldAll_append (xs ys : List Node) :
    unfoldAll (xs ++ ys) = unfoldAll xs ++ unfoldAll ys := by
  induction xs with
  | nil => rfl
  | cons n xs ih => rw [List.cons_append, unfoldAll, unfoldAll, ih, List.append_assoc]

theorem unfoldAll_singleton (n : Node) : unfoldAll [n] = n.unfold := by
  simp [unfoldAll]

mutual

theorem unfoldAll_tidy (n : Node) (before : List Directive) :
    unfoldAll (n.tidy (asBefore before)) = layOut before n.unfold := by
  cases n with
  | literal text =>
    unfold Node.tidy
    simp only [asBefore_eq_joined_iff]
    split <;> simp_all [unfoldAll, Node.unfold, layOut, laidOut]
  | lineEnd =>
    unfold Node.tidy
    rw [dropsLineEnd_asBefore]
    split <;> simp_all [unfoldAll, Node.unfold, layOut, laidOut]
  | emit path => rfl
  | continuation => rfl
  | block kind path body =>
    have hbody := unfoldAll_tidyAll body (.enter kind path :: before)
    rw [asBefore] at hbody
    rw [Node.tidy, unfoldAll_singleton, Node.unfold, Node.unfold, layOut, layOut_append, hbody]
    rfl

theorem unfoldAll_tidyAll (ns : List Node) (before : List Directive) :
    unfoldAll (tidyAll (asBefore before) ns) = layOut before (unfoldAll ns) := by
  cases ns with
  | nil => rfl
  | cons n ns =>
    have hrest := unfoldAll_tidyAll ns (n.unfold.reverse ++ before)
    rw [asBefore_unfold] at hrest
    rw [tidyAll, unfoldAll_append, unfoldAll_tidy, hrest, unfoldAll, layOut_append]

end

def unfoldOpen : List OpenSection → List Directive
  | [] => []
  | s :: sections => unfoldOpen sections ++ unfoldAll s.before.reverse ++ [.enter s.kind s.path]

theorem unfoldAll_of_nest {last : Nat} {sections : List OpenSection} {nodes result : List Node}
    {ds : List Located} (hds : ∀ l ∈ ds, l.directive.Spelled)
    (hsections : ∀ s ∈ sections, s.path.Spelled)
    (h : nest last sections nodes ds = .ok result) :
    unfoldAll result =
      unfoldOpen sections ++ unfoldAll nodes.reverse ++ ds.map (·.directive) := by
  induction ds generalizing sections nodes with
  | nil =>
    cases sections with
    | nil =>
      rw [nest] at h
      cases h
      simp [unfoldOpen]
    | cons s sections => cases h
  | cons l ds ih =>
    rcases l with ⟨line, d⟩
    have hspelled : d.Spelled := hds ⟨line, d⟩ List.mem_cons_self
    have hds' : ∀ l ∈ ds, l.directive.Spelled := fun l hl => hds l (List.mem_cons_of_mem _ hl)
    cases d with
    | enter kind path =>
      have hopened : ∀ s ∈ OpenSection.mk kind path nodes :: sections, s.path.Spelled :=
        List.forall_mem_cons.2 ⟨hspelled, hsections⟩
      rw [nest] at h
      rw [ih hds' hopened h]
      simp [unfoldOpen, unfoldAll]
    | leave path =>
      cases sections with
      | nil => cases h
      | cons s sections =>
        rcases List.forall_mem_cons.1 hsections with ⟨hs, houter⟩
        rw [nest] at h
        split at h
        . next htext =>
          -- Names have no dots, so the section that is left is the one that was entered.
          have hpath := hs.eq_of_text_eq hspelled htext
          rw [ih hds' houter h]
          simp [unfoldOpen, unfoldAll_append, unfoldAll_singleton, Node.unfold, hpath]
        . cases h
    | _ =>
      rw [nest] at h
      rw [ih hds' hsections h]
      simp [unfoldAll_append, unfoldAll_singleton, Node.unfold]

/--
The template of a text has the directives of the text, in their order and at whatever depth, except
for the line ends and indentations that only lay them out.
-/
theorem exists_unfoldAll_eq_layOut {text : String} {t : Template} (h : parse text = .ok t) :
    ∃ ds, Located.ofText text = .ok ds ∧
      unfoldAll t.nodes = layOut [] (ds.map (·.directive)) := by
  rcases Except.bind_eq_ok_iff.1 h with ⟨ds, hds, h⟩
  rcases Except.bind_eq_ok_iff.1 h with ⟨nodes, hnodes, ht⟩
  cases ht
  refine ⟨ds, hds, ?_⟩
  have hunfold := unfoldAll_of_nest (Located.spelled_of_ofText hds) (by simp) hnodes
  have htidy := unfoldAll_tidyAll nodes []
  rw [asBefore] at htidy
  rw [htidy, hunfold]
  rfl

def nestedText : String :=
  "\x7b\x7b#a\x7d\x7d\n\x7b\x7b?b.c\x7d\x7dy\x7b\x7b\\\x7d\x7dz\n \t w\n\n\x7b\x7b/ b . c\x7d\x7d\n" ++
    "\x7b\x7b/a\x7d\x7d\nend"

def nestedTemplate : Template where
  nodes := [
    .block .each ["a"] [
      .block .ifPresent ["b", "c"] [
        .literal "y", .continuation, .literal "w", .lineEnd, .lineEnd]],
    .literal "end"]

theorem exists_unfoldAll_eq_layOut_nested :
    parse nestedText = .ok nestedTemplate ∧
      ∃ ds, Located.ofText nestedText = .ok ds ∧
        unfoldAll nestedTemplate.nodes = layOut [] (ds.map (·.directive)) := by
  have hparse : parse nestedText = .ok nestedTemplate := by
    cbv
  exact ⟨hparse, exists_unfoldAll_eq_layOut hparse⟩

end IdlCompiler.Template
