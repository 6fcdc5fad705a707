import IdlCompiler.Proofs.Template.Layout
import IdlCompiler.Proofs.Template.Rendering

/-!
This module contains the invariant of scopes while a template is rendered: they start with the data,
and below every item of a list there is the list that has it at its index. Rendering is a walk
through the nodes on which every section and every emission only adds steps to the scope where it
starts, and what stands behind it is rendered in that scope again.
-/

namespace IdlCompiler.Template

def Entry.IsNamed : Entry → Prop
  | .named _ _ => True
  | .index _ _ => False

/--
The number of steps that a path adds to a scope: one for each name, and a single one for a path of
dots.
-/
def Path.stepCount (path : Path) : Nat :=
  if 2 ≤ path.length ∧ path.all (· = "") then 1 else path.length

namespace Scope

/--
A path with at least one name leads from a scope to another one. All steps of the first scope stay as
they are, and each step behind them has a name.
-/
def LeadsTo (path : Path) (s inner : Scope) : Prop :=
  path ≠ [] ∧ ∃ added : List Entry,
    inner = added ++ s ∧ added.length = path.stepCount ∧ ∀ e ∈ added, e.IsNamed

/--
The first step of the scope is the one to the data, and every step to an item is directly behind a
named step to a list that has this item at its index.
-/
structure Sound (data : Value) (s : Scope) : Prop where
  rooted : s.getLast? = some (.named "" data)
  indexed : ∀ i item outer, .index i item :: outer <:+ s →
    ∃ name list items rest, outer = .named name list :: rest ∧ list.items? = some items ∧
      items[i]? = some item

variable {root data : Value} {s inner : Scope} {path : Path}

theorem exists_foldl_followNext (s : Scope) (names : List String) :
    ∃ added : List Entry, names.foldl followNext s = added ++ s ∧ added.length = names.length ∧
      ∀ e ∈ added, e.IsNamed := by
  induction names generalizing s with
  | nil => exact ⟨[], rfl, rfl, by simp⟩
  | cons name names ih =>
    obtain ⟨added, hfold, hlength, hnamed⟩ := ih (s.followNext name)
    refine ⟨added ++ [.named name ((s.member? name).getD .null)], ?_, ?_, ?_⟩
    . rw [List.foldl_cons, hfold, List.append_assoc]
      rfl
    . rw [List.length_append, hlength, List.length_singleton, List.length_cons]
    . exact List.forall_mem_append.2 ⟨hnamed, List.forall_mem_singleton.2 trivial⟩

theorem followFirst_eq_cons (root : Value) (s : Scope) (name : String) :
    ∃ value, s.followFirst root name = .named name value :: s := by
  unfold followFirst
  split
  . next hempty =>
    rw [hempty]
    exact ⟨root, rfl⟩
  . exact ⟨_, rfl⟩

theorem leadsTo_follow (root : Value) (s : Scope) (hpath : path ≠ []) :
    LeadsTo path s (s.follow root path) := by
  refine ⟨hpath, ?_⟩
  unfold Scope.follow Path.stepCount
  split
  . exact ⟨[.named "." s.value], rfl, rfl, List.forall_mem_singleton.2 trivial⟩
  . cases path with
    | nil => exact absurd rfl hpath
    | cons name names =>
      obtain ⟨value, hfirst⟩ := followFirst_eq_cons root s name
      obtain ⟨added, hfold, hlength, hnamed⟩ := exists_foldl_followNext (.named name value :: s) names
      refine ⟨added ++ [.named name value], ?_, ?_, ?_⟩
      . rw [List.append_assoc, List.singleton_append, ← hfold, ← hfirst]
      . rw [List.length_append, hlength, List.length_singleton, List.length_cons]
      . exact List.forall_mem_append.2 ⟨hnamed, List.forall_mem_singleton.2 trivial⟩

theorem stepCount_pos (hpath : path ≠ []) : 0 < path.stepCount := by
  unfold Path.stepCount
  split
  . exact Nat.one_pos
  . exact List.length_pos_iff.2 hpath

theorem LeadsTo.exists_eq_cons (h : LeadsTo path s inner) :
    ∃ name rest, inner = .named name inner.value :: rest := by
  rcases h with ⟨hpath, added, rfl, hlength, hnamed⟩
  cases added with
  | nil => exact absurd hlength.symm (Nat.ne_of_gt (stepCount_pos hpath))
  | cons e added =>
    cases e with
    | named name value => exact ⟨name, added ++ s, rfl⟩
    | index i value => exact (hnamed _ List.mem_cons_self).elim

theorem sound_root (data : Value) : Sound data [.named "" data] where
  rooted := rfl
  indexed := by
    intro i item outer h
    rcases List.suffix_cons_iff.1 h with heq | hnil
    . cases heq
    . cases List.suffix_nil.1 hnil

theorem Sound.getLast?_cons (h : s.Sound data) (e : Entry) :
    (e :: s).getLast? = some (.named "" data) := by
  rw [List.getLast?_cons, h.rooted]
  rfl

theorem Sound.named (h : s.Sound data) (name : String) (value : Value) :
    Sound data (.named name value :: s) where
  rooted := h.getLast?_cons _
  indexed := by
    intro i item outer hsuffix
    rcases List.suffix_cons_iff.1 hsuffix with heq | hsuffix
    . cases heq
    . exact h.indexed i item outer hsuffix

theorem Sound.index {name : String} {list item : Value} {items : List Value} {i : Nat}
    (h : Sound data (.named name list :: s)) (hitems : list.items? = some items)
    (hitem : items[i]? = some item) : Sound data (.index i item :: .named name list :: s) where
  rooted := h.getLast?_cons _
  indexed := by
    intro j other outer hsuffix
    rcases List.suffix_cons_iff.1 hsuffix with heq | hsuffix
    . cases heq
      exact ⟨name, list, items, s, rfl, hitems, hitem⟩
    . exact h.indexed j other outer hsuffix

theorem Sound.append {added : List Entry} (h : s.Sound data) (hnamed : ∀ e ∈ added, e.IsNamed) :
    Sound data (added ++ s) := by
  induction added with
  | nil => exact h
  | cons e added ih =>
    rw [List.forall_mem_cons] at hnamed
    cases e with
    | named name value => exact (ih hnamed.2).named name value
    | index i value => exact hnamed.1.elim

theorem Sound.of_leadsTo (h : s.Sound data) (hleads : LeadsTo path s inner) : inner.Sound data := by
  rcases hleads with ⟨-, added, rfl, -, hnamed⟩
  exact h.append hnamed

theorem Sound.of_suffix {part : Scope} (h : s.Sound data) (hpart : part <:+ s) (hne : part ≠ []) :
    part.Sound data where
  rooted := by
    rcases hpart with ⟨added, rfl⟩
    rw [← h.rooted, List.getLast?_append_of_ne_nil _ hne]
  indexed := by
    intro i item outer hsuffix
    exact h.indexed i item outer (hsuffix.trans hpart)

end Scope

open Scope

def SectionKind.Admits (kind : SectionKind) (value : Value) : Prop :=
  value.isTruthy = (kind != .ifAbsent)

/--
The steps of rendering nodes one after the other, all of them in the same scope. A path leads from
this scope to another, in which the body of a section is rendered; for a list there is one more step
to each item, and the body is rendered behind that one.
-/
inductive Walk : Scope → List Node → List Step → Prop
  | done {s : Scope} : Walk s [] []
  | literal {s : Scope} {text : String} {ns : List Node} {steps : List Step} :
    Walk s ns steps → Walk s (.literal text :: ns) (.literal text :: steps)
  | lineEnd {s : Scope} {ns : List Node} {steps : List Step} :
    Walk s ns steps → Walk s (.lineEnd :: ns) (.lineEnd :: steps)
  | continuation {s : Scope} {ns : List Node} {steps : List Step} :
    Walk s ns steps → Walk s (.continuation :: ns) steps
  | emit {s inner : Scope} {path : Path} {ns : List Node} {steps : List Step} :
    LeadsTo path s inner → Walk s ns steps → Walk s (.emit path :: ns) (.emit inner :: steps)
  | skip {s inner : Scope} {kind : SectionKind} {path : Path} {body ns : List Node}
      {steps : List Step} :
    LeadsTo path s inner → ¬ kind.Admits inner.value → Walk s ns steps →
      Walk s (.block kind path body :: ns) (.enter inner :: steps)
  | once {s inner : Scope} {kind : SectionKind} {path : Path} {body ns : List Node}
      {run steps : List Step} :
    LeadsTo path s inner → kind.Admits inner.value →
      (kind = .each → inner.value.items? = none) → Walk inner body run → Walk s ns steps →
      Walk s (.block kind path body :: ns) (.enter inner :: (run ++ steps))
  | each {s inner : Scope} {path : Path} {body ns : List Node} {items : List Value}
      {run : Value × Nat → List Step} {steps : List Step} :
    LeadsTo path s inner → inner.value.items? = some items →
      (∀ item i, items[i]? = some item → Walk (.index i item :: inner) body (run (item, i))) →
      Walk s ns steps →
      Walk s (.block .each path body :: ns)
        (.enter inner ::
          (items.zipIdx.flatMap (fun p => .enter (.index p.2 p.1 :: inner) :: run p) ++ steps))

def Step.scope? : Step → Option Scope
  | .literal _ => none
  | .lineEnd => none
  | .enter scope => some scope
  | .emit scope => some scope

theorem filterMap_scope?_enter (scope : Scope) (steps : List Step) :
    (Step.enter scope :: steps).filterMap Step.scope? = scope :: steps.filterMap Step.scope? := rfl

theorem Walk.sound {data : Value} {s : Scope} {ns : List Node} {steps : List Step}
    (h : Walk s ns steps) (hs : s.Sound data) :
    ∀ scope ∈ steps.filterMap Step.scope?, scope.Sound data := by
  induction h with
  | done => simp
  | literal _ ih => exact ih hs
  | lineEnd _ ih => exact ih hs
  | continuation _ ih => exact ih hs
  | emit hleads _ ih => exact List.forall_mem_cons.2 ⟨hs.of_leadsTo hleads, ih hs⟩
  | skip hleads _ _ ih => exact List.forall_mem_cons.2 ⟨hs.of_leadsTo hleads, ih hs⟩
  | once hleads _ _ _ _ ihbody ih =>
    have hinner := hs.of_leadsTo hleads
    rw [filterMap_scope?_enter, List.filterMap_append, List.forall_mem_cons,
      List.forall_mem_append]
    exact ⟨hinner, ihbody hinner, ih hs⟩
  | @each s inner path body ns items run steps hleads hitems _ _ ihbody ih =>
    have hinner := hs.of_leadsTo hleads
    rw [filterMap_scope?_enter, List.filterMap_append, List.forall_mem_cons,
      List.forall_mem_append]
    refine ⟨hinner, ?_, ih hs⟩
    rw [List.filterMap_flatMap]
    intro scope hscope
    obtain ⟨⟨item, i⟩, hmem, hscope⟩ := List.mem_flatMap.1 hscope
    have hitem : items[i]? = some item := List.mem_zipIdx_iff_getElem?.1 hmem
    obtain ⟨name, rest, hlist⟩ := hleads.exists_eq_cons
    -- The step to an item stands directly behind the one to its list, where the path has led.
    have hindex : Sound data (.index i item :: inner) := by
      rw [hlist] at hinner ⊢
      exact hinner.index hitems hitem
    rw [filterMap_scope?_enter] at hscope
    rcases List.mem_cons.1 hscope with rfl | hscope
    . exact hindex
    . exact ihbody item i hitem hindex scope hscope

section Parse

variable {text : String} {t : Template}

theorem spelled_of_mem_layOut {before ds : List Directive} (h : ∀ d ∈ ds, d.Spelled) :
    ∀ d ∈ Directive.layOut before ds, d.Spelled := by
  induction ds generalizing before with
  | nil => simp [Directive.layOut]
  | cons d ds ih =>
    rw [List.forall_mem_cons] at h
    rw [Directive.layOut, List.forall_mem_append]
    refine ⟨?_, ih h.2⟩
    intro d' hd'
    unfold Directive.laidOut at hd'
    split at hd'
    . split at hd'
      . cases hd'
      . rw [List.mem_singleton.1 hd']
        trivial
    . split at hd' <;>
      . rw [List.mem_singleton.1 hd']
        trivial
    . rw [List.mem_singleton.1 hd']
      exact h.1

theorem spelled_of_parse (h : parse text = .ok t) : ∀ d ∈ unfoldAll t.nodes, d.Spelled := by
  rcases Except.bind_eq_ok_iff.1 h with ⟨ls, hls, h⟩
  rcases Except.bind_eq_ok_iff.1 h with ⟨nodes, hnodes, ht⟩
  cases ht
  have hspelled := Located.spelled_of_ofText hls
  have hnest := unfoldAll_of_nest hspelled (by simp) hnodes
  have htidy := unfoldAll_tidyAll nodes []
  rw [Directive.asBefore, hnest] at htidy
  rw [htidy]
  apply spelled_of_mem_layOut
  simpa [unfoldOpen, unfoldAll] using hspelled

end Parse

theorem walk_stepsAll (root : Value) (scope : Scope) (ns : List Node)
    (h : ∀ d ∈ unfoldAll ns, d.Spelled) : Walk scope ns (stepsAll root scope ns) := by
  match ns with
  | [] => exact .done
  | n :: ns =>
    rw [unfoldAll, List.forall_mem_append] at h
    have hrest := walk_stepsAll root scope ns h.2
    rw [stepsAll]
    cases n with
    | literal text =>
      rw [Node.steps]
      exact .literal hrest
    | lineEnd =>
      rw [Node.steps]
      exact .lineEnd hrest
    | continuation =>
      rw [Node.steps]
      exact .continuation hrest
    | emit path =>
      have hpath : path.Spelled := h.1 (.emit path) List.mem_cons_self
      rw [Node.steps]
      exact .emit (leadsTo_follow root scope hpath.1) hrest
    | block kind path body =>
      rw [Node.unfold, List.forall_mem_cons, List.forall_mem_append] at h
      have hleads := leadsTo_follow root scope h.1.1.1
      have hbody (inner : Scope) := walk_stepsAll root inner body h.1.2.1
      -- Only a section of the kind that iterates goes through a list, and only if there is one.
      by_cases hitems : kind = .each ∧ ∃ items, (scope.follow root path).value.items? = some items
      . obtain ⟨rfl, items, hitems⟩ := hitems
        rw [steps_block_of_items hitems]
        exact .each hleads hitems (fun item i _ => hbody (.index i item :: _)) hrest
      . have honce : kind = .each → (scope.follow root path).value.items? = none := by
          intro hkind
          apply Option.eq_none_iff_forall_not_mem.2
          intro items hsome
          exact hitems ⟨hkind, items, hsome⟩
        rw [steps_block_of_once honce]
        split
        . next hadmits => exact .once hleads hadmits honce (hbody _) hrest
        . next hadmits => exact .skip hleads hadmits hrest

/--
Rendering an accepted template is a walk from the data, and every scope that it comes to, also on the
way along a path, is sound.
-/
theorem exists_walk_and_sound_of_parse {text : String} {t : Template} (h : parse text = .ok t)
    (data : Value) :
    (∃ run, t.steps data = .enter [.named "" data] :: run ∧ Walk [.named "" data] t.nodes run) ∧
      ∀ scope ∈ (t.steps data).filterMap Step.scope?, ∀ part, part <:+ scope → part ≠ [] →
        Sound data part := by
  have hwalk := walk_stepsAll data [.named "" data] t.nodes (spelled_of_parse h)
  refine ⟨⟨_, rfl, hwalk⟩, ?_⟩
  intro scope hscope part hpart hne
  have hsound : scope.Sound data := by
    rcases List.mem_cons.1 hscope with rfl | hscope
    . exact sound_root data
    . exact hwalk.sound (sound_root data) scope hscope
  exact hsound.of_suffix hpart hne

def tableText : String :=
  "\x7b\x7b#a.rows\x7d\x7d\x7b\x7b#cells.list\x7d\x7d\x7b\x7b.\x7d\x7d,\x7b\x7b/cells.list\x7d\x7d" ++
    "\x7b\x7b^rows\x7d\x7d\x7b\x7b.title\x7d\x7d\x7b\x7b/rows\x7d\x7d\x7b\x7b/a.rows\x7d\x7d\x7b\x7btitle\x7d\x7d"

def tableTemplate : Template where
  nodes := [
    .block .each ["a", "rows"] [
      .block .each ["cells", "list"] [.emit ["", ""], .literal ","],
      .block .ifAbsent ["rows"] [.emit ["", "title"]]],
    .emit ["title"]]

def tableData : Value :=
  .map [
    ("a", .map [("rows", .list [.map [("cells", .map [("list", .list [.int 1, .int 2])])], .null])]),
    ("title", .text "t")]

theorem exists_walk_and_sound_of_parse_table :
    parse tableText = .ok tableTemplate ∧
      (∃ run, tableTemplate.steps tableData = .enter [.named "" tableData] :: run ∧
        Walk [.named "" tableData] tableTemplate.nodes run) ∧
      ∀ scope ∈ (tableTemplate.steps tableData).filterMap Step.scope?, ∀ part, part <:+ scope →
        part ≠ [] → Sound tableData part := by
  have hparse : parse tableText = .ok tableTemplate := by
    cbv
  exact ⟨hparse, exists_walk_and_sound_of_parse hparse tableData⟩

end IdlCompiler.Template
