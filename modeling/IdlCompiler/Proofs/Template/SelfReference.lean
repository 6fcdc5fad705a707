import IdlCompiler.Proofs.Template.Rendering
import Mathlib.Data.List.Basic

/-!
This module contains what the name of a section over a list means inside of it: the current item,
whatever else has this name. So emissions of the name can be replaced by the text of the item.
-/

namespace IdlCompiler.Template

namespace Scope

variable {n : String} {item root : Value} {s : Scope}

/--
A name that starts a path leads to the current item of a list, and does so as long as nothing of
this name is entered.
-/
structure Iterates (n : String) (item : Value) (s : Scope) : Prop where
  iterated : s.iterated? n = some item
  apart : ∀ v rest, s ≠ .named n v :: rest

theorem iterates_index {i : Nat} {list : Value} {items : List Value} {rest : Scope}
    (h : list.items? = some items) : Iterates n item (.index i item :: .named n list :: rest) where
  iterated := by
    rw [iterated?, if_pos ⟨rfl, by rw [h]; rfl⟩]
  apart := by
    intro v rest heq
    cases heq

theorem Iterates.cons {e : Entry} (h : Iterates n item s) (he : ∀ v, e ≠ .named n v) :
    Iterates n item (e :: s) where
  iterated := by
    cases e with
    | named m v => exact h.iterated
    | index i v =>
      cases s with
      | nil => exact h.iterated
      | cons first rest =>
        cases first with
        | index j w => exact h.iterated
        | named m list =>
          have hm : m ≠ n := by
            rintro rfl
            exact h.apart list rest rfl
          rw [iterated?, if_neg fun hand => hm hand.1]
          exact h.iterated
  apart := by
    intro v rest heq
    exact he v (List.cons.inj heq).1

theorem Iterates.named {m : String} (h : Iterates n item s) (hm : m ≠ n) (v : Value) :
    Iterates n item (.named m v :: s) := by
  apply h.cons
  intro w heq
  exact hm (Entry.named.inj heq).1

theorem Iterates.index (h : Iterates n item s) (i : Nat) (v : Value) :
    Iterates n item (.index i v :: s) := by
  apply h.cons
  intro w heq
  cases heq

theorem Iterates.followFirst {m : String} (h : Iterates n item s) (hm : m ≠ n) :
    Iterates n item (s.followFirst root m) := by
  unfold Scope.followFirst
  split
  . next hempty =>
    apply h.named
    rw [← hempty]
    exact hm
  . exact h.named hm _

theorem Iterates.foldl_followNext {names : List String} (h : Iterates n item s)
    (hnames : n ∉ names) : Iterates n item (names.foldl followNext s) := by
  induction names generalizing s with
  | nil => exact h
  | cons m names ih =>
    rw [List.mem_cons, not_or] at hnames
    rw [List.foldl_cons]
    apply ih _ hnames.2
    exact h.named (Ne.symm hnames.1) _

theorem Iterates.follow {path : Path} (h : Iterates n item s) (hdot : n ≠ ".") (hpath : n ∉ path) :
    Iterates n item (s.follow root path) := by
  unfold Scope.follow
  split
  . exact h.named (Ne.symm hdot) _
  . split
    . exact h
    . next m names _ =>
      rw [List.mem_cons, not_or] at hpath
      apply Iterates.foldl_followNext _ hpath.2
      exact h.followFirst (Ne.symm hpath.1)

theorem Iterates.value_follow (h : Iterates n item s) (hn : n ≠ "") :
    (s.follow root [n]).value = item := by
  rw [follow_singleton hn, h.iterated]
  rfl

inductive Leads (root : Value) (n : String) : Scope → Scope → Prop
  | refl {s : Scope} : Leads root n s s
  | once {s inner : Scope} {path : Path} :
    n ∉ path → Leads root n (s.follow root path) inner → Leads root n s inner
  | item {s inner : Scope} {path : Path} {i : Nat} {v : Value} :
    n ∉ path → Leads root n (.index i v :: s.follow root path) inner → Leads root n s inner

theorem Iterates.leads {inner : Scope} (h : Iterates n item s) (hdot : n ≠ ".")
    (hleads : Leads root n s inner) : Iterates n item inner := by
  induction hleads with
  | refl => exact h
  | once hpath _ ih => exact ih (h.follow hdot hpath)
  | item hpath _ ih => exact ih ((h.follow hdot hpath).index _ _)

end Scope

open Scope

mutual

/--
Some emissions of a name in a node are replaced by a text. There must be no section around them
whose path has the name in it.
-/
inductive Node.Filled (n text : String) : Node → Node → Prop
  | emission : Node.Filled n text (.emit [n]) (.literal text)
  | block {kind : SectionKind} {path : Path} {body body' : List Node} :
    n ∉ path → FilledAll n text body body' →
      Node.Filled n text (.block kind path body) (.block kind path body')
  | kept {node : Node} : Node.Filled n text node node

inductive FilledAll (n text : String) : List Node → List Node → Prop
  | nil : FilledAll n text [] []
  | cons {node node' : Node} {rest rest' : List Node} :
    Node.Filled n text node node' → FilledAll n text rest rest' →
      FilledAll n text (node :: rest) (node' :: rest')

end

section Filled

variable {n : String} {item root : Value}

mutual

theorem map_text_steps_of_filled (hn : n ≠ "") (hdot : n ≠ ".") {scope : Scope}
    (hscope : Iterates n item scope) (node : Node) {node' : Node}
    (h : node.Filled n item.emitted node') :
    (node.steps root scope).map Step.text = (node'.steps root scope).map Step.text := by
  cases h with
  | kept => rfl
  | emission =>
    have hvalue : (scope.follow root [n]).value = item := hscope.value_follow hn
    rw [Node.steps, Node.steps, List.map_singleton, List.map_singleton, Step.text, Step.text,
      hvalue]
  | @block kind path body body' hpath hbody =>
    have hinner : Iterates n item (scope.follow root path) := hscope.follow hdot hpath
    apply map_text_steps_block_congr
    . intro i other
      exact map_text_stepsAll_of_filled hn hdot (hinner.index i other) body hbody
    . exact map_text_stepsAll_of_filled hn hdot hinner body hbody

theorem map_text_stepsAll_of_filled (hn : n ≠ "") (hdot : n ≠ ".") {scope : Scope}
    (hscope : Iterates n item scope) (ns : List Node) {ns' : List Node}
    (h : FilledAll n item.emitted ns ns') :
    (stepsAll root scope ns).map Step.text = (stepsAll root scope ns').map Step.text := by
  cases h with
  | nil => rfl
  | cons hfirst hrest =>
    rw [stepsAll, stepsAll, List.map_append, List.map_append,
      map_text_steps_of_filled hn hdot hscope _ hfirst,
      map_text_stepsAll_of_filled hn hdot hscope _ hrest]

end

end Filled

/--
A section over a list renders item by item, and an emission of its name in it, at any depth, renders
to the text of the current item: it is one step with this text, and the texts of all steps are those
with this text in its place.
-/
theorem map_text_steps_each_of_filled {n : String} (hn : n ≠ "") (hdot : '.' ∉ n.toList)
    {root : Value} {scope : Scope} {items : List Value}
    (hitems : (scope.follow root [n]).value.items? = some items) {body : List Node}
    {filled : Value → List Node}
    (hfilled : ∀ item ∈ items, FilledAll n item.emitted body (filled item)) :
    (∀ item i inner, Leads root n (.index i item :: scope.follow root [n]) inner →
      ((Node.emit [n]).steps root inner).map Step.text = [item.emitted]) ∧
    ((Node.block .each [n] body).steps root scope).map Step.text =
      "" :: items.zipIdx.flatMap fun (item, i) =>
        "" ::
          (stepsAll root (.index i item :: scope.follow root [n]) (filled item)).map Step.text := by
  have hdot' : n ≠ "." := by
    rintro rfl
    exact hdot (by decide)
  have hiterates (item : Value) (i : Nat) :
      Iterates n item (.index i item :: scope.follow root [n]) := by
    rw [follow_singleton hn] at hitems ⊢
    exact iterates_index hitems
  have hitem : ∀ entry ∈ items.zipIdx,
      (stepsAll root (.index entry.2 entry.1 :: scope.follow root [n]) body).map Step.text =
        (stepsAll root (.index entry.2 entry.1 :: scope.follow root [n]) (filled entry.1)).map
          Step.text := by
    intro entry hentry
    apply map_text_stepsAll_of_filled hn hdot' (hiterates entry.1 entry.2)
    exact hfilled entry.1 (List.fst_mem_of_mem_zipIdx hentry)
  constructor
  . intro item i inner hleads
    have hinner := (hiterates item i).leads hdot' hleads
    rw [Node.steps, List.map_singleton, Step.text, hinner.value_follow hn]
  . rw [steps_block_of_items hitems, List.map_cons, List.map_flatMap]
    refine congrArg (List.cons "") (List.flatMap_congr ?_)
    intro entry hentry
    rw [List.map_cons, hitem entry hentry]
    rfl

def shadowingText : String :=
  "\x7b\x7b#n\x7d\x7d\x7b\x7b#b\x7d\x7d\x7b\x7bn\x7d\x7d,\x7b\x7b/b\x7d\x7d\x7b\x7bn\x7d\x7d" ++
    "\x7b\x7b?n.b\x7d\x7d\x7b\x7bn\x7d\x7d\x7b\x7b/n.b\x7d\x7d\x7b\x7b/n\x7d\x7d"

def shadowingItem : Value :=
  .map [("b", .list [.int 1, .map [("n", .text "inner")]]), ("n", .text "member")]

def shadowingData : Value :=
  .map [("n", .list [shadowingItem, .null])]

def shadowingBody : List Node :=
  [.block .each ["b"] [.emit ["n"], .literal ","], .emit ["n"],
    .block .ifPresent ["n", "b"] [.emit ["n"]]]

def shadowingFilled (item : Value) : List Node :=
  [.block .each ["b"] [.literal item.emitted, .literal ","], .literal item.emitted,
    .block .ifPresent ["n", "b"] [.emit ["n"]]]

def shadowingScope (v : Value) : Scope :=
  .index 1 v :: Scope.follow shadowingData
    (.index 0 shadowingItem :: Scope.follow shadowingData [.named "" shadowingData] ["n"]) ["b"]

theorem map_text_steps_each_of_filled_shadowing :
    parse shadowingText = .ok ⟨[.block .each ["n"] shadowingBody]⟩ ∧
      (Scope.follow shadowingData [.named "" shadowingData] ["n"]).value.items? =
        some [shadowingItem, .null] ∧
      (∀ item ∈ [shadowingItem, .null],
        FilledAll "n" item.emitted shadowingBody (shadowingFilled item)) ∧
      ((Node.emit ["n"]).steps shadowingData
          (shadowingScope (.map [("n", .text "inner")]))).map Step.text =
        [shadowingItem.emitted] ∧
      ((Node.block .each ["n"] shadowingBody).steps shadowingData
          [.named "" shadowingData]).map Step.text =
        "" :: [shadowingItem, .null].zipIdx.flatMap fun (item, i) =>
          "" :: (stepsAll shadowingData
            (.index i item :: Scope.follow shadowingData [.named "" shadowingData] ["n"])
            (shadowingFilled item)).map Step.text := by
  have hparse : parse shadowingText = .ok ⟨[.block .each ["n"] shadowingBody]⟩ := by
    cbv
  have hitems : (Scope.follow shadowingData [.named "" shadowingData] ["n"]).value.items? =
      some [shadowingItem, .null] := by
    rfl
  have hfilled : ∀ item ∈ [shadowingItem, .null],
      FilledAll "n" item.emitted shadowingBody (shadowingFilled item) := by
    intro item _
    refine .cons (.block (by decide) (.cons .emission (.cons .kept .nil))) ?_
    exact .cons .emission (.cons .kept .nil)
  obtain ⟨hemission, hsection⟩ :=
    map_text_steps_each_of_filled (n := "n") (by decide) (by decide) hitems hfilled
  refine ⟨hparse, hitems, hfilled, ?_, hsection⟩
  exact hemission shadowingItem 0 _ (.item (by decide) .refl)

end IdlCompiler.Template
