import IdlCompiler.Template.Render

/-!
This module contains the steps of sections: those of their bodies, in the scope of each item of a
list, or once in the scope of another value. It also contains what a path of one name leads to.
-/

namespace IdlCompiler

theorem Value.isTruthy_of_items? {v : Value} {items : List Value} (h : v.items? = some items) :
    v.isTruthy = !items.isEmpty := by
  unfold Value.items? at h
  unfold Value.isTruthy
  split at h
  . next htarget =>
    cases h
    rw [htarget]
  . next htarget =>
    cases h
    rw [htarget]
    rfl
  . cases h

namespace Template

variable {root : Value} {scope : Scope} {kind : SectionKind} {path : Path} {body : List Node}

theorem Scope.follow_singleton {n : String} (hn : n ≠ "") :
    scope.follow root [n] =
      .named n (((scope.iterated? n).or ((scope.entered? n).or (scope.member? n))).getD .null) ::
        scope := by
  have hpath : ¬ (2 ≤ [n].length ∧ [n].all (· = "")) := by
    simp
  unfold Scope.follow
  rw [if_neg hpath]
  exact if_neg hn

theorem steps_block_of_items {items : List Value}
    (h : (scope.follow root path).value.items? = some items) :
    (Node.block .each path body).steps root scope =
      .enter (scope.follow root path) :: items.zipIdx.flatMap fun (item, i) =>
        .enter (.index i item :: scope.follow root path) ::
          stepsAll root (.index i item :: scope.follow root path) body := by
  unfold Node.steps
  dsimp only
  rw [h, Value.isTruthy_of_items? h]
  cases items <;> rfl

theorem steps_block_of_once (h : kind = .each → (scope.follow root path).value.items? = none) :
    (Node.block kind path body).steps root scope =
      .enter (scope.follow root path) ::
        if (scope.follow root path).value.isTruthy = (kind != .ifAbsent) then
          stepsAll root (scope.follow root path) body
        else
          [] := by
  unfold Node.steps
  dsimp only
  cases kind with
  | each => rw [h rfl]
  | _ => rfl

theorem map_text_steps_block_congr {body' : List Node}
    (hitem : ∀ i item,
      (stepsAll root (.index i item :: scope.follow root path) body).map Step.text =
        (stepsAll root (.index i item :: scope.follow root path) body').map Step.text)
    (honce : (stepsAll root (scope.follow root path) body).map Step.text =
      (stepsAll root (scope.follow root path) body').map Step.text) :
    ((Node.block kind path body).steps root scope).map Step.text =
      ((Node.block kind path body').steps root scope).map Step.text := by
  by_cases hitems : kind = .each ∧ ∃ items, (scope.follow root path).value.items? = some items
  . obtain ⟨rfl, items, hitems⟩ := hitems
    rw [steps_block_of_items hitems, steps_block_of_items hitems, List.map_cons, List.map_cons,
      List.map_flatMap, List.map_flatMap]
    simp only [List.map_cons, hitem]
  . have hnone : kind = .each → (scope.follow root path).value.items? = none := by
      intro hkind
      apply Option.eq_none_iff_forall_not_mem.2
      intro items hsome
      exact hitems ⟨hkind, items, hsome⟩
    rw [steps_block_of_once hnone, steps_block_of_once hnone, List.map_cons, List.map_cons]
    split
    . rw [honce]
    . rfl

theorem stepsAll_append (root : Value) (scope : Scope) (xs ys : List Node) :
    stepsAll root scope (xs ++ ys) = stepsAll root scope xs ++ stepsAll root scope ys := by
  induction xs with
  | nil => rfl
  | cons n xs ih => rw [List.cons_append, stepsAll, stepsAll, ih, List.append_assoc]

def textAll (root : Value) (scope : Scope) (ns : List Node) : String :=
  String.join ((stepsAll root scope ns).map Step.text)

theorem render_eq_textAll (t : Template) (data : Value) :
    t.render data = textAll data [.named "" data] t.nodes := by
  unfold render steps textAll
  rw [List.map_cons, String.join_cons]
  exact String.empty_append

theorem textAll_append (root : Value) (scope : Scope) (xs ys : List Node) :
    textAll root scope (xs ++ ys) = textAll root scope xs ++ textAll root scope ys := by
  unfold textAll
  rw [stepsAll_append, List.map_append, String.join_append]

theorem textAll_cons (root : Value) (scope : Scope) (n : Node) (ns : List Node) :
    textAll root scope (n :: ns) = textAll root scope [n] ++ textAll root scope ns :=
  textAll_append root scope [n] ns

theorem join_flatMap {α : Type} (xs : List α) (f : α → List String) :
    String.join (xs.flatMap f) = String.join (xs.map fun x => String.join (f x)) := by
  induction xs with
  | nil => rfl
  | cons x xs ih =>
    rw [List.flatMap_cons, String.join_append, ih, List.map_cons, String.join_cons]

theorem textAll_block_of_items {items : List Value}
    (h : (scope.follow root path).value.items? = some items) :
    textAll root scope [.block .each path body] =
      String.join (items.zipIdx.map fun (item, i) =>
        textAll root (.index i item :: scope.follow root path) body) := by
  unfold textAll
  rw [stepsAll, stepsAll, steps_block_of_items h, List.append_nil, List.map_cons, String.join_cons,
    List.map_flatMap, join_flatMap]
  simp only [Step.text, List.map_cons, String.join_cons, String.empty_append]

theorem textAll_block_of_once (h : kind = .each → (scope.follow root path).value.items? = none) :
    textAll root scope [.block kind path body] =
      if (scope.follow root path).value.isTruthy = (kind != .ifAbsent) then
        textAll root (scope.follow root path) body
      else
        "" := by
  unfold textAll
  rw [stepsAll, stepsAll, steps_block_of_once h, List.append_nil, List.map_cons, String.join_cons]
  split
  . exact String.empty_append
  . rfl

end Template

end IdlCompiler
