import IdlCompiler.Proofs.Dependency.Reachability

/-!
This module contains the graphs that can arise from the empty one: nodes and references are recorded
and orders are computed, in any number and succession.
-/

namespace IdlCompiler.Graph

inductive Action where
  | add (name : String)
  | use (user used : String)
  | order

def act (g : Graph) : Action → Graph
  | .add name => g.add name
  | .use user used => g.use user used
  | .order => g.order.2

def ofActions (actions : List Action) : Graph :=
  actions.foldl act {}

def Action.nodes : Action → List String
  | .add name => [name]
  | .use user used => if user = deferred ∨ used = deferred then [] else [user, used]
  | .order => []

/--
An action makes `user` refer to `used`. No name refers to itself, and none to or from the type that
is bound late.
-/
def Action.Records (action : Action) (user used : String) : Prop :=
  action = .use user used ∧ user ≠ used ∧ user ≠ deferred ∧ used ≠ deferred

structure WellFormed (g : Graph) : Prop where
  nodup : g.names.Nodup
  mem_names {user used : String} : g.Uses user used → user ∈ g.names ∧ used ∈ g.names

theorem mem_names_add {g : Graph} {name other : String} :
    other ∈ (g.add name).names ↔ other ∈ g.names ∨ other = name := by
  unfold add
  split
  . next hmem =>
    constructor
    . exact Or.inl
    . rintro (h | rfl)
      . exact h
      . exact hmem
  . simp

theorem edges_add (g : Graph) (name : String) : (g.add name).edges = g.edges := by
  unfold add
  split <;> rfl

theorem uses_add_iff {g : Graph} {name user used : String} :
    (g.add name).Uses user used ↔ g.Uses user used := by
  unfold Uses
  rw [edges_add]

theorem mem_names_act_iff {g : Graph} {action : Action} {name : String} :
    name ∈ (g.act action).names ↔ name ∈ g.names ∨ name ∈ action.nodes := by
  cases action with
  | add other => simp [act, Action.nodes, mem_names_add]
  | order => simp [act, Action.nodes, order, withDepths]
  | use user used =>
    simp only [act, Action.nodes, use]
    split
    . simp
    . split
      . next heq => simp [heq, mem_names_add]
      . -- Whether the reference is a new one does not matter for the nodes.
        have : name ∈ ((g.add user).add used).names ↔ name ∈ g.names ∨ name ∈ [user, used] := by
          simp [mem_names_add, or_assoc]
        split <;> exact this

theorem uses_act_iff {g : Graph} {action : Action} {user used : String} :
    (g.act action).Uses user used ↔ g.Uses user used ∨ action.Records user used := by
  cases action with
  | add name => simp [act, Action.Records, uses_add_iff]
  | order => simp [act, Action.Records, order, withDepths, Uses]
  | use a b =>
    simp only [act, Action.Records, Action.use.injEq, use]
    split
    . grind
    . split
      . rw [uses_add_iff]
        grind
      . have hold : ((g.add a).add b).Uses user used ↔ g.Uses user used := by
          rw [uses_add_iff, uses_add_iff]
        rw [← hold]
        unfold Uses
        split <;> grind

theorem foldl_act_iff {P : Graph → Prop} {Q : Action → Prop}
    (hact : ∀ g action, P (g.act action) ↔ P g ∨ Q action) (actions : List Action) (g : Graph) :
    P (actions.foldl act g) ↔ P g ∨ ∃ action ∈ actions, Q action := by
  induction actions generalizing g with
  | nil => simp
  | cons action actions ih =>
    rw [List.foldl_cons, ih, hact]
    simp [or_assoc]

theorem mem_names_ofActions_iff {actions : List Action} {name : String} :
    name ∈ (ofActions actions).names ↔ ∃ action ∈ actions, name ∈ action.nodes := by
  have h := foldl_act_iff (P := fun g => name ∈ g.names) (fun _ _ => mem_names_act_iff) actions {}
  rw [ofActions, h]
  simp

theorem uses_ofActions_iff {actions : List Action} {user used : String} :
    (ofActions actions).Uses user used ↔ ∃ action ∈ actions, action.Records user used := by
  have h := foldl_act_iff (P := fun g => g.Uses user used) (fun _ _ => uses_act_iff) actions {}
  rw [ofActions, h]
  simp [Uses]

namespace WellFormed

variable {g : Graph}

theorem empty : WellFormed {} where
  nodup := List.nodup_nil
  mem_names h := by simp [Uses] at h

theorem add (hg : g.WellFormed) (name : String) : (g.add name).WellFormed where
  nodup := by
    unfold Graph.add
    split
    . exact hg.nodup
    . next hmem => exact List.nodup_append.2 ⟨hg.nodup, by simp, by grind⟩
  mem_names h := by
    unfold Uses at h
    rw [edges_add] at h
    have := hg.mem_names h
    exact ⟨mem_names_add.2 (.inl this.1), mem_names_add.2 (.inl this.2)⟩

theorem use (hg : g.WellFormed) (user used : String) : (g.use user used).WellFormed := by
  unfold Graph.use
  split
  . exact hg
  . split
    . exact hg.add user
    -- Both ends are nodes by now, so a new reference keeps the graph well-formed.
    . have hadd := (hg.add user).add used
      dsimp only
      split
      . exact hadd
      . refine ⟨hadd.nodup, ?_⟩
        intro a b hab
        rcases List.mem_append.1 hab with hold | hnew
        . exact hadd.mem_names hold
        . simp only [List.mem_singleton, Prod.mk.injEq] at hnew
          simp [mem_names_add, hnew]

theorem withDepths (hg : g.WellFormed) : g.withDepths.WellFormed :=
  ⟨hg.nodup, hg.mem_names⟩

theorem act (hg : g.WellFormed) (action : Action) : (g.act action).WellFormed := by
  cases action with
  | add name => exact hg.add name
  | use user used => exact hg.use user used
  | order => exact hg.withDepths

end WellFormed

theorem wellFormed_ofActions (actions : List Action) : (ofActions actions).WellFormed :=
  List.foldlRecOn actions act .empty fun _ hg action _ => hg.act action

theorem depths_act {g : Graph} {action : Action} (h : action ≠ .order) :
    (g.act action).depths = g.depths := by
  have hadd (g : Graph) (name : String) : (g.add name).depths = g.depths := by
    unfold add
    split <;> rfl
  cases action with
  | add name => exact hadd g name
  | order => exact absurd rfl h
  | use user used =>
    unfold act use
    dsimp only
    split
    . rfl
    . split
      . exact hadd g user
      . split
        . rw [hadd, hadd]
        . exact (hadd _ used).trans (hadd g user)

theorem depths_ofActions {actions : List Action} (h : .order ∉ actions) :
    (ofActions actions).depths = [] := by
  have hempty : ({} : Graph).depths = [] := rfl
  refine List.foldlRecOn (motive := fun g => g.depths = []) actions act hempty ?_
  intro g hg action haction
  rw [depths_act, hg]
  rintro rfl
  exact h haction

end IdlCompiler.Graph
