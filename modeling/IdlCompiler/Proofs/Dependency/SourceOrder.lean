import IdlCompiler.Proofs.Dependency.Declarations
import IdlCompiler.Proofs.Dependency.Depth
import IdlCompiler.Proofs.Text.Sorted

/-!
This module contains that the order of declarations in their sources has no part in the dependency
order. Graphs with the same nodes and references have the same order if there is no cycle in them,
since all depths are heights then. With cycles the depths depend on where the search starts.
-/

namespace IdlCompiler

open Relation

namespace Graph

variable {g g' : Graph} {name : String}

structure Alike (g g' : Graph) : Prop where
  names : g.names.Perm g'.names
  uses (user used : String) : g.Uses user used ↔ g'.Uses user used

namespace Alike

theorem uses_eq (h : Alike g g') (name : String) : g.uses name = g'.uses name := by
  unfold Graph.uses
  apply Text.mergeSort_eq_of_perm
  rw [List.perm_ext_iff_of_nodup (Text.nodup_eraseDups _) (Text.nodup_eraseDups _)]
  intro used
  have hmem (g : Graph) : used ∈ ((g.edges.filter (·.1 = name)).map (·.2)).eraseDups ↔
      g.Uses name used := by
    rw [← mem_uses_iff, Graph.uses, List.mem_mergeSort]
  rw [hmem, hmem]
  exact h.uses name used

theorem reaches_iff (h : Alike g g') (a b : String) : g.Reaches a b ↔ g'.Reaches a b := by
  have huses : g.Uses = g'.Uses := by
    funext user used
    exact propext (h.uses user used)
  unfold Reaches
  rw [huses]

theorem isFree_eq (h : Alike g g') {e e' : Emission} (hunvisited : e.unvisited.Perm e'.unvisited)
    (name : String) : g.isFree e name = g'.isFree e' name := by
  rw [Bool.eq_iff_iff, isFree_iff, isFree_iff]
  simp only [h.uses, hunvisited.mem_iff]

theorem withDepths (h : Alike g g') : Alike g.withDepths g'.withDepths :=
  ⟨h.names, h.uses⟩

theorem depth?_eq (h : Alike g g') (hg : g.WellFormed) (hg' : g'.WellFormed)
    (hfresh : g.depths = []) (hfresh' : g'.depths = []) (hacyclic : ∀ n, ¬g.Reaches n n)
    (hname : name ∈ g.names) : g.withDepths.depth? name = g'.withDepths.depth? name := by
  have hgrounded : g.Grounded name := fun c _ => hacyclic c
  have hgrounded' : g'.Grounded name := by
    intro c _
    rw [← h.reaches_iff]
    exact hacyclic c
  rcases exists_depth?_withDepths hg hfresh hname hgrounded with ⟨depth, hdepth, hheight⟩
  rcases exists_depth?_withDepths hg' hfresh' (h.names.mem_iff.1 hname) hgrounded' with
    ⟨depth', hdepth', hheight'⟩
  rw [← isHeight_congr h.uses] at hheight'
  rw [hdepth, hdepth', hheight.unique hheight']

theorem children_eq (h : Alike g g') (hg : g.WellFormed)
    (hdepth : ∀ n ∈ g.names, g.depth? n = g'.depth? n) (name : String) :
    g.children name = g'.children name := by
  unfold children
  rw [← h.uses_eq name, ← List.map_id ((g.uses name).reverse.mergeSort _)]
  rw [List.map_mergeSort (f := id) (s := fun a b =>
    decide ((g'.depth? a).getD 0 ≤ (g'.depth? b).getD 0)), List.map_id]
  have hmem {used : String} (hused : used ∈ (g.uses name).reverse) : used ∈ g.names :=
    hg.mem_names_of_mem_uses name used (List.mem_reverse.1 hused)
  intro a ha b hb
  rw [hdepth a (hmem ha), hdepth b (hmem hb)]
  rfl

theorem emitFree (h : Alike g g') (hchildren : ∀ n, g.children n = g'.children n)
    {e e' : Emission} (hunvisited : e.unvisited.Perm e'.unvisited) (hemitted : e.emitted = e'.emitted)
    (names : List String) :
    (emitFree g e names).val.unvisited.Perm (emitFree g' e' names).val.unvisited ∧
      (emitFree g e names).val.emitted = (emitFree g' e' names).val.emitted := by
  -- Whether a node is free has nothing to do with the order of those that are left, so both runs
  -- come to the same case.
  fun_induction Graph.emitFree g e names generalizing e' with
  | case1 e =>
    rw [Graph.emitFree]
    exact ⟨hunvisited, hemitted⟩
  | case2 e name rest hfree _ e₁ _ hrun₁ e₂ _ hrun₂ ih₁ ih₂ =>
    have hfree' : name ∈ e'.unvisited ∧ g'.isFree e' name := by
      rw [← h.isFree_eq hunvisited, ← hunvisited.mem_iff]
      exact hfree
    rw [Graph.emitFree.eq_def g' e']
    simp only [dif_pos hfree']
    have hfirst := @ih₁ ⟨e'.unvisited.erase name, name :: e'.emitted⟩
      (hunvisited.erase name) (congrArg (name :: ·) hemitted)
    rw [hrun₁, hchildren] at hfirst
    have hrest := ih₂ hfirst.1 hfirst.2
    rw [hrun₂] at hrest
    exact hrest
  | case3 e name rest hfree ih =>
    have hfree' : ¬(name ∈ e'.unvisited ∧ g'.isFree e' name) := by
      rw [← h.isFree_eq hunvisited, ← hunvisited.mem_iff]
      exact hfree
    rw [Graph.emitFree.eq_def g' e']
    simp only [dif_neg hfree']
    exact ih hunvisited hemitted

theorem order_eq (h : Alike g g') (hg : g.WellFormed) (hg' : g'.WellFormed)
    (hfresh : g.depths = []) (hfresh' : g'.depths = []) (hacyclic : ∀ n, ¬g.Reaches n n) :
    g.order.1 = g'.order.1 := by
  have hchildren := h.withDepths.children_eq hg.withDepths
    fun n hn => h.depth?_eq hg hg' hfresh hfresh' hacyclic hn
  have hsorted : g.withDepths.names.mergeSort = g'.withDepths.names.mergeSort :=
    Text.mergeSort_eq_of_perm h.names
  have hemission := @emitFree _ _ h.withDepths hchildren ⟨g.names, []⟩ ⟨g'.names, []⟩ h.names rfl
    g.withDepths.names.mergeSort
  rw [hsorted] at hemission
  have hleftOver : g.withDepths.leftOver = g'.withDepths.leftOver := by
    unfold leftOver emission
    rw [hsorted]
    congr 1
    apply List.filter_congr
    intro n _
    rw [decide_eq_decide]
    exact hemission.1.mem_iff
  show emissionOrder g.withDepths = emissionOrder g'.withDepths
  rw [emissionOrder_eq, emissionOrder_eq, hleftOver]
  unfold emission
  rw [hsorted]
  exact congrArg (_ ++ ·) hemission.2

end Alike

theorem alike_ofActions {actions actions' : List Action}
    (h : ∀ action, action ∈ actions ↔ action ∈ actions') :
    Alike (ofActions actions) (ofActions actions') where
  names := by
    rw [List.perm_ext_iff_of_nodup (wellFormed_ofActions actions).nodup
      (wellFormed_ofActions actions').nodup]
    intro name
    simp only [mem_names_ofActions_iff, h]
  uses user used := by
    simp only [uses_ofActions_iff, h]

theorem order_ofActions_eq {actions actions' : List Action}
    (h : ∀ action, action ∈ actions ↔ action ∈ actions') (hrecord : .order ∉ actions)
    (hacyclic : ∀ n, ¬(ofActions actions).Reaches n n) :
    (ofActions actions).order.1 = (ofActions actions').order.1 := by
  have hrecord' : .order ∉ actions' := by
    rw [← h]
    exact hrecord
  exact (alike_ofActions h).order_eq (wellFormed_ofActions actions) (wellFormed_ofActions actions')
    (depths_ofActions hrecord) (depths_ofActions hrecord') hacyclic

theorem not_reaches_of_rank (rank : String → Nat)
    (h : ∀ edge ∈ g.edges, rank edge.2 < rank edge.1) (name : String) : ¬g.Reaches name name := by
  have hrank {a b : String} (hpath : g.Reaches a b) : rank b < rank a := by
    induction hpath with
    | single huse => exact h _ huse
    | tail _ huse ih => exact Nat.lt_trans (h _ huse) ih
  intro hcycle
  exact Nat.lt_irrefl _ (hrank hcycle)

end Graph

namespace Declaration

variable {builtin : String → Bool} {d d' : Declaration} {ds ds' : List Declaration}

inductive Rearranged : Declaration → Declaration → Prop
  | enum (e : Enum) : Rearranged (.enum e) (.enum e)
  | interface {i i' : Interface} : i.header = i'.header → i.base = i'.base →
      i.attributes.Perm i'.attributes → i.operations.Perm i'.operations →
      Rearranged (.interface i) (.interface i')

def Reordered (ds ds' : List Declaration) : Prop :=
  ∃ middle, ds.Perm middle ∧ List.Forall₂ Rearranged middle ds'

theorem Rearranged.name_eq (h : Rearranged d d') : d.name = d'.name := by
  cases h with
  | enum e => rfl
  | interface hheader _ _ _ => exact congrArg Header.name hheader

theorem Rearranged.actions_perm (h : Rearranged d d') :
    (d.actions builtin).Perm (d'.actions builtin) := by
  cases h with
  | enum e => exact .refl _
  | @interface i i' hheader hbase hattributes hoperations =>
    have htypes : i.memberTypes.Perm i'.memberTypes :=
      (hattributes.map _).append (hoperations.flatMap_right _)
    unfold actions
    dsimp only
    rw [hheader, hbase]
    apply List.Perm.cons
    apply List.Perm.map
    apply List.Perm.append_left
    exact (htypes.flatMap_right _).filter _

theorem Reordered.names_perm (h : Reordered ds ds') : (ds.map name).Perm (ds'.map name) := by
  rcases h with ⟨middle, hperm, hall⟩
  apply (hperm.map name).trans
  clear hperm
  induction hall with
  | nil => exact .nil
  | cons h _ ih =>
    rw [List.map_cons, List.map_cons, h.name_eq]
    exact ih.cons _

theorem Reordered.actions_perm (h : Reordered ds ds') :
    (ds.flatMap (actions builtin)).Perm (ds'.flatMap (actions builtin)) := by
  rcases h with ⟨middle, hperm, hall⟩
  apply (hperm.flatMap_right _).trans
  clear hperm
  induction hall with
  | nil => exact .nil
  | cons h _ ih =>
    rw [List.flatMap_cons, List.flatMap_cons]
    exact h.actions_perm.append ih

theorem order_not_mem_actions (builtin : String → Bool) (d : Declaration) :
    .order ∉ d.actions builtin := by
  unfold actions
  cases d <;> simp

theorem map_name_inOrder (builtin : String → Bool) (ds : List Declaration) :
    (inOrder builtin ds).map name =
      (Graph.ofDeclarations builtin ds).order.1.filter (· ∈ ds.map name) := by
  unfold inOrder
  rw [List.map_filterMap, ← List.filterMap_eq_filter]
  apply List.filterMap_congr
  intro n _
  cases hfind : ds.reverse.find? fun d => d.name = n with
  | none =>
    have hnone := List.find?_eq_none.1 hfind
    have hn : n ∉ ds.map name := by
      intro hmem
      rcases List.mem_map.1 hmem with ⟨d, hd, hname⟩
      exact hnone d (List.mem_reverse.2 hd) (decide_eq_true hname)
    simp [Option.guard, hn]
  | some d =>
    have hname : d.name = n := by simpa using List.find?_some hfind
    have hn : n ∈ ds.map name := by
      rw [← hname]
      exact List.mem_map_of_mem (List.mem_reverse.1 (List.mem_of_find?_eq_some hfind))
    simp [Option.guard, hn, hname]

/--
The names of declarations in dependency order stay the same if the declarations, and the members in
them, are given in another order, unless there is a cycle of references.
-/
theorem map_name_inOrder_eq_of_reordered (builtin : String → Bool) (ds ds' : List Declaration)
    (hacyclic : ∀ n, ¬(Graph.ofDeclarations builtin ds).Reaches n n) (h : Reordered ds ds') :
    (inOrder builtin ds').map name = (inOrder builtin ds).map name := by
  rw [Graph.ofDeclarations_eq_ofActions] at hacyclic
  have hrecord : .order ∉ ds.flatMap (actions builtin) := by
    intro hmem
    rcases List.mem_flatMap.1 hmem with ⟨d, -, hd⟩
    exact order_not_mem_actions builtin d hd
  have horder := Graph.order_ofActions_eq (fun _ => h.actions_perm.mem_iff) hrecord hacyclic
  rw [map_name_inOrder, map_name_inOrder, Graph.ofDeclarations_eq_ofActions,
    Graph.ofDeclarations_eq_ofActions, horder]
  apply List.filter_congr
  intro n _
  rw [decide_eq_decide]
  exact h.names_perm.mem_iff.symm

def scene : Interface where
  header := ⟨"Scene", {}, false, [], []⟩
  base := none
  attributes := [⟨"light", .simple "Color", {}, [], []⟩,
    ⟨"parts", .sequence (.simple "Circle"), {}, [], []⟩]
  operations := [⟨"clear", .simple "void", [], {}, [], []⟩,
    ⟨"back", .optional (.simple "Shape"), [⟨"n", .simple "long", {}, [], []⟩], {}, [], []⟩]

def sceneBackwards : Interface :=
  { scene with attributes := scene.attributes.reverse, operations := scene.operations.reverse }

theorem reordered_scene :
    Reordered (.interface scene :: shapes) (shapes.reverse ++ [.interface sceneBackwards]) := by
  refine ⟨shapes.reverse ++ [.interface scene], ?_, ?_⟩
  . rw [← List.reverse_cons]
    exact (List.reverse_perm _).symm
  . have hself (d : Declaration) : Rearranged d d := by
      cases d with
      | enum e => exact .enum e
      | interface i => exact .interface rfl rfl (.refl _) (.refl _)
    have hscene : Rearranged (.interface scene) (.interface sceneBackwards) :=
      .interface rfl rfl (List.reverse_perm _).symm (List.reverse_perm _).symm
    exact List.rel_append (List.forall₂_same.2 fun d _ => hself d) (.cons hscene .nil)

theorem map_name_inOrder_eq_of_reordered_scene :
    (∀ n, ¬(Graph.ofDeclarations (· = "long") (.interface scene :: shapes)).Reaches n n) ∧
      Reordered (.interface scene :: shapes) (shapes.reverse ++ [.interface sceneBackwards]) ∧
      (inOrder (· = "long") (shapes.reverse ++ [.interface sceneBackwards])).map name =
        (inOrder (· = "long") (.interface scene :: shapes)).map name := by
  have hacyclic := Graph.not_reaches_of_rank
    (g := Graph.ofDeclarations (· = "long") (.interface scene :: shapes))
    (fun n => if n = "Scene" then 3 else shapesRank n) (by decide)
  refine ⟨hacyclic, reordered_scene, ?_⟩
  exact map_name_inOrder_eq_of_reordered _ _ _ hacyclic reordered_scene

end Declaration

end IdlCompiler
