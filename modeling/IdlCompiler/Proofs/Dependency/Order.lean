import IdlCompiler.Proofs.Dependency.Emission
import IdlCompiler.Proofs.Text.Sorted
import Mathlib

/-!
This module contains what the order of a graph guarantees. It starts with the nodes that a cycle
keeps back, from the last name to the first, and behind them every name comes before its users.
-/

namespace IdlCompiler.Graph

variable {g : Graph}

def Precedes (names : List String) (a b : String) : Prop :=
  [a, b].Sublist names

theorem precedes_or_precedes {names : List String} {a b : String} (ha : a ∈ names)
    (hb : b ∈ names) (hne : a ≠ b) : Precedes names a b ∨ Precedes names b a := by
  induction names with
  | nil => simp at ha
  | cons first rest ih =>
    rcases List.mem_cons.1 ha with rfl | harest
    . have hbrest := (List.mem_cons.1 hb).resolve_left hne.symm
      exact .inl ((List.singleton_sublist.2 hbrest).cons_cons a)
    . rcases List.mem_cons.1 hb with rfl | hbrest
      . exact .inr ((List.singleton_sublist.2 harest).cons_cons b)
      . exact (ih harest hbrest).imp (·.cons first) (·.cons first)

def emission (g : Graph) : Emission :=
  (emitFree g ⟨g.names, []⟩ g.names.mergeSort).val

def leftOver (g : Graph) : List String :=
  (g.names.mergeSort.filter (· ∈ g.emission.unvisited)).reverse

theorem emissionOrder_eq (g : Graph) : g.emissionOrder = g.leftOver ++ g.emission.emitted := rfl

theorem valid_emission (hg : g.WellFormed) : g.emission.Valid g :=
  valid_emitFree hg (.start g) _

theorem mem_unvisited_emission_iff (hg : g.WellFormed) {name : String} :
    name ∈ g.emission.unvisited ↔ name ∈ g.names ∧ g.KeptBack name := by
  have hvalid := valid_emission hg
  constructor
  . intro hmem
    refine ⟨hvalid.mem_names_iff.2 (.inl hmem), ?_⟩
    refine keptBack_of_forall_exists_user ?_ hmem
    intro n hn
    -- A node without a user among them would be free, and so it would have been emitted.
    by_contra hnone
    have hfree : g.isFree g.emission n := by
      rw [isFree_iff]
      intro user huse huser
      exact hnone ⟨user, huser, huse⟩
    have hgiven := (isFree_of_isFree_emitFree hg (.start g) hn hfree).2.2
    exact hgiven (List.mem_mergeSort.2 (hvalid.mem_names_iff.2 (.inl hn)))
  . rintro ⟨hmem, hkept⟩
    refine (hvalid.mem_names_iff.1 hmem).resolve_right ?_
    intro hemitted
    exact hvalid.usersBehind.not_keptBack name hemitted hkept

theorem mem_leftOver_iff (hg : g.WellFormed) {name : String} :
    name ∈ g.leftOver ↔ name ∈ g.names ∧ g.KeptBack name := by
  unfold leftOver
  simp only [List.mem_reverse, List.mem_filter, List.mem_mergeSort, decide_eq_true_eq,
    mem_unvisited_emission_iff hg]
  tauto

theorem mem_emitted_emission_iff (hg : g.WellFormed) {name : String} :
    name ∈ g.emission.emitted ↔ name ∈ g.names ∧ ¬g.KeptBack name := by
  have hvalid := valid_emission hg
  constructor
  . intro hmem
    exact ⟨hvalid.mem_names_iff.2 (.inr hmem), hvalid.usersBehind.not_keptBack name hmem⟩
  . rintro ⟨hmem, hfree⟩
    refine (hvalid.mem_names_iff.1 hmem).resolve_left ?_
    intro hleft
    exact hfree ((mem_unvisited_emission_iff hg).1 hleft).2

theorem pairwise_leftOver (hg : g.WellFormed) : g.leftOver.Pairwise (· > ·) := by
  have hlt : g.names.mergeSort.Pairwise (· < ·) := Text.pairwise_lt_mergeSort hg.nodup
  exact List.pairwise_reverse.2 (hlt.filter _)

theorem perm_emissionOrder (hg : g.WellFormed) : g.emissionOrder.Perm g.names := by
  have hvalid := valid_emission hg
  have hnodup : (g.leftOver ++ g.emission.emitted).Nodup := by
    refine List.nodup_append.2 ⟨?_, (List.nodup_append.1 (hvalid.nodup hg)).2.1, ?_⟩
    . exact (pairwise_leftOver hg).imp fun h => ne_of_gt h
    . rintro a ha b hb rfl
      exact ((mem_emitted_emission_iff hg).1 hb).2 ((mem_leftOver_iff hg).1 ha).2
  rw [emissionOrder_eq]
  refine (List.perm_ext_iff_of_nodup hnodup hg.nodup).2 ?_
  intro name
  rw [List.mem_append, mem_leftOver_iff hg, mem_emitted_emission_iff hg]
  tauto

theorem lt_of_precedes_emissionOrder (hg : g.WellFormed) {a b : String}
    (h : Precedes g.emissionOrder a b) (hkept : g.KeptBack b) : b < a := by
  have hpairwise : g.emissionOrder.Pairwise (fun a b => g.KeptBack b → b < a) := by
    have hfree {name : String} (hmem : name ∈ g.emission.emitted) : ¬g.KeptBack name :=
      ((mem_emitted_emission_iff hg).1 hmem).2
    rw [emissionOrder_eq, List.pairwise_append]
    refine ⟨(pairwise_leftOver hg).imp (by intro a b hlt _; exact hlt), ?_, ?_⟩
    . exact List.pairwise_of_forall_mem_list fun _ _ _ hmem hkept => absurd hkept (hfree hmem)
    . intro _ _ _ hmem hkept
      exact absurd hkept (hfree hmem)
  exact List.pairwise_iff_forall_sublist.1 hpairwise h hkept

theorem precedes_emissionOrder_iff (hg : g.WellFormed) {user used : String}
    (huse : g.Uses user used) :
    Precedes g.emissionOrder used user ↔ ¬g.KeptBack user ∨ user < used := by
  have hmem := hg.mem_names huse
  by_cases huser : g.KeptBack user
  -- If the user is kept back then so is what it uses, and both stand in descending order.
  . have hused := huser.of_uses huse
    constructor
    . intro h
      exact .inr (lt_of_precedes_emissionOrder hg h huser)
    . intro h
      have hlt := h.resolve_left (not_not_intro huser)
      have hleft : Precedes g.leftOver used user ∨ Precedes g.leftOver user used :=
        precedes_or_precedes ((mem_leftOver_iff hg).2 ⟨hmem.2, hused⟩)
          ((mem_leftOver_iff hg).2 ⟨hmem.1, huser⟩) hlt.ne'
      rw [emissionOrder_eq]
      rcases hleft with h | h
      . exact h.trans (List.sublist_append_left _ _)
      . have := List.pairwise_iff_forall_sublist.1 (pairwise_leftOver hg) h
        exact absurd this hlt.asymm
  . refine iff_of_true ?_ (.inl huser)
    rw [emissionOrder_eq]
    have hemitted := (mem_emitted_emission_iff hg).2 ⟨hmem.1, huser⟩
    -- The user is emitted, and what it uses is left over or emitted later, which is in front.
    by_cases hused : g.KeptBack used
    . have hleft := (mem_leftOver_iff hg).2 ⟨hmem.2, hused⟩
      exact (List.singleton_sublist.2 hleft).append (List.singleton_sublist.2 hemitted)
    . have hmemUsed := (mem_emitted_emission_iff hg).2 ⟨hmem.2, hused⟩
      have := (valid_emission hg).usersBehind.pair_sublist huse hmemUsed
      exact this.trans (List.sublist_append_right _ _)

/--
The order lists every node once, and a name comes before a user of it exactly if no cycle keeps the
user back, or the name is the later one of the two.
-/
theorem precedes_order_iff (actions : List Action) :
    (ofActions actions).order.1.Perm (ofActions actions).names ∧
      (ofActions actions).order.1.Nodup ∧
      (∀ name, name ∈ (ofActions actions).order.1 ↔ ∃ action ∈ actions, name ∈ action.nodes) ∧
      ∀ user used, (ofActions actions).Uses user used →
        (Precedes (ofActions actions).order.1 used user ↔
          ¬(ofActions actions).KeptBack user ∨ user < used) := by
  have hg := (wellFormed_ofActions actions).withDepths
  have hperm : (ofActions actions).order.1.Perm (ofActions actions).names := perm_emissionOrder hg
  refine ⟨hperm, hperm.nodup_iff.2 hg.nodup, ?_, ?_⟩
  . intro name
    rw [hperm.mem_iff, mem_names_ofActions_iff]
  . intro user used huse
    exact precedes_emissionOrder_iff hg huse

def cycleAbove : List Action :=
  [.use "x" "y", .use "y" "x", .use "y" "a"]

theorem edges_cycleAbove :
    (ofActions cycleAbove).edges = [("x", "y"), ("y", "x"), ("y", "a")] := by
  decide

theorem order_cycleAbove : (ofActions cycleAbove).order.1 = ["y", "x", "a"] := by
  cbv

theorem keptBack_cycleAbove : (ofActions cycleAbove).KeptBack "x" := by
  have hxy : (ofActions cycleAbove).Uses "x" "y" := by simp [Uses, edges_cycleAbove]
  have hyx : (ofActions cycleAbove).Uses "y" "x" := by simp [Uses, edges_cycleAbove]
  exact ⟨"x", .tail (.single hxy) hyx, .refl⟩

theorem precedes_order_cycleAbove :
    (ofActions cycleAbove).Uses "x" "y" ∧ (ofActions cycleAbove).KeptBack "x" ∧
      Precedes (ofActions cycleAbove).order.1 "y" "x" := by
  have huse : (ofActions cycleAbove).Uses "x" "y" := by simp [Uses, edges_cycleAbove]
  have hiff := (precedes_order_iff cycleAbove).2.2.2 "x" "y" huse
  exact ⟨huse, keptBack_cycleAbove, hiff.2 (.inr (by decide))⟩

theorem not_precedes_order_cycleAbove :
    (ofActions cycleAbove).Uses "y" "a" ∧ ¬(ofActions cycleAbove).Reaches "a" "y" ∧
      ¬Precedes (ofActions cycleAbove).order.1 "a" "y" := by
  -- The reference from `y` to `a` does not lie on the cycle, which disturbs it all the same.
  refine ⟨by simp [Uses, edges_cycleAbove], ?_, ?_⟩
  . intro hreach
    rcases Relation.TransGen.head'_iff.1 hreach with ⟨next, huse, -⟩
    simp [Uses, edges_cycleAbove] at huse
  . unfold Precedes
    rw [order_cycleAbove]
    decide

end IdlCompiler.Graph
