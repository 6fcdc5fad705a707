import IdlCompiler.Proofs.Dependency.Order
import IdlCompiler.Proofs.Text.ByteOrder

/-!
This module contains how far the order of a graph tolerates cycles. It falls into two parts: what a
cycle keeps back, by name alone, and the nodes that are free of cycles, behind all that they use.
-/

namespace IdlCompiler.Graph

variable {g : Graph}

theorem KeptBack.mem_names (hg : g.WellFormed) {name : String} (h : g.KeptBack name) :
    name ∈ g.names := by
  rcases h.exists_user with ⟨user, huse, -⟩
  exact (hg.mem_names huse).2

theorem not_keptBack_of_acyclic (h : ∀ name, ¬g.Reaches name name) (name : String) :
    ¬g.KeptBack name := by
  rintro ⟨c, hcycle, -⟩
  exact h c hcycle

theorem mem_leftOver_iff_keptBack (hg : g.WellFormed) {name : String} :
    name ∈ g.leftOver ↔ g.KeptBack name := by
  rw [mem_leftOver_iff hg]
  exact ⟨And.right, fun h => ⟨h.mem_names hg, h⟩⟩

theorem pairwise_bytes_leftOver (hg : g.WellFormed) :
    g.leftOver.Pairwise (fun a b => Text.bytes b < Text.bytes a) := by
  apply (pairwise_leftOver hg).imp
  intro a b h
  exact Text.bytes_lt_bytes h

theorem nodup_emitted_emission (hg : g.WellFormed) : g.emission.emitted.Nodup :=
  (List.nodup_append.1 ((valid_emission hg).nodup hg)).2.1

theorem precedes_emissionOrder_of_not_keptBack (hg : g.WellFormed) {user used : String}
    (huse : g.Uses user used) (huser : ¬g.KeptBack user) :
    Precedes g.emissionOrder used user := by
  rw [precedes_emissionOrder_iff hg huse]
  exact .inl huser

/--
Whatever was recorded in a graph, and whichever depths it remembers: its order starts with the nodes
that a cycle keeps back, the last name first by octets, and goes on with the others, each one once. A
node outside of the first part stands behind all that it uses, and so does every node where there is
no cycle.
-/
theorem exists_order_eq_append (actions : List Action) :
    (∀ name, name ∈ (ofActions actions).names ↔ ∃ action ∈ actions, name ∈ action.nodes) ∧
    (∀ user used, (ofActions actions).Uses user used ↔
      ∃ action ∈ actions, action.Records user used) ∧
    ∃ kept rest,
      (ofActions actions).order.1 = kept ++ rest ∧
      kept.Pairwise (fun a b => Text.bytes b < Text.bytes a) ∧
      (∀ name, name ∈ kept ↔ (ofActions actions).KeptBack name) ∧
      rest.Nodup ∧
      (∀ name, name ∈ rest ↔
        name ∈ (ofActions actions).names ∧ ¬(ofActions actions).KeptBack name) ∧
      (∀ user used, (ofActions actions).Uses user used → ¬(ofActions actions).KeptBack user →
        Precedes (ofActions actions).order.1 used user) ∧
      ((∀ name, ¬(ofActions actions).Reaches name name) →
        ∀ user used, (ofActions actions).Uses user used →
          Precedes (ofActions actions).order.1 used user) := by
  -- The depths have no part in what a node uses, so the graph with depths has the same cycles.
  have hg := (wellFormed_ofActions actions).withDepths
  refine ⟨fun _ => mem_names_ofActions_iff, fun _ _ => uses_ofActions_iff, ?_⟩
  refine ⟨_, _, emissionOrder_eq _, pairwise_bytes_leftOver hg, ?_, nodup_emitted_emission hg,
    ?_, ?_, ?_⟩
  . intro name
    exact mem_leftOver_iff_keptBack hg
  . intro name
    exact mem_emitted_emission_iff hg
  . intro user used huse huser
    exact precedes_emissionOrder_of_not_keptBack hg huse huser
  . intro hacyclic user used huse
    exact precedes_emissionOrder_of_not_keptBack hg huse (not_keptBack_of_acyclic hacyclic user)

end IdlCompiler.Graph
