import IdlCompiler.Proofs.Dependency.Depth

/-!
This module contains that orders are complete. However often nodes and references were recorded and
orders computed before, with and without cycles, every node is in the order once, and computing the
order once more changes nothing.
-/

namespace IdlCompiler.Graph

variable {g : Graph}

theorem order_order (hg : g.WellFormed) : g.order.2.order = g.order := by
  unfold order
  dsimp only
  rw [withDepths_withDepths hg]

/--
Whatever was done to a graph, its order has the names that were recorded, each one once, and nothing
else. All of them have depths then, and the same order is found again.
-/
theorem nodup_order_and_mem_order_iff (actions : List Action) :
    (ofActions actions).order.1.Nodup ∧
      (∀ name, name ∈ (ofActions actions).order.1 ↔ ∃ action ∈ actions, name ∈ action.nodes) ∧
      (∀ name ∈ (ofActions actions).order.1,
        ((ofActions actions).order.2.depth? name).isSome) ∧
      (ofActions actions).order.2.order = (ofActions actions).order := by
  have hg := wellFormed_ofActions actions
  have hperm : (ofActions actions).order.1.Perm (ofActions actions).names :=
    perm_emissionOrder hg.withDepths
  refine ⟨hperm.nodup_iff.2 hg.nodup, ?_, ?_, order_order hg⟩
  . intro name
    rw [hperm.mem_iff, mem_names_ofActions_iff]
  . intro name hname
    rw [hperm.mem_iff] at hname
    exact isSome_depth?_withDepths hg hname

end IdlCompiler.Graph
