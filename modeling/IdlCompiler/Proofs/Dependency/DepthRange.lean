import IdlCompiler.Proofs.Dependency.Completeness

/-!
This module contains which depths nodes can have and for how long. A depth is never computed anew,
whatever is recorded later. Depths have no gaps: where a node has one that is greater than one,
another node has the next lower one, so none is greater than the number of nodes, with and without
cycles.
-/

namespace IdlCompiler.Graph

open Relation

variable {g : Graph} {name other : String} {names : List String} {depth : Nat}

namespace DepthSearch

variable {s s₁ s₂ : DepthSearch}

/--
A search has gone on from `s` to `s'`: it has come to some more nodes, and it has found no depth for
others than these, and none for a node whose depth was known.
-/
structure Extends (s s' : DepthSearch) : Prop where
  unvisited : s'.unvisited.Sublist s.unvisited
  lookup {name : String} :
    name ∉ s.unvisited ∨ s.Knows name → s'.depths.lookup name = s.depths.lookup name

theorem knows_of_lookup (h : s.depths.lookup name = some depth) : s.Knows name := by
  unfold Knows
  rw [h]
  rfl

namespace Extends

theorem refl (s : DepthSearch) : s.Extends s :=
  ⟨.refl _, fun _ => rfl⟩

theorem trans (h₁ : s.Extends s₁) (h₂ : s₁.Extends s₂) : s.Extends s₂ where
  unvisited := h₂.unvisited.trans h₁.unvisited
  lookup := by
    intro name hname
    rw [h₂.lookup, h₁.lookup hname]
    refine hname.imp (fun hleft hmem => hleft (h₁.unvisited.subset hmem)) ?_
    intro hknown
    unfold Knows
    rw [h₁.lookup hname]
    exact hknown

theorem learn (h : (s.visit name).Extends s₁) (hmem : name ∈ s.unvisited) (hnew : ¬s.Knows name)
    (depth : Nat) : s.Extends (s₁.learn name depth) where
  unvisited := h.unvisited.trans List.erase_sublist
  lookup := by
    intro other hother
    have hne : other ≠ name := by
      rintro rfl
      exact hother.elim (absurd hmem) hnew
    rw [lookup_learn, if_neg hne]
    exact h.lookup (hother.imp_left fun hleft hmem => hleft (List.mem_of_mem_erase hmem))

theorem lookup_eq_some (h : s.Extends s₁) (hdepth : s.depths.lookup name = some depth) :
    s₁.depths.lookup name = some depth := by
  rw [h.lookup (.inr (knows_of_lookup hdepth)), hdepth]

end Extends

end DepthSearch

mutual

theorem extends_searchDepth (g : Graph) (s : DepthSearch) (name : String) :
    s.Extends (searchDepth g s name).2.val := by
  cases hlookup : s.depths.lookup name with
  | some depth =>
    rw [searchDepth_of_lookup hlookup]
    exact .refl s
  | none =>
    by_cases hmem : name ∈ s.unvisited
    . have hlt := DepthSearch.length_visit_lt hmem
      have hnew : ¬s.Knows name := by
        unfold DepthSearch.Knows
        rw [hlookup]
        decide
      rw [(searchDepth_of_mem hlookup hmem).2]
      exact (extends_searchDeepest g (s.visit name) (g.uses name)).learn hmem hnew _
    . rw [searchDepth_of_not_mem hlookup hmem]
      exact .refl s
termination_by (s.unvisited.length, 0)
decreasing_by
  simp only [Prod.lex_def]
  omega

theorem extends_searchDeepest (g : Graph) (s : DepthSearch) (names : List String) :
    s.Extends (searchDeepest g s names).2.val := by
  match names with
  | [] =>
    rw [searchDeepest_nil]
    exact .refl s
  | name :: rest =>
    have hle := (searchDepth g s name).2.property
    rw [(searchDeepest_cons name rest).2]
    exact (extends_searchDepth g s name).trans (extends_searchDeepest g _ rest)
termination_by (s.unvisited.length, names.length + 1)
decreasing_by
  . simp [Prod.lex_def]
  . simp only [Prod.lex_def, List.length_cons]
    omega

end

namespace DepthSearch

variable {s s₁ : DepthSearch}

/--
The known depths have no gaps: they are depths of nodes, only nodes that refer to nothing have the
depth zero, and below each depth other than one the next lower one is known.
-/
structure Gapless (g : Graph) (s : DepthSearch) : Prop where
  mem_names {name : String} : s.Knows name → name ∈ g.names
  uses_eq_nil {name : String} : s.depths.lookup name = some 0 → g.uses name = []
  exists_below {name : String} {depth : Nat} :
    s.depths.lookup name = some (depth + 2) → ∃ other, s.depths.lookup other = some (depth + 1)

namespace Gapless

theorem visit (h : s.Gapless g) (name : String) : (s.visit name).Gapless g :=
  ⟨h.mem_names, h.uses_eq_nil, h.exists_below⟩

theorem learn (h : s.Gapless g) (hname : name ∈ g.names) (hnew : ¬s.Knows name) {deepest : Nat}
    (hdeepest : deepest = 0 ∨ ∃ used, s.depths.lookup used = some deepest) :
    (s.learn name (depthAbove g name deepest)).Gapless g where
  mem_names := by
    intro other hother
    rw [knows_learn_iff] at hother
    rcases hother with rfl | hknown
    . exact hname
    . exact h.mem_names hknown
  uses_eq_nil := by
    intro other hother
    rw [lookup_learn] at hother
    split at hother
    . next heq =>
      rw [Option.some.injEq, depthAbove] at hother
      rw [heq]
      split at hother
      . next hnone => exact hnone
      . cases hother
    . exact h.uses_eq_nil hother
  exists_below := by
    intro other depth hother
    -- What is below was known before, and so it is not the depth that is learned now.
    have hbelow : ∃ below, s.depths.lookup below = some (depth + 1) := by
      rw [lookup_learn] at hother
      split at hother
      . rw [Option.some.injEq, depthAbove] at hother
        split at hother
        . cases hother
        . rcases hdeepest with rfl | ⟨used, hused⟩
          . cases hother
          . cases hother
            exact ⟨used, hused⟩
      . exact h.exists_below hother
    rcases hbelow with ⟨below, hbelow⟩
    refine ⟨below, ?_⟩
    rw [lookup_learn, if_neg]
    . exact hbelow
    . rintro rfl
      exact hnew (knows_of_lookup hbelow)

theorem exists_descent (h : s.Gapless g) (hdepth : s.depths.lookup name = some depth) :
    ∃ below : List String, below.Nodup ∧ below.length = depth ∧
      ∀ n ∈ below, ∃ d ≤ depth, s.depths.lookup n = some d := by
  induction depth generalizing name with
  | zero => exact ⟨[], .nil, rfl, by simp⟩
  | succ depth ih =>
    cases depth with
    | zero => exact ⟨[name], by simp, rfl, by simp [hdepth]⟩
    | succ depth =>
      rcases h.exists_below hdepth with ⟨other, hother⟩
      rcases ih hother with ⟨below, hnodup, hlength, hbelow⟩
      refine ⟨name :: below, List.nodup_cons.2 ⟨?_, hnodup⟩, ?_, ?_⟩
      . intro hmem
        rcases hbelow name hmem with ⟨d, hle, hd⟩
        rw [hdepth, Option.some.injEq] at hd
        omega
      . rw [List.length_cons, hlength]
      . refine List.forall_mem_cons.2 ⟨⟨_, Nat.le_refl _, hdepth⟩, ?_⟩
        intro n hn
        rcases hbelow n hn with ⟨d, hle, hd⟩
        exact ⟨d, Nat.le_succ_of_le hle, hd⟩

theorem depth_le (h : s.Gapless g) (hdepth : s.depths.lookup name = some depth) :
    depth ≤ g.names.length := by
  rcases h.exists_descent hdepth with ⟨below, hnodup, rfl, hbelow⟩
  have hsubset : below ⊆ g.names := by
    intro n hn
    rcases hbelow n hn with ⟨d, -, hd⟩
    exact h.mem_names (knows_of_lookup hd)
  exact (hnodup.subperm hsubset).length_le

end Gapless

end DepthSearch

mutual

theorem gapless_searchDepth {s : DepthSearch} (hnodup : s.unvisited.Nodup)
    (hleft : s.unvisited ⊆ g.names) (hs : s.Gapless g) (name : String) :
    (searchDepth g s name).2.val.Gapless g ∧
      ((searchDepth g s name).1 = 0 ∨
        (searchDepth g s name).2.val.depths.lookup name = some (searchDepth g s name).1) := by
  cases hlookup : s.depths.lookup name with
  | some depth =>
    rw [searchDepth_of_lookup hlookup]
    exact ⟨hs, .inr hlookup⟩
  | none =>
    by_cases hmem : name ∈ s.unvisited
    . have hlt := DepthSearch.length_visit_lt hmem
      have hextends := extends_searchDeepest g (s.visit name) (g.uses name)
      have hnext := gapless_searchDeepest (s := s.visit name) (hnodup.erase name)
        (fun n hn => hleft (List.mem_of_mem_erase hn)) (hs.visit name) (g.uses name)
      -- The search is busy with the node all the while, so that its depth is not found elsewhere.
      have hnew : ¬(searchDeepest g (s.visit name) (g.uses name)).2.val.Knows name := by
        unfold DepthSearch.Knows
        rw [hextends.lookup (.inl hnodup.not_mem_erase), DepthSearch.visit, hlookup]
        decide
      rw [(searchDepth_of_mem hlookup hmem).1, (searchDepth_of_mem hlookup hmem).2]
      refine ⟨hnext.1.learn (hleft hmem) hnew ?_, .inr ?_⟩
      . exact hnext.2.imp_right fun ⟨used, _, hused⟩ => ⟨used, hused⟩
      . rw [DepthSearch.lookup_learn, if_pos rfl]
    . rw [searchDepth_of_not_mem hlookup hmem]
      exact ⟨hs, .inl rfl⟩
termination_by (s.unvisited.length, 0)
decreasing_by
  simp only [Prod.lex_def]
  omega

theorem gapless_searchDeepest {s : DepthSearch} (hnodup : s.unvisited.Nodup)
    (hleft : s.unvisited ⊆ g.names) (hs : s.Gapless g) (names : List String) :
    (searchDeepest g s names).2.val.Gapless g ∧
      ((searchDeepest g s names).1 = 0 ∨ ∃ name ∈ names,
        (searchDeepest g s names).2.val.depths.lookup name = some (searchDeepest g s names).1) := by
  match names with
  | [] =>
    rw [searchDeepest_nil]
    exact ⟨hs, .inl rfl⟩
  | name :: rest =>
    have hle := (searchDepth g s name).2.property
    have hextends := extends_searchDepth g s name
    have hfirst := gapless_searchDepth hnodup hleft hs name
    have hrest := gapless_searchDeepest (hnodup.sublist hextends.unvisited)
      (fun n hn => hleft (hextends.unvisited.subset hn)) hfirst.1 rest
    have hkept := extends_searchDeepest g (searchDepth g s name).2.val rest
    rw [(searchDeepest_cons name rest).1, (searchDeepest_cons name rest).2]
    refine ⟨hrest.1, ?_⟩
    rcases Nat.le_total (searchDeepest g (searchDepth g s name).2.val rest).1
      (searchDepth g s name).1 with hmax | hmax
    . rw [Nat.max_eq_left hmax]
      exact hfirst.2.imp_right fun h => ⟨name, List.mem_cons_self, hkept.lookup_eq_some h⟩
    . rw [Nat.max_eq_right hmax]
      exact hrest.2.imp_right fun ⟨n, hn, h⟩ => ⟨n, List.mem_cons_of_mem _ hn, h⟩
termination_by (s.unvisited.length, names.length + 1)
decreasing_by
  . simp [Prod.lex_def]
  . simp only [Prod.lex_def, List.length_cons]
    omega

end

theorem depth?_withDepths (h : g.depth? name = some depth) :
    g.withDepths.depth? name = some depth :=
  (extends_searchDeepest g ⟨g.names, g.depths⟩ g.names).lookup_eq_some h

theorem depth?_act (h : g.depth? name = some depth) (action : Action) :
    (g.act action).depth? name = some depth := by
  by_cases horder : action = .order
  . rw [horder]
    exact depth?_withDepths h
  . rw [depth?, depths_act horder]
    exact h

theorem depth?_ofActions_append {actions : List Action}
    (h : (ofActions actions).depth? name = some depth) (later : List Action) :
    (ofActions (actions ++ later)).depth? name = some depth := by
  rw [ofActions, List.foldl_append]
  exact List.foldlRecOn (motive := fun g => g.depth? name = some depth) later act h
    fun _ hg action _ => depth?_act hg action

theorem gapless_withDepths (hg : g.WellFormed) (hfresh : g.depths = []) :
    DepthSearch.Gapless g ⟨g.names, g.withDepths.depths⟩ := by
  have hstart : DepthSearch.Gapless g ⟨g.names, g.depths⟩ := by
    rw [hfresh]
    exact ⟨nofun, nofun, nofun⟩
  have h := (gapless_searchDeepest (s := ⟨g.names, g.depths⟩) hg.nodup (fun _ => id) hstart
    g.names).1
  exact ⟨h.mem_names, h.uses_eq_nil, h.exists_below⟩

theorem exists_uses_of_not_grounded (h : ¬g.Grounded name) : ∃ used, g.Uses name used := by
  unfold Grounded at h
  push Not at h
  rcases h with ⟨c, hpath, hcycle⟩
  rcases ReflTransGen.cases_head hpath with rfl | ⟨used, huse, -⟩
  . rcases TransGen.head'_iff.1 hcycle with ⟨used, huse, -⟩
    exact ⟨used, huse⟩
  . exact ⟨used, huse⟩

theorem depth?_withDepths_mem_Icc (hg : g.WellFormed) (hfresh : g.depths = [])
    (hcycle : ¬g.Grounded name) (h : g.withDepths.depth? name = some depth) :
    depth ∈ Set.Icc 1 g.names.length := by
  have hgapless := gapless_withDepths hg hfresh
  refine ⟨Nat.one_le_iff_ne_zero.2 ?_, hgapless.depth_le h⟩
  rintro rfl
  rcases exists_uses_of_not_grounded hcycle with ⟨used, huse⟩
  rw [← mem_uses_iff, hgapless.uses_eq_nil h] at huse
  exact List.not_mem_nil huse

/--
If only nodes and references were recorded, the first order gives every node a depth. From a node
from which no cycle can be reached, this is the number of references on a longest way down, and for
all other nodes it lies between one and the number of nodes. Whatever was done to a graph before, a
depth that is known stays whatever is done later, so that the order is the same a second time.
-/
theorem exists_depth?_order_and_depth?_append (actions : List Action) :
    (.order ∉ actions → ∀ name ∈ (ofActions actions).names,
      ∃ depth, (ofActions actions).order.2.depth? name = some depth ∧
        ((ofActions actions).Grounded name → (ofActions actions).IsHeight name depth) ∧
        (¬(ofActions actions).Grounded name →
          1 ≤ depth ∧ depth ≤ (ofActions actions).names.length)) ∧
    (∀ name depth, (ofActions actions).depth? name = some depth →
      ∀ later, (ofActions (actions ++ later)).depth? name = some depth) ∧
    (ofActions actions).order.2.order = (ofActions actions).order := by
  have hg := wellFormed_ofActions actions
  refine ⟨?_, fun _ _ h later => depth?_ofActions_append h later, order_order hg⟩
  intro hrecord name hname
  have hfresh := depths_ofActions hrecord
  rcases Option.isSome_iff_exists.1 (isSome_depth?_withDepths hg hname) with ⟨depth, hdepth⟩
  refine ⟨depth, hdepth, ?_, ?_⟩
  . intro hgrounded
    rcases exists_depth?_withDepths hg hfresh hname hgrounded with ⟨height, hheight, h⟩
    rw [hdepth, Option.some.injEq] at hheight
    rw [hheight]
    exact h
  . intro hcycle
    exact depth?_withDepths_mem_Icc hg hfresh hcycle hdepth

def cycleAbovePath : List Action :=
  [.use "x" "y", .use "y" "x", .use "y" "a", .use "a" "b"]

theorem exists_depth?_order_and_depth?_append_cycleAbovePath :
    (.order ∉ cycleAbovePath ∧ (ofActions cycleAbovePath).names = ["x", "y", "a", "b"] ∧
      ¬(ofActions cycleAbovePath).Grounded "x" ∧
      ∃ depth, (ofActions cycleAbovePath).order.2.depth? "x" = some depth ∧
        1 ≤ depth ∧ depth ≤ 4) ∧
    (ofActions (cycleAbovePath ++ [.order])).depth? "x" = some 3 ∧
    (ofActions (cycleAbovePath ++ [.order] ++ [.use "b" "c", .order])).depth? "x" = some 3 := by
  have hnames : (ofActions cycleAbovePath).names = ["x", "y", "a", "b"] := by decide
  have hcycle : ¬(ofActions cycleAbovePath).Grounded "x" := by
    have hxy : (ofActions cycleAbovePath).Uses "x" "y" := by unfold Uses; decide
    have hyx : (ofActions cycleAbovePath).Uses "y" "x" := by unfold Uses; decide
    exact fun h => h "x" .refl (.tail (.single hxy) hyx)
  have hrecord : .order ∉ cycleAbovePath := by simp [cycleAbovePath]
  have hdepth : (ofActions (cycleAbovePath ++ [.order])).depth? "x" = some 3 := by cbv
  refine ⟨⟨hrecord, hnames, hcycle, ?_⟩, hdepth, ?_⟩
  . rcases (exists_depth?_order_and_depth?_append cycleAbovePath).1 hrecord "x" (by simp [hnames])
      with ⟨depth, hx, -, hrange⟩
    refine ⟨depth, hx, ?_⟩
    rw [hnames] at hrange
    exact hrange hcycle
  . exact (exists_depth?_order_and_depth?_append (cycleAbovePath ++ [.order])).2.1 "x" 3 hdepth _

end IdlCompiler.Graph
