import IdlCompiler.Proofs.Dependency.Order

/-!
This module contains what the depths of a graph are. Every node gets one, and one that is known stays
as it is. If no cycle can be reached from a node and no depths were known before, its depth is the
number of references on a longest way down from it, in whichever order the nodes are searched.
-/

namespace IdlCompiler.Graph

open Relation

inductive Descends (g : Graph) : String → Nat → Prop
  | stay (name : String) : Descends g name 0
  | step {user used : String} {n : Nat} :
      g.Uses user used → Descends g used n → Descends g user (n + 1)

def IsHeight (g : Graph) (name : String) (height : Nat) : Prop :=
  IsGreatest { n | g.Descends name n } height

def Grounded (g : Graph) (name : String) : Prop :=
  ∀ c, ReflTransGen g.Uses name c → ¬g.Reaches c c

variable {g g' : Graph} {name user used : String} {names : List String} {n height : Nat}

theorem Descends.mono (h : g.Descends name n) (huses : ∀ a b, g.Uses a b → g'.Uses a b) :
    g'.Descends name n := by
  induction h with
  | stay name => exact .stay name
  | step huse _ ih => exact .step (huses _ _ huse) ih

theorem isHeight_congr (huses : ∀ a b, g.Uses a b ↔ g'.Uses a b) :
    g.IsHeight name height ↔ g'.IsHeight name height := by
  have hiff (n : Nat) : g.Descends name n ↔ g'.Descends name n :=
    ⟨(·.mono fun a b => (huses a b).1), (·.mono fun a b => (huses a b).2)⟩
  unfold IsHeight
  simp only [hiff]

theorem Grounded.of_uses (h : g.Grounded user) (huse : g.Uses user used) : g.Grounded used := by
  intro c hpath
  exact h c (.head huse hpath)

theorem Grounded.not_reaches (h : g.Grounded name) : ¬g.Reaches name name :=
  h name .refl

theorem isHeight_zero (h : ∀ used, ¬g.Uses name used) : g.IsHeight name 0 := by
  refine ⟨Descends.stay name, ?_⟩
  rintro n (_ | ⟨huse, _⟩)
  . exact Nat.le_refl 0
  . exact absurd huse (h _)

theorem isHeight_succ (huse : g.Uses user used) (hheight : g.IsHeight used height)
    (hmax : ∀ other, g.Uses user other → ∃ h ≤ height, g.IsHeight other h) :
    g.IsHeight user (height + 1) := by
  refine ⟨Descends.step huse hheight.1, ?_⟩
  rintro n (_ | ⟨hother, hdown⟩)
  . exact Nat.zero_le _
  . rcases hmax _ hother with ⟨h, hle, hh⟩
    have := hh.2 hdown
    omega

theorem WellFormed.mem_names_of_mem_uses (hg : g.WellFormed) (name : String) :
    ∀ used ∈ g.uses name, used ∈ g.names :=
  fun _ hused => (hg.mem_names (mem_uses_iff.1 hused)).2

namespace DepthSearch

variable {s s' : DepthSearch} {busy : String → Prop}

def Knows (s : DepthSearch) (name : String) : Prop :=
  (s.depths.lookup name).isSome

def Covers (g : Graph) (busy : String → Prop) (s : DepthSearch) : Prop :=
  ∀ name ∈ g.names, name ∈ s.unvisited ∨ s.Knows name ∨ busy name

def Sound (g : Graph) (s : DepthSearch) : Prop :=
  ∀ name depth, s.depths.lookup name = some depth → g.Grounded name → g.IsHeight name depth

def visit (s : DepthSearch) (name : String) : DepthSearch :=
  { s with unvisited := s.unvisited.erase name }

def learn (s : DepthSearch) (name : String) (depth : Nat) : DepthSearch :=
  { s with depths := (name, depth) :: s.depths }

theorem length_visit_lt (h : name ∈ s.unvisited) :
    (s.visit name).unvisited.length < s.unvisited.length := by
  have := List.length_pos_of_mem h
  unfold visit
  rw [List.length_erase_of_mem h]
  omega

theorem knows_visit_iff {other : String} : (s.visit name).Knows other ↔ s.Knows other := .rfl

theorem lookup_learn {depth : Nat} {other : String} :
    (s.learn name depth).depths.lookup other =
      if other = name then some depth else s.depths.lookup other := by
  unfold learn
  by_cases h : other = name
  . rw [if_pos h, h, List.lookup_cons_self]
  . rw [if_neg h, List.lookup_cons, beq_false_of_ne h]

theorem knows_learn_iff {depth : Nat} {other : String} :
    (s.learn name depth).Knows other ↔ other = name ∨ s.Knows other := by
  unfold Knows
  rw [lookup_learn]
  split
  . next h => simp [h]
  . next h => simp [h]

theorem Covers.visit (h : s.Covers g busy) (name : String) :
    (s.visit name).Covers g fun n => busy n ∨ n = name := by
  intro other hother
  rw [knows_visit_iff]
  rcases h other hother with hleft | hknown | hbusy
  . by_cases heq : other = name
    . exact .inr (.inr (.inr heq))
    . exact .inl ((List.mem_erase_of_ne heq).2 hleft)
  . exact .inr (.inl hknown)
  . exact .inr (.inr (.inl hbusy))

theorem Covers.learn (h : s.Covers g fun n => busy n ∨ n = name) (depth : Nat) :
    (s.learn name depth).Covers g busy := by
  intro other hother
  rw [knows_learn_iff]
  rcases h other hother with hleft | hknown | hbusy | heq
  . exact .inl hleft
  . exact .inr (.inl (.inr hknown))
  . exact .inr (.inr hbusy)
  . exact .inr (.inl (.inl heq))

theorem Sound.learn (h : s.Sound g) {depth : Nat} (hdepth : g.Grounded name → g.IsHeight name depth) :
    (s.learn name depth).Sound g := by
  intro other known hknown hgrounded
  rw [lookup_learn] at hknown
  split at hknown
  . next heq =>
    cases hknown
    rw [heq] at hgrounded ⊢
    exact hdepth hgrounded
  . exact h other known hknown hgrounded

end DepthSearch

/-
The search by equations: each case of it as what it finds and how it goes on.
-/

section Equations

variable {s : DepthSearch}

theorem searchDepth_of_lookup {depth : Nat} (h : s.depths.lookup name = some depth) :
    searchDepth g s name = (depth, ⟨s, Nat.le_refl _⟩) := by
  rw [searchDepth.eq_def]
  split
  . next hsome =>
    rw [h, Option.some.injEq] at hsome
    rw [hsome]
  . next hnone =>
    rw [h] at hnone
    cases hnone

theorem searchDepth_of_not_mem (h : s.depths.lookup name = none) (hmem : name ∉ s.unvisited) :
    searchDepth g s name = (0, ⟨s, Nat.le_refl _⟩) := by
  rw [searchDepth.eq_def]
  split
  . next hsome =>
    rw [h] at hsome
    cases hsome
  . rw [dif_neg hmem]

def depthAbove (g : Graph) (name : String) (deepest : Nat) : Nat :=
  if g.uses name = [] then 0 else deepest + 1

theorem searchDeepest_nil : searchDeepest g s [] = (0, ⟨s, Nat.le_refl _⟩) := by
  rw [searchDeepest]

theorem searchDepth_of_mem (h : s.depths.lookup name = none) (hmem : name ∈ s.unvisited) :
    (searchDepth g s name).1 =
        depthAbove g name (searchDeepest g (s.visit name) (g.uses name)).1 ∧
      (searchDepth g s name).2.val =
        (searchDeepest g (s.visit name) (g.uses name)).2.val.learn name
          (depthAbove g name (searchDeepest g (s.visit name) (g.uses name)).1) := by
  rw [searchDepth.eq_def]
  split
  . next hsome =>
    rw [h] at hsome
    cases hsome
  . rw [dif_pos hmem]
    unfold depthAbove
    dsimp only
    split
    . next huses =>
      rw [huses, searchDeepest_nil, if_pos rfl]
      exact ⟨rfl, rfl⟩
    . next first rest huses =>
      rw [huses, if_neg (List.cons_ne_nil first rest)]
      exact ⟨rfl, rfl⟩

theorem searchDeepest_cons (name : String) (rest : List String) :
    (searchDeepest g s (name :: rest)).1 =
        max (searchDepth g s name).1 (searchDeepest g (searchDepth g s name).2.val rest).1 ∧
      (searchDeepest g s (name :: rest)).2.val =
        (searchDeepest g (searchDepth g s name).2.val rest).2.val := by
  rw [searchDeepest]
  exact ⟨rfl, rfl⟩

end Equations

/--
A search that was asked for nodes has gone on from `s` to `s'`: their depths are known now, unless it
is still busy with them, and no depth was forgotten.
-/
structure DepthSearch.Progress (g : Graph) (busy : String → Prop) (s s' : DepthSearch)
    (names : List String) : Prop where
  covers : s'.Covers g busy
  found : ∀ name ∈ names, s'.Knows name ∨ busy name
  kept : ∀ name, s.Knows name → s'.Knows name

mutual

theorem progress_searchDepth (hg : g.WellFormed) {s : DepthSearch} {busy : String → Prop}
    (hcovers : s.Covers g busy) {name : String} (hname : name ∈ g.names) :
    s.Progress g busy (searchDepth g s name).2.val [name] := by
  cases hlookup : s.depths.lookup name with
  | some depth =>
    rw [searchDepth_of_lookup hlookup]
    refine ⟨hcovers, List.forall_mem_singleton.2 (.inl ?_), fun _ => id⟩
    unfold DepthSearch.Knows
    rw [hlookup]
    rfl
  | none =>
    by_cases hmem : name ∈ s.unvisited
    . have hlt := DepthSearch.length_visit_lt hmem
      have hprogress := progress_searchDeepest hg (hcovers.visit name)
        (hg.mem_names_of_mem_uses name)
      rw [(searchDepth_of_mem hlookup hmem).2]
      refine ⟨hprogress.covers.learn _, List.forall_mem_singleton.2 (.inl ?_), ?_⟩
      . rw [DepthSearch.knows_learn_iff]
        exact .inl rfl
      . intro other hother
        rw [DepthSearch.knows_learn_iff]
        exact .inr (hprogress.kept other hother)
    . rw [searchDepth_of_not_mem hlookup hmem]
      refine ⟨hcovers, List.forall_mem_singleton.2 ?_, fun _ => id⟩
      exact (hcovers name hname).resolve_left hmem
termination_by (s.unvisited.length, 0)
decreasing_by
  simp only [Prod.lex_def]
  omega

theorem progress_searchDeepest (hg : g.WellFormed) {s : DepthSearch} {busy : String → Prop}
    (hcovers : s.Covers g busy) {names : List String} (hnames : ∀ name ∈ names, name ∈ g.names) :
    s.Progress g busy (searchDeepest g s names).2.val names := by
  match names with
  | [] =>
    rw [searchDeepest_nil]
    exact ⟨hcovers, by simp, fun _ => id⟩
  | name :: rest =>
    have hle := (searchDepth g s name).2.property
    rw [List.forall_mem_cons] at hnames
    have hfirst := progress_searchDepth hg hcovers hnames.1
    have hrest := progress_searchDeepest hg hfirst.covers hnames.2
    rw [(searchDeepest_cons name rest).2]
    refine ⟨hrest.covers, List.forall_mem_cons.2 ⟨?_, hrest.found⟩, ?_⟩
    . exact (hfirst.found name (List.mem_singleton.2 rfl)).imp_left (hrest.kept name)
    . intro other hother
      exact hrest.kept other (hfirst.kept other hother)
termination_by (s.unvisited.length, names.length + 1)
decreasing_by
  . simp [Prod.lex_def]
  . simp only [Prod.lex_def, List.length_cons]
    omega

end

def IsDeepest (g : Graph) (names : List String) (deepest : Nat) : Prop :=
  (∀ name ∈ names, ∃ h ≤ deepest, g.IsHeight name h) ∧
    (names = [] ∧ deepest = 0 ∨ ∃ name ∈ names, g.IsHeight name deepest)

theorem isDeepest_cons {rest : List String} {deepest : Nat} (hname : g.IsHeight name height)
    (hrest : g.IsDeepest rest deepest) : g.IsDeepest (name :: rest) (max height deepest) := by
  refine ⟨List.forall_mem_cons.2 ⟨⟨height, Nat.le_max_left _ _, hname⟩, ?_⟩, .inr ?_⟩
  . intro other hother
    rcases hrest.1 other hother with ⟨h, hle, hh⟩
    exact ⟨h, Nat.le_trans hle (Nat.le_max_right _ _), hh⟩
  . rcases Nat.le_total deepest height with hle | hle
    . rw [Nat.max_eq_left hle]
      exact ⟨name, List.mem_cons_self, hname⟩
    . rw [Nat.max_eq_right hle]
      rcases hrest.2 with ⟨-, rfl⟩ | ⟨other, hother, hheight⟩
      . rw [Nat.le_zero.1 hle] at hname
        exact ⟨name, List.mem_cons_self, hname⟩
      . exact ⟨other, List.mem_cons_of_mem _ hother, hheight⟩

theorem isHeight_depthAbove {deepest : Nat} (h : g.IsDeepest (g.uses name) deepest) :
    g.IsHeight name (depthAbove g name deepest) := by
  unfold depthAbove
  split
  . next hnone =>
    apply isHeight_zero
    intro used huse
    rw [← mem_uses_iff, hnone] at huse
    exact List.not_mem_nil huse
  . next hsome =>
    rcases h.2 with ⟨hnone, -⟩ | ⟨used, hused, hheight⟩
    . exact absurd hnone hsome
    . apply isHeight_succ (mem_uses_iff.1 hused) hheight
      intro other hother
      exact h.1 other (mem_uses_iff.2 hother)

mutual

theorem sound_searchDepth (hg : g.WellFormed) {s : DepthSearch} {busy : String → Prop}
    (hcovers : s.Covers g busy) (hsound : s.Sound g) {name : String} (hname : name ∈ g.names)
    (hbusy : ∀ b, busy b → g.Reaches b name) :
    (searchDepth g s name).2.val.Sound g ∧
      (g.Grounded name → g.IsHeight name (searchDepth g s name).1) := by
  cases hlookup : s.depths.lookup name with
  | some depth =>
    rw [searchDepth_of_lookup hlookup]
    exact ⟨hsound, hsound name depth hlookup⟩
  | none =>
    by_cases hmem : name ∈ s.unvisited
    . have hlt := DepthSearch.length_visit_lt hmem
      have hnext := sound_searchDeepest hg (hcovers.visit name) hsound
        (hg.mem_names_of_mem_uses name) (by
          intro used hused b hb
          have huse := mem_uses_iff.1 hused
          rcases hb with hb | rfl
          . exact (hbusy b hb).tail huse
          . exact .single huse)
      have hheight (hgrounded : g.Grounded name) : g.IsHeight name
          (depthAbove g name (searchDeepest g (s.visit name) (g.uses name)).1) := by
        apply isHeight_depthAbove
        apply hnext.2
        intro used hused
        exact hgrounded.of_uses (mem_uses_iff.1 hused)
      rw [(searchDepth_of_mem hlookup hmem).1, (searchDepth_of_mem hlookup hmem).2]
      exact ⟨hnext.1.learn hheight, hheight⟩
    . rw [searchDepth_of_not_mem hlookup hmem]
      refine ⟨hsound, ?_⟩
      intro hgrounded
      -- The search can only be busy with the node if it has come back to it.
      rcases hcovers name hname with hleft | hknown | hself
      . exact absurd hleft hmem
      . unfold DepthSearch.Knows at hknown
        rw [hlookup] at hknown
        cases hknown
      . exact absurd (hbusy name hself) hgrounded.not_reaches
termination_by (s.unvisited.length, 0)
decreasing_by
  simp only [Prod.lex_def]
  omega

theorem sound_searchDeepest (hg : g.WellFormed) {s : DepthSearch} {busy : String → Prop}
    (hcovers : s.Covers g busy) (hsound : s.Sound g) {names : List String}
    (hnames : ∀ name ∈ names, name ∈ g.names)
    (hbusy : ∀ name ∈ names, ∀ b, busy b → g.Reaches b name) :
    (searchDeepest g s names).2.val.Sound g ∧
      ((∀ name ∈ names, g.Grounded name) → g.IsDeepest names (searchDeepest g s names).1) := by
  match names with
  | [] =>
    rw [searchDeepest_nil]
    exact ⟨hsound, fun _ => ⟨by simp, .inl ⟨rfl, rfl⟩⟩⟩
  | name :: rest =>
    have hle := (searchDepth g s name).2.property
    rw [List.forall_mem_cons] at hnames hbusy
    have hfirst := sound_searchDepth hg hcovers hsound hnames.1 hbusy.1
    have hprogress := progress_searchDepth hg hcovers hnames.1
    have hrest := sound_searchDeepest hg hprogress.covers hfirst.1 hnames.2 hbusy.2
    rw [(searchDeepest_cons name rest).1, (searchDeepest_cons name rest).2]
    refine ⟨hrest.1, ?_⟩
    intro hgrounded
    rw [List.forall_mem_cons] at hgrounded
    exact isDeepest_cons (hfirst.2 hgrounded.1) (hrest.2 hgrounded.2)
termination_by (s.unvisited.length, names.length + 1)
decreasing_by
  . simp [Prod.lex_def]
  . simp only [Prod.lex_def, List.length_cons]
    omega

end

theorem covers_start (g : Graph) (depths : List (String × Nat)) :
    DepthSearch.Covers g (fun _ => False) ⟨g.names, depths⟩ :=
  fun _ hname => .inl hname

theorem isSome_depth?_withDepths (hg : g.WellFormed) (hname : name ∈ g.names) :
    (g.withDepths.depth? name).isSome := by
  have h := progress_searchDeepest hg (covers_start g g.depths) fun _ => id
  exact (h.found name hname).resolve_right id

theorem val_searchDeepest_of_knows {s : DepthSearch} (h : ∀ name ∈ names, s.Knows name) :
    (searchDeepest g s names).2.val = s := by
  induction names with
  | nil => rw [searchDeepest_nil]
  | cons name rest ih =>
    rw [List.forall_mem_cons] at h
    rcases Option.isSome_iff_exists.1 h.1 with ⟨depth, hdepth⟩
    rw [(searchDeepest_cons name rest).2, searchDepth_of_lookup hdepth]
    exact ih h.2

theorem withDepths_withDepths (hg : g.WellFormed) : g.withDepths.withDepths = g.withDepths := by
  have hknown : ∀ name ∈ g.withDepths.names, DepthSearch.Knows ⟨g.names, g.withDepths.depths⟩ name :=
    fun name hname => isSome_depth?_withDepths hg hname
  show { g.withDepths with depths := (searchDeepest g.withDepths
    ⟨g.names, g.withDepths.depths⟩ g.withDepths.names).2.val.depths } = g.withDepths
  rw [val_searchDeepest_of_knows hknown]

theorem exists_depth?_withDepths (hg : g.WellFormed) (hfresh : g.depths = [])
    (hname : name ∈ g.names) (hgrounded : g.Grounded name) :
    ∃ depth, g.withDepths.depth? name = some depth ∧ g.IsHeight name depth := by
  rcases Option.isSome_iff_exists.1 (isSome_depth?_withDepths hg hname) with ⟨depth, hdepth⟩
  have hsound : DepthSearch.Sound g ⟨g.names, g.depths⟩ := by
    intro other known hknown
    rw [hfresh] at hknown
    cases hknown
  have h := sound_searchDeepest hg (covers_start g g.depths) hsound (fun _ => id) (by simp)
  exact ⟨depth, hdepth, h.1 name depth hdepth hgrounded⟩

end IdlCompiler.Graph
