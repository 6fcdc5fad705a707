import IdlCompiler.Dependency.Declarations
import IdlCompiler.Proofs.Dependency.Tolerance
import IdlCompiler.Proofs.IdlType.Contains

/-!
This module contains what the dependency order makes of declarations: it loses and adds none, and
where no references lead back to where they come from, each declaration stands behind those that it
refers to. Names that are built in or only referred to have no part in this.
-/

namespace IdlCompiler

open Relation

def Interface.Mentions (i : Interface) (name : String) : Prop :=
  (∃ a ∈ i.attributes, a.type.Contains name) ∨
    ∃ o ∈ i.operations, o.result.Contains name ∨ ∃ arg ∈ o.args, arg.type.Contains name

theorem Interface.mem_simpleNames_memberTypes_iff {i : Interface} {name : String} :
    name ∈ i.memberTypes.flatMap IdlType.simpleNames ↔ i.Mentions name := by
  unfold Interface.Mentions memberTypes Operation.types
  simp only [List.flatMap_append, List.mem_append, List.mem_flatMap, List.mem_map,
    List.mem_cons, IdlType.mem_simpleNames_iff]
  grind

namespace Declaration

/--
A declaration refers to a name: its base has it, or it is in the type of a member and not built in.
No declaration refers to itself, and none to or from the type that is bound late.
-/
def RefersTo (builtin : String → Bool) : Declaration → String → Prop
  | .enum _, _ => False
  | .interface i, name =>
    (i.base = some name ∨ i.Mentions name ∧ builtin name = false) ∧
      i.header.name ≠ name ∧ i.header.name ≠ Graph.deferred ∧ name ≠ Graph.deferred

def Refers (builtin : String → Bool) (ds : List Declaration) (user used : String) : Prop :=
  ∃ d ∈ ds, d.name = user ∧ d.RefersTo builtin used

def actions (builtin : String → Bool) : Declaration → List Graph.Action
  | .enum e => [.add e.header.name]
  | .interface i =>
    .add i.header.name ::
      (i.base.toList ++ (i.memberTypes.flatMap IdlType.simpleNames).filter (!builtin ·)).map
        (.use i.header.name)

end Declaration

namespace Graph

open Declaration

variable {builtin : String → Bool} {ds : List Declaration}

theorem useAll_eq_foldl_act (user : String) (g : Graph) (names : List String) :
    useAll builtin user g names =
      ((names.filter (!builtin ·)).map (Action.use user)).foldl act g := by
  unfold useAll
  induction names generalizing g with
  | nil => rfl
  | cons used names ih =>
    rw [List.foldl_cons, ih, List.filter_cons]
    cases builtin used <;> rfl

theorem addDeclaration_eq_foldl_act (g : Graph) (d : Declaration) :
    addDeclaration builtin g d = (d.actions builtin).foldl act g := by
  unfold addDeclaration actions
  cases d with
  | enum e => rfl
  | interface i =>
    dsimp only
    rw [useAll_eq_foldl_act, List.foldl_cons, List.map_append, List.foldl_append]
    cases i.base <;> rfl

theorem ofDeclarations_eq_ofActions (builtin : String → Bool) (ds : List Declaration) :
    ofDeclarations builtin ds = ofActions (ds.flatMap (actions builtin)) := by
  unfold ofDeclarations ofActions
  rw [List.foldl_flatMap]
  congr
  funext g d
  apply addDeclaration_eq_foldl_act

theorem exists_records_iff {d : Declaration} {user used : String} :
    (∃ action ∈ d.actions builtin, action.Records user used) ↔
      d.name = user ∧ d.RefersTo builtin used := by
  unfold actions RefersTo Action.Records
  cases d with
  | enum e => simp
  | interface i =>
    show _ ↔ i.header.name = user ∧ _
    simp only [← Interface.mem_simpleNames_memberTypes_iff, List.mem_cons, List.mem_map,
      List.mem_append, List.mem_filter, Option.mem_toList]
    constructor
    . rintro ⟨_, hmem, rfl, hne, huser, hused⟩
      rcases hmem with hadd | ⟨name, hname, huse⟩
      . cases hadd
      . cases huse
        simp_all
    . rintro ⟨rfl, hname, hne⟩
      exact ⟨_, .inr ⟨used, by simpa using hname, rfl⟩, rfl, hne⟩

theorem uses_ofDeclarations_iff {user used : String} :
    (ofDeclarations builtin ds).Uses user used ↔ Refers builtin ds user used := by
  rw [ofDeclarations_eq_ofActions, uses_ofActions_iff]
  unfold Refers
  simp only [← exists_records_iff, List.mem_flatMap]
  grind

theorem mem_names_ofDeclarations {d : Declaration} (hd : d ∈ ds) :
    d.name ∈ (ofDeclarations builtin ds).names := by
  rw [ofDeclarations_eq_ofActions, mem_names_ofActions_iff]
  refine ⟨.add d.name, List.mem_flatMap.2 ⟨d, hd, ?_⟩, ?_⟩
  . cases d <;> simp [actions, name, header]
  . simp [Action.nodes]

theorem wellFormed_ofDeclarations (builtin : String → Bool) (ds : List Declaration) :
    (ofDeclarations builtin ds).WellFormed := by
  rw [ofDeclarations_eq_ofActions]
  apply wellFormed_ofActions

end Graph

namespace Declaration

variable {builtin : String → Bool} {ds : List Declaration}

theorem find?_reverse_eq_some_iff (hnames : (ds.map name).Nodup) {n : String} {d : Declaration} :
    (ds.reverse.find? fun d => d.name = n) = some d ↔ d ∈ ds ∧ d.name = n := by
  constructor
  . intro h
    have hmem := List.mem_of_find?_eq_some h
    have hname := List.find?_some h
    exact ⟨List.mem_reverse.1 hmem, of_decide_eq_true hname⟩
  . rintro ⟨hmem, rfl⟩
    rcases hfind : ds.reverse.find? fun other => other.name = d.name with _ | other
    . have := List.find?_eq_none.1 hfind d (List.mem_reverse.2 hmem)
      simp at this
    . have hother := List.mem_reverse.1 (List.mem_of_find?_eq_some hfind)
      have hname : other.name = d.name := by simpa using List.find?_some hfind
      rw [hfind, List.inj_on_of_nodup_map hnames hother hmem hname]

theorem mem_inOrder_iff (hnames : (ds.map name).Nodup) {d : Declaration} :
    d ∈ inOrder builtin ds ↔ d ∈ ds := by
  unfold inOrder
  simp only [List.mem_filterMap, find?_reverse_eq_some_iff hnames]
  constructor
  . rintro ⟨_, _, hmem, -⟩
    exact hmem
  . intro hmem
    have hg := (Graph.wellFormed_ofDeclarations builtin ds).withDepths
    refine ⟨d.name, ?_, hmem, rfl⟩
    exact (Graph.perm_emissionOrder hg).mem_iff.2 (Graph.mem_names_ofDeclarations hmem)

theorem nodup_inOrder (hnames : (ds.map name).Nodup) : (inOrder builtin ds).Nodup := by
  have hg := (Graph.wellFormed_ofDeclarations builtin ds).withDepths
  unfold inOrder
  apply List.Nodup.filterMap
  . intro a b d ha hb
    rw [Option.mem_def, find?_reverse_eq_some_iff hnames] at ha hb
    exact ha.2.symm.trans hb.2
  . exact (Graph.perm_emissionOrder hg).nodup_iff.2 hg.nodup

theorem inOrder_perm (hnames : (ds.map name).Nodup) : (inOrder builtin ds).Perm ds := by
  apply (List.perm_ext_iff_of_nodup (nodup_inOrder hnames) (List.Nodup.of_map name hnames)).2
  intro d
  exact mem_inOrder_iff hnames

theorem pair_sublist_inOrder (hnames : (ds.map name).Nodup) {a b : Declaration} (ha : a ∈ ds)
    (hb : b ∈ ds)
    (h : Graph.Precedes (Graph.ofDeclarations builtin ds).order.1 b.name a.name) :
    [b, a].Sublist (inOrder builtin ds) := by
  have hsub := List.Sublist.filterMap (fun n => ds.reverse.find? fun d => d.name = n) h
  have hfind {d : Declaration} (hd : d ∈ ds) :
      (ds.reverse.find? fun other => other.name = d.name) = some d :=
    (find?_reverse_eq_some_iff hnames).2 ⟨hd, rfl⟩
  simp only [List.filterMap_cons, hfind hb, hfind ha, List.filterMap_nil] at hsub
  exact hsub

/--
Declarations with different names come out of the dependency order each one once, whichever names
are built in or have to do with the type that is bound late. If no references lead from a name back
to it, each declaration stands behind the ones that it refers to.
-/
theorem inOrder_perm_and_pair_sublist (builtin : String → Bool) (ds : List Declaration)
    (hnames : (ds.map name).Nodup) :
    (inOrder builtin ds).Perm ds ∧
      ((∀ n, ¬TransGen (Refers builtin ds) n n) →
        ∀ a ∈ ds, ∀ b ∈ ds, a.RefersTo builtin b.name → [b, a].Sublist (inOrder builtin ds)) := by
  refine ⟨inOrder_perm hnames, ?_⟩
  intro hacyclic a ha b hb href
  have hg := (Graph.wellFormed_ofDeclarations builtin ds).withDepths
  have huses : (Graph.ofDeclarations builtin ds).Uses = Refers builtin ds := by
    funext user used
    exact propext Graph.uses_ofDeclarations_iff
  have hfree := Graph.not_keptBack_of_acyclic (g := (Graph.ofDeclarations builtin ds).withDepths)
    (by unfold Graph.Reaches; exact huses ▸ hacyclic) a.name
  have huse : (Graph.ofDeclarations builtin ds).Uses a.name b.name := huses ▸ ⟨a, ha, rfl, href⟩
  apply pair_sublist_inOrder hnames ha hb
  exact Graph.precedes_emissionOrder_of_not_keptBack hg huse hfree

def circle : Interface where
  header := ⟨"Circle", {}, false, [], []⟩
  base := some "Shape"
  attributes := [⟨"marks", .sequence (.union [.simple "Color", .simple "long"]), {}, [], []⟩]
  operations := []

def shape : Interface where
  header := ⟨"Shape", {}, false, [], []⟩
  base := none
  attributes := []
  operations := [⟨"paint", .simple "callback", [⟨"c", .simple "Color", {}, [], []⟩], {}, [], []⟩]

def shapes : List Declaration :=
  [.interface circle, .enum ⟨⟨"long", {}, false, [], []⟩, []⟩, .interface shape,
    .enum ⟨⟨"callback", {}, false, [], []⟩, []⟩, .enum ⟨⟨"Color", {}, false, [], []⟩, []⟩]

theorem circle_mentions_iff {n : String} : circle.Mentions n ↔ n = "Color" ∨ n = "long" := by
  rw [← Interface.mem_simpleNames_memberTypes_iff]
  have : circle.memberTypes.flatMap IdlType.simpleNames = ["Color", "long"] := rfl
  simp [this]

theorem shape_mentions_iff {n : String} : shape.Mentions n ↔ n = "callback" ∨ n = "Color" := by
  rw [← Interface.mem_simpleNames_memberTypes_iff]
  have : shape.memberTypes.flatMap IdlType.simpleNames = ["callback", "Color"] := rfl
  simp [this]

def shapesRank (n : String) : Nat :=
  if n = "Circle" then 2 else if n = "Shape" then 1 else 0

theorem shapesRank_lt_of_refers {user used : String} (h : Refers (· = "long") shapes user used) :
    shapesRank used < shapesRank user := by
  rcases h with ⟨d, hd, rfl, href⟩
  simp only [shapes, List.mem_cons, List.not_mem_nil, or_false] at hd
  rcases hd with rfl | rfl | rfl | rfl | rfl
  all_goals simp only [RefersTo, circle_mentions_iff, shape_mentions_iff] at href
  . have : used = "Shape" ∨ used = "Color" := by
      simp only [circle, Graph.deferred] at href
      grind
    rcases this with rfl | rfl <;> decide
  . have : used = "Color" := by
      simp only [shape, Graph.deferred] at href
      grind
    rw [this]
    decide

theorem not_transGen_refers_shapes (n : String) : ¬TransGen (Refers (· = "long") shapes) n n := by
  have hrank {user used : String} (h : TransGen (Refers (· = "long") shapes) user used) :
      shapesRank used < shapesRank user := by
    induction h with
    | single href => exact shapesRank_lt_of_refers href
    | tail _ href ih => exact Nat.lt_trans (shapesRank_lt_of_refers href) ih
  intro h
  exact Nat.lt_irrefl _ (hrank h)

theorem inOrder_perm_and_pair_sublist_shapes :
    (shapes.map name).Nodup ∧
      (∀ n, ¬TransGen (Refers (· = "long") shapes) n n) ∧
      RefersTo (· = "long") (.interface circle) "Shape" ∧
      (inOrder (· = "long") shapes).Perm shapes ∧
      [.interface shape, .interface circle].Sublist (inOrder (· = "long") shapes) := by
  have hnames : (shapes.map name).Nodup := by decide
  have href : RefersTo (· = "long") (.interface circle) "Shape" := by
    simp [RefersTo, circle, Graph.deferred]
  have h := inOrder_perm_and_pair_sublist (· = "long") shapes hnames
  refine ⟨hnames, not_transGen_refers_shapes, href, h.1, ?_⟩
  exact h.2 not_transGen_refers_shapes (.interface circle) (by simp [shapes]) (.interface shape)
    (by simp [shapes]) href

end Declaration

end IdlCompiler
