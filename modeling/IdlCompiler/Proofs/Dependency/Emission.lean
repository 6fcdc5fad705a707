import IdlCompiler.Proofs.Dependency.Construction

/-!
This module contains the invariants of emissions. Nothing is lost on the way, no node is emitted
before its users, and no node is passed over: what an emission leaves has users that it leaves too.
-/

namespace IdlCompiler.Graph

variable {g : Graph}

def UsersBehind (g : Graph) : List String → Prop
  | [] => True
  | name :: rest => (∀ user, g.Uses user name → user ∈ rest) ∧ UsersBehind g rest

namespace UsersBehind

theorem not_keptBack {names : List String} (h : g.UsersBehind names) :
    ∀ name ∈ names, ¬g.KeptBack name := by
  induction names with
  | nil => simp
  | cons first rest ih =>
    intro name hmem hkept
    rcases List.mem_cons.1 hmem with rfl | hrest
    . rcases hkept.exists_user with ⟨user, huse, huserKept⟩
      exact ih h.2 user (h.1 user huse) huserKept
    . exact ih h.2 name hrest hkept

theorem pair_sublist {names : List String} (h : g.UsersBehind names) {user used : String}
    (huse : g.Uses user used) (hmem : used ∈ names) : [used, user].Sublist names := by
  induction names with
  | nil => simp at hmem
  | cons first rest ih =>
    rcases List.mem_cons.1 hmem with rfl | hrest
    . exact (List.singleton_sublist.2 (h.1 user huse)).cons_cons used
    . exact (ih h.2 hrest).cons first

end UsersBehind

theorem isFree_iff {e : Emission} {name : String} :
    g.isFree e name ↔ ∀ user, g.Uses user name → user ∉ e.unvisited := by
  unfold isFree
  rw [List.all_eq_true]
  simp [mem_users_iff]

theorem mem_children_iff {user used : String} : used ∈ g.children user ↔ g.Uses user used := by
  unfold children
  rw [List.mem_mergeSort, List.mem_reverse, mem_uses_iff]

/--
Every node is either left or emitted, and that once, and the emitted ones came behind their users.
-/
structure Emission.Valid (g : Graph) (e : Emission) : Prop where
  perm : (e.unvisited ++ e.emitted).Perm g.names
  usersBehind : g.UsersBehind e.emitted

namespace Emission.Valid

variable {e : Emission} {name : String}

theorem start (g : Graph) : Valid g ⟨g.names, []⟩ where
  perm := by simp
  usersBehind := trivial

theorem nodup (hg : g.WellFormed) (he : e.Valid g) : (e.unvisited ++ e.emitted).Nodup :=
  he.perm.nodup_iff.2 hg.nodup

theorem mem_names_iff (he : e.Valid g) :
    name ∈ g.names ↔ name ∈ e.unvisited ∨ name ∈ e.emitted := by
  rw [← he.perm.mem_iff, List.mem_append]

theorem emit (hg : g.WellFormed) (he : e.Valid g) (hmem : name ∈ e.unvisited)
    (hfree : g.isFree e name) : Valid g ⟨e.unvisited.erase name, name :: e.emitted⟩ where
  perm := by
    have hmove : (e.unvisited.erase name ++ name :: e.emitted).Perm
        (name :: e.unvisited.erase name ++ e.emitted) := List.perm_middle
    have hback : (name :: e.unvisited.erase name).Perm e.unvisited :=
      (List.perm_cons_erase hmem).symm
    exact (hmove.trans (hback.append_right e.emitted)).trans he.perm
  usersBehind := by
    refine ⟨?_, he.usersBehind⟩
    intro user huse
    have hleft := isFree_iff.1 hfree user huse
    exact (he.mem_names_iff.1 (hg.mem_names huse).1).resolve_left hleft

end Emission.Valid

theorem valid_emitFree (hg : g.WellFormed) {e : Emission} (he : e.Valid g) (names : List String) :
    (emitFree g e names).val.Valid g := by
  fun_induction emitFree g e names with
  | case1 e => exact he
  | case2 e name rest h _ e₁ _ hrun₁ e₂ _ hrun₂ ih₁ ih₂ =>
    rw [hrun₁] at ih₁
    rw [hrun₂] at ih₂
    exact ih₂ (ih₁ (he.emit hg h.1 h.2))
  | case3 e name rest h ih => exact ih he

theorem isFree_of_isFree_emitFree (hg : g.WellFormed) {e : Emission} (he : e.Valid g)
    {names : List String} {name : String}
    (hmem : name ∈ (emitFree g e names).val.unvisited)
    (hfree : g.isFree (emitFree g e names).val name) :
    name ∈ e.unvisited ∧ g.isFree e name ∧ name ∉ names := by
  -- A node is tried behind every one of its users, and so behind the last one.
  fun_induction emitFree g e names with
  | case1 e => exact ⟨hmem, hfree, List.not_mem_nil⟩
  | case2 e first rest h _ e₁ _ hrun₁ e₂ _ hrun₂ ih₁ ih₂ =>
    have he₀ := he.emit hg h.1 h.2
    have he₁ := valid_emitFree hg he₀ (g.children first)
    rw [hrun₁] at ih₁ he₁
    rw [hrun₂] at ih₂
    rcases ih₂ he₁ hmem hfree with ⟨hmem₁, hfree₁, hrest⟩
    rcases ih₁ he₀ hmem₁ hfree₁ with ⟨hmem₀, hfree₀, hchildren⟩
    have hnodup : e.unvisited.Nodup := (List.nodup_append.1 (he.nodup hg)).1
    rcases (hnodup.mem_erase_iff).1 hmem₀ with ⟨hne, hunvisited⟩
    refine ⟨hunvisited, ?_, by simp [hne, hrest]⟩
    rw [isFree_iff] at hfree₀ ⊢
    intro user huse huser
    -- The node that was emitted last is no user, as its children were tried.
    have hother : user ≠ first := by
      rintro rfl
      exact hchildren (mem_children_iff.2 huse)
    exact hfree₀ user huse ((hnodup.mem_erase_iff).2 ⟨hother, huser⟩)
  | case3 e first rest h ih =>
    rcases ih he hmem hfree with ⟨hunvisited, hfree₀, hrest⟩
    refine ⟨hunvisited, hfree₀, ?_⟩
    intro hnames
    rcases List.mem_cons.1 hnames with rfl | hmemRest
    . exact h ⟨hunvisited, hfree₀⟩
    . exact hrest hmemRest

end IdlCompiler.Graph
