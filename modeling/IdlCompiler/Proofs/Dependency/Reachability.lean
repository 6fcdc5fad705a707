import IdlCompiler.Dependency.Order
import Mathlib.Data.Fintype.Card
import Mathlib.Data.Fintype.EquivFin
import Mathlib.Data.Fintype.Sets
import Mathlib.Logic.Relation

/-!
This module contains the theory of references between the nodes of a graph: which nodes lie on a
cycle, and which ones a cycle keeps back because it leads to them.
-/

namespace IdlCompiler.Graph

open Relation

def Uses (g : Graph) (user used : String) : Prop :=
  (user, used) ∈ g.edges

def Reaches (g : Graph) (a b : String) : Prop :=
  TransGen g.Uses a b

/--
The node lies on a cycle, or references lead to it from a node that does.
-/
def KeptBack (g : Graph) (name : String) : Prop :=
  ∃ c, g.Reaches c c ∧ ReflTransGen g.Uses c name

variable {g : Graph} {a b name : String}

theorem mem_users_iff : a ∈ g.users b ↔ g.Uses a b := by
  unfold users Uses
  simp

theorem mem_uses_iff : b ∈ g.uses a ↔ g.Uses a b := by
  unfold uses Uses
  rw [List.mem_mergeSort, List.mem_eraseDups]
  simp

theorem KeptBack.of_uses (h : g.KeptBack a) (hab : g.Uses a b) : g.KeptBack b := by
  rcases h with ⟨c, hcycle, hpath⟩
  exact ⟨c, hcycle, hpath.tail hab⟩

theorem KeptBack.exists_user (h : g.KeptBack name) :
    ∃ user, g.Uses user name ∧ g.KeptBack user := by
  rcases h with ⟨c, hcycle, hpath⟩
  cases hpath with
  | refl =>
    rcases TransGen.tail'_iff.1 hcycle with ⟨user, hreach, huse⟩
    exact ⟨user, huse, name, hcycle, hreach⟩
  | tail hreach huse => exact ⟨_, huse, c, hcycle, hreach⟩

theorem keptBack_of_forall_exists_user {names : List String}
    (h : ∀ n ∈ names, ∃ user ∈ names, g.Uses user n) (hname : name ∈ names) :
    g.KeptBack name := by
  -- Going from user to user has to come back to the same node, since there are finitely many.
  by_contra hfree
  -- The nodes from which the walk comes, none of which lies on a cycle.
  let Origin : Type := { n : { n // n ∈ names } // ReflTransGen g.Uses n.val name }
  let r (m n : Origin) : Prop := g.Reaches m.val.val n.val.val
  have : IsTrans Origin r := ⟨fun _ _ _ => TransGen.trans⟩
  have : Std.Irrefl r := ⟨fun n hcycle => hfree ⟨_, hcycle, n.property⟩⟩
  have : Finite Origin := inferInstanceAs (Finite (Subtype _))
  have hwf : WellFounded r := Finite.wellFounded_of_trans_of_irrefl r
  have hnone (origin : Origin) : False := by
    induction origin using hwf.induction with
    | _ origin ih =>
      rcases h origin.val.val origin.val.property with ⟨user, hmem, huse⟩
      exact ih ⟨⟨user, hmem⟩, .head huse origin.property⟩ (.single huse)
  exact hnone ⟨⟨name, hname⟩, .refl⟩

end IdlCompiler.Graph
