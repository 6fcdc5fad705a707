/-!
This module contains the graphs that record which type names refer to which, and the depths of their
nodes. A depth that was computed once is kept.
-/

namespace IdlCompiler

structure Graph where
  names : List String := []
  edges : List (String × String) := []
  depths : List (String × Nat) := []
  deriving Repr

namespace Graph

/--
The name of the type that is bound late. Nothing depends on it, and it depends on nothing.
-/
def deferred : String :=
  "callback"

def add (g : Graph) (name : String) : Graph :=
  if name ∈ g.names then g else { g with names := g.names ++ [name] }

def use (g : Graph) (user used : String) : Graph :=
  if user = deferred ∨ used = deferred then
    g
  else if user = used then
    g.add user
  else
    let g := (g.add user).add used
    if (user, used) ∈ g.edges then g else { g with edges := g.edges ++ [(user, used)] }

def depth? (g : Graph) (name : String) : Option Nat :=
  g.depths.lookup name

def uses (g : Graph) (name : String) : List String :=
  (((g.edges.filter (·.1 = name)).map (·.2)).eraseDups).mergeSort

def users (g : Graph) (name : String) : List String :=
  (g.edges.filter (·.2 = name)).map (·.1)

structure DepthSearch where
  unvisited : List String
  depths : List (String × Nat)

abbrev DepthSearch.Later (s : DepthSearch) : Type :=
  { s' : DepthSearch // s'.unvisited.length ≤ s.unvisited.length }

mutual

/--
The depth of a node: zero if it refers to nothing, otherwise one more than the greatest depth it
refers to. A node that the search is still busy with counts as zero.
-/
def searchDepth (g : Graph) (s : DepthSearch) (name : String) : Nat × s.Later :=
  match s.depths.lookup name with
  | some depth => (depth, ⟨s, Nat.le_refl _⟩)
  | none =>
    if h : name ∈ s.unvisited then
      have hlt : (s.unvisited.erase name).length < s.unvisited.length := by
        have := List.length_pos_of_mem h
        rw [List.length_erase_of_mem h]
        omega
      let s₁ : DepthSearch := { s with unvisited := s.unvisited.erase name }
      match g.uses name with
      | [] => (0, ⟨{ s₁ with depths := (name, 0) :: s₁.depths }, Nat.le_of_lt hlt⟩)
      | used :: rest =>
        let (deepest, ⟨s₂, h₂⟩) := searchDeepest g s₁ (used :: rest)
        (deepest + 1, ⟨{ s₂ with depths := (name, deepest + 1) :: s₂.depths },
          Nat.le_trans h₂ (Nat.le_of_lt hlt)⟩)
    else
      (0, ⟨s, Nat.le_refl _⟩)
termination_by (s.unvisited.length, 0)

def searchDeepest (g : Graph) (s : DepthSearch) (names : List String) : Nat × s.Later :=
  match names with
  | [] => (0, ⟨s, Nat.le_refl _⟩)
  | name :: rest =>
    let (depth, ⟨s₁, h₁⟩) := searchDepth g s name
    let (deepest, ⟨s₂, h₂⟩) := searchDeepest g s₁ rest
    (max depth deepest, ⟨s₂, Nat.le_trans h₂ h₁⟩)
termination_by (s.unvisited.length, names.length + 1)
decreasing_by
  · simp [Prod.lex_def]
  · simp only [Prod.lex_def, List.length_cons]
    omega

end

def withDepths (g : Graph) : Graph :=
  { g with depths := (searchDeepest g ⟨g.names, g.depths⟩ g.names).2.val.depths }

end Graph

end IdlCompiler
