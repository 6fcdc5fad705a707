import IdlCompiler.Dependency.Graph

/-!
This module contains the order of the nodes of a graph in which, where possible, every name comes
before the names that refer to it. Cycles are tolerated.
-/

namespace IdlCompiler.Graph

/--
An emission in progress: the nodes that are left, and the emitted ones, the last one first.
-/
structure Emission where
  unvisited : List String
  emitted : List String

abbrev Emission.Later (e : Emission) : Type :=
  { e' : Emission // e'.unvisited.length ≤ e.unvisited.length }

def isFree (g : Graph) (e : Emission) (name : String) : Bool :=
  (g.users name).all (· ∉ e.unvisited)

/--
The names that a node refers to in the order in which they are tried: by depth, and at the same depth
from the last name to the first.
-/
def children (g : Graph) (name : String) : List String :=
  (g.uses name).reverse.mergeSort fun a b => (g.depth? a).getD 0 ≤ (g.depth? b).getD 0

def emitFree (g : Graph) (e : Emission) (names : List String) : e.Later :=
  match names with
  | [] => ⟨e, Nat.le_refl _⟩
  | name :: rest =>
    if h : name ∈ e.unvisited ∧ g.isFree e name then
      have hlt : (e.unvisited.erase name).length < e.unvisited.length := by
        have := List.length_pos_of_mem h.1
        rw [List.length_erase_of_mem h.1]
        omega
      let ⟨e₁, h₁⟩ := emitFree g ⟨e.unvisited.erase name, name :: e.emitted⟩ (g.children name)
      let ⟨e₂, h₂⟩ := emitFree g e₁ rest
      ⟨e₂, by simp only at h₁; omega⟩
    else
      emitFree g e rest
termination_by (e.unvisited.length, names.length)
decreasing_by
  · simp only [Prod.lex_def]
    omega
  · simp only [Prod.lex_def, List.length_cons]
    simp only at h₁
    omega
  · simp [Prod.lex_def]

/--
The order of the nodes of a graph with depths: the nodes that a cycle kept back, from the last name
to the first, and then the emitted nodes, the last one first.
-/
def emissionOrder (g : Graph) : List String :=
  let sorted := g.names.mergeSort
  let e := (emitFree g ⟨g.names, []⟩ sorted).val
  (sorted.filter (· ∈ e.unvisited)).reverse ++ e.emitted

def order (g : Graph) : List String × Graph :=
  let g := g.withDepths
  (g.emissionOrder, g)

end IdlCompiler.Graph
