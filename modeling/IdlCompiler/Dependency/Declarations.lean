import IdlCompiler.Declaration.Basic
import IdlCompiler.Dependency.Order

/-!
This module contains the dependencies between declarations and their order.
-/

namespace IdlCompiler

namespace Graph

def useAll (builtin : String → Bool) (user : String) (g : Graph) (names : List String) : Graph :=
  names.foldl (fun g used => if builtin used then g else g.use user used) g

def addDeclaration (builtin : String → Bool) (g : Graph) (d : Declaration) : Graph :=
  let g := g.add d.name
  match d with
  | .enum _ => g
  | .interface i =>
    let g :=
      match i.base with
      | some base => g.use d.name base
      | none => g
    useAll builtin d.name g (i.memberTypes.flatMap IdlType.simpleNames)

def ofDeclarations (builtin : String → Bool) (ds : List Declaration) : Graph :=
  ds.foldl (addDeclaration builtin) {}

end Graph

/--
Declarations in dependency order. Names that are only referred to shape the order, but there is
nothing in it for them.
-/
def Declaration.inOrder (builtin : String → Bool) (ds : List Declaration) : List Declaration :=
  (Graph.ofDeclarations builtin ds).order.1.filterMap fun name =>
    ds.reverse.find? fun d => d.name = name

end IdlCompiler
