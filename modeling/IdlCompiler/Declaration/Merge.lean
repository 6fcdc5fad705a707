import IdlCompiler.Declaration.Basic

/-!
This module contains the merging of declarations of the same name. A name may be declared several
times if all its declarations are of one kind and all but one are partial; an interface then has the
members of all its parts.
-/

namespace IdlCompiler

class Member (α : Type) where
  name : α → String
  pos : α → Pos

instance : Member Attribute where
  name := (·.name)
  pos := (·.pos)

instance : Member Operation where
  name := (·.name)
  pos := (·.pos)

def Member.append {α : Type} [Member α] (owner : String) (members : List α) :
    List α → Except Diagnostic (List α)
  | [] => .ok members
  | m :: ms =>
    match members.reverse.find? fun p => name p = name m with
    | some p =>
      .error {
        pos := pos m
        cause := .duplicateMember owner (name m)
        notes := [.previous (pos p)] }
    | none => append owner (members ++ [m]) ms

def Interface.merge (first next : Interface) : Except Diagnostic Interface := do
  let attributes ← Member.append first.header.name first.attributes next.attributes
  let operations ← Member.append first.header.name first.operations next.operations
  let isPartial := first.header.isPartial && next.header.isPartial
  return { first with attributes, operations, header := { first.header with isPartial } }

namespace Declaration

def merge (first next : Declaration) : Except Diagnostic Declaration :=
  let fail (cause : Cause) : Except Diagnostic Declaration :=
    .error { pos := next.header.pos, cause, notes := [.previous first.header.pos] }
  if first.keyword ≠ next.keyword then
    fail (.kindChanged next.name first.keyword next.keyword)
  else if !first.header.isPartial && !next.header.isPartial then
    fail (.notPartial next.name)
  else
    match first, next with
    | .interface i, .interface j => (i.merge j).map .interface
    | first, _ => .ok first

def insert (d : Declaration) : List Declaration → Except Diagnostic (List Declaration)
  | [] => .ok [d]
  | first :: rest =>
    if first.name = d.name then
      (merge first d).map (· :: rest)
    else
      (insert d rest).map (first :: ·)

def insertAll (known : List Declaration) (ds : List Declaration) :
    Except Diagnostic (List Declaration) :=
  ds.foldlM (fun known d => insert d known) known

end Declaration

end IdlCompiler
