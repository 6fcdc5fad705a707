import IdlCompiler.IdlType.Basic
import IdlCompiler.Token.Cursor

/-!
This module contains the reading of type expressions.
-/

namespace IdlCompiler.IdlType

open Cursor

mutual

def read (eof : Pos) (ts : List Token) : Except Diagnostic (IdlType × Shorter ts) := do
  let (t, rest) ← readPlain eof ts
  match takeOp? '?' rest.val with
  | some rest₁ => return (.optional t, rest.next rest₁)
  | none => return (t, rest)
termination_by (ts.length, 1)

/--
Read a type that is not optional. The words `sequence`, `union` and `record` always start their own
kind of type; `long` takes no arguments, and two of it make up one name.
-/
def readPlain (eof : Pos) (ts : List Token) : Except Diagnostic (IdlType × Shorter ts) := do
  let (name, ⟨rest, h⟩) ← takeIdent eof ts
  if name.text = "long" then
    match takeWord? "long" rest with
    | some ⟨rest₁, h₁⟩ => return (.simple "long long", ⟨rest₁, by omega⟩)
    | none => return (.simple "long", ⟨rest, h⟩)
  else if name.text = "sequence" then
    let ⟨rest₁, h₁⟩ ← takeOp eof '<' rest
    let (elem, ⟨rest₂, h₂⟩) ← read eof rest₁
    let ⟨rest₃, h₃⟩ ← takeOp eof '>' rest₂
    return (.sequence elem, ⟨rest₃, by omega⟩)
  else if name.text = "union" then
    let ⟨rest₁, h₁⟩ ← takeOp eof '<' rest
    let (members, ⟨rest₂, h₂⟩) ← readArgs eof rest₁
    return (.union members, ⟨rest₂, by omega⟩)
  else if name.text = "record" then
    let ⟨rest₁, h₁⟩ ← takeOp eof '<' rest
    let (key, ⟨rest₂, h₂⟩) ← read eof rest₁
    let ⟨rest₃, h₃⟩ ← takeOp eof ',' rest₂
    let (value, ⟨rest₄, h₄⟩) ← read eof rest₃
    let ⟨rest₅, h₅⟩ ← takeOp eof '>' rest₄
    return (.record key value, ⟨rest₅, by omega⟩)
  else
    match takeOp? '<' rest with
    | some ⟨rest₁, h₁⟩ =>
      let (args, ⟨rest₂, h₂⟩) ← readArgs eof rest₁
      return (.generic name.text args, ⟨rest₂, by omega⟩)
    | none => return (.simple name.text, ⟨rest, h⟩)
termination_by (ts.length, 0)

def readArgs (eof : Pos) (ts : List Token) : Except Diagnostic (List IdlType × Shorter ts) := do
  let (t, ⟨rest₁, h₁⟩) ← read eof ts
  let (more, ⟨rest₂, h₂⟩) ← takeSeparator eof ',' '>' rest₁
  if more then
    let (args, ⟨rest₃, h₃⟩) ← readArgs eof rest₂
    return (t :: args, ⟨rest₃, by omega⟩)
  else
    return ([t], ⟨rest₂, by omega⟩)
termination_by (ts.length, 2)

end

end IdlCompiler.IdlType
