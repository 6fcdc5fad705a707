import IdlCompiler.Token.Cursor

/-!
This module contains the extended attributes in square brackets in front of declarations, members and
arguments: their text, their reading, and the values they are normalized to.
-/

namespace IdlCompiler

structure ExtAttr where
  name : Name
  args : List Lexeme
  deriving DecidableEq, Repr

namespace ExtAttr

/--
The text of an extended attribute. Strings are not escaped.
-/
def text (a : ExtAttr) : String :=
  match a.args with
  | [] => a.name.text
  | [arg] => a.name.text ++ "=" ++ arg.description
  | args => a.name.text ++ "(" ++ ", ".intercalate (args.map Lexeme.description) ++ ")"

def blockText : List ExtAttr → String
  | [] => ""
  | attrs => "[" ++ ", ".intercalate (attrs.map text) ++ "] "

open Cursor

def readArgs (eof : Pos) (ts : List Token) : Except Diagnostic (List Lexeme × Shorter ts) := do
  let (arg, ⟨rest₁, h₁⟩) ← takeLiteral eof ts
  let (more, ⟨rest₂, h₂⟩) ← takeSeparator eof ',' ')' rest₁
  if more then
    let (args, ⟨rest₃, h₃⟩) ← readArgs eof rest₂
    return (arg :: args, ⟨rest₃, by omega⟩)
  else
    return ([arg], ⟨rest₂, by omega⟩)
termination_by ts.length

def read (eof : Pos) (ts : List Token) : Except Diagnostic (ExtAttr × Shorter ts) := do
  let (name, rest) ← takeIdent eof ts
  match takeOp? '=' rest.val, takeOp? '(' rest.val with
  | some rest₁, _ =>
    let (arg, rest₂) ← takeLiteral eof rest₁.val
    return (⟨name, [arg]⟩, rest.next (rest₁.next rest₂))
  | none, some rest₁ =>
    let (args, rest₂) ← readArgs eof rest₁.val
    return (⟨name, args⟩, rest.next (rest₁.next rest₂))
  | none, none => return (⟨name, []⟩, rest)

def readAll (eof : Pos) (ts : List Token) : Except Diagnostic (List ExtAttr × Shorter ts) := do
  let (attr, ⟨rest₁, h₁⟩) ← read eof ts
  let (more, ⟨rest₂, h₂⟩) ← takeSeparator eof ',' ']' rest₁
  if more then
    let (attrs, ⟨rest₃, h₃⟩) ← readAll eof rest₂
    return (attr :: attrs, ⟨rest₃, by omega⟩)
  else
    return ([attr], ⟨rest₂, by omega⟩)
termination_by ts.length

def readBlock (eof : Pos) (ts : List Token) : Except Diagnostic (List ExtAttr × NotLonger ts) :=
  match takeOp? '[' ts with
  | some rest => do
    let (attrs, rest₁) ← readAll eof rest.val
    return (attrs, (rest.next rest₁).weaken)
  | none => return ([], .all ts)

end ExtAttr

inductive AttrValue where
  | absent
  | flag (value : Bool)
  | text (value : String)
  | texts (values : List String)
  deriving DecidableEq, Repr

abbrev AttrValues : Type :=
  List (String × AttrValue)

namespace AttrValues

def get? (values : AttrValues) (name : String) : Option AttrValue :=
  values.lookup name

def set (values : AttrValues) (name : String) (value : AttrValue) : AttrValues :=
  values.map fun entry => if entry.1 = name then (name, value) else entry

def flag (values : AttrValues) (name : String) : Bool :=
  values.get? name = some (.flag true)

def text (values : AttrValues) (name : String) : String :=
  match values.get? name with
  | some (.text value) => value
  | some (.texts (value :: _)) => value
  | _ => ""

def texts (values : AttrValues) (name : String) : List String :=
  match values.get? name with
  | some (.text value) => [value]
  | some (.texts values) => values
  | _ => []

def isSet (values : AttrValues) (name : String) : Bool :=
  match values.get? name with
  | none => false
  | some .absent => false
  | some _ => true

end AttrValues

end IdlCompiler
