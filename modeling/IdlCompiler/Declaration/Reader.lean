import IdlCompiler.Declaration.Basic
import IdlCompiler.ExtAttr.Schema
import IdlCompiler.IdlType.Reader

/-!
This module contains the reading of declarations. Extended attributes are validated as soon as what
they are attached to is complete, so warnings and errors about them come in source order.
-/

namespace IdlCompiler.Declaration

open Cursor

abbrev Reading (α : Type) : Type :=
  Outcome Diagnostic α

def readComma (eof : Pos) (ts : List Token) : Except Diagnostic (NotLonger ts) :=
  match takeOp? ',' ts, takeOp? '}' ts with
  | some rest, _ => .ok rest.weaken
  | none, some _ => .ok (.all ts)
  | none, none => .error (unexpected eof (Lexeme.op ',').description ts)

/--
Read the strings of an enumeration up to its closing brace, which is left. Empty strings are dropped,
and the last string may have a comma behind it.
-/
def readItems (eof : Pos) (ts : List Token) : Except Diagnostic (List String × NotLonger ts) :=
  match ts with
  | ⟨.op '}', pos⟩ :: rest => .ok ([], .all (⟨.op '}', pos⟩ :: rest))
  | ⟨.string value, _⟩ :: rest => do
    let ⟨rest₁, h₁⟩ ← readComma eof rest
    let (items, ⟨rest₂, h₂⟩) ← readItems eof rest₁
    return (if value = "" then items else value :: items, ⟨rest₂, by simp; omega⟩)
  | ts => .error (unexpected eof (Lexeme.string "").kind ts)
termination_by ts.length

def readAttribute (s : Schema) (eof : Pos) (attrs : List ExtAttr) (ts : List Token) :
    Reading (Attribute × Shorter ts) := do
  let (type, rest₁) ← IdlType.read eof ts
  let (name, rest₂) ← takeIdent eof rest₁.val
  let rest₃ ← takeOp eof ';' rest₂.val
  let values ← s.validate .attribute attrs
  return (⟨name.text, type, name.pos, attrs, values⟩, rest₁.next (rest₂.next rest₃))

def readArguments (s : Schema) (eof : Pos) (ts : List Token) :
    Reading (List Argument × NotLonger ts) := do
  let (attrs, ⟨rest₁, h₁⟩) ← ExtAttr.readBlock eof ts
  if isAtOp ')' rest₁ then
    return ([], ⟨rest₁, h₁⟩)
  else if isAtIdent rest₁ then
    let (type, ⟨rest₂, h₂⟩) ← IdlType.read eof rest₁
    let (name, ⟨rest₃, h₃⟩) ← takeIdent eof rest₂
    let values ← s.validate .argument attrs
    let arg : Argument := ⟨name.text, type, name.pos, attrs, values⟩
    let rest : Shorter ts := NotLonger.next ⟨rest₁, h₁⟩ (Shorter.next ⟨rest₂, h₂⟩ ⟨rest₃, h₃⟩)
    if isAtOp ')' rest₃ then
      return ([arg], rest.weaken)
    else
      let ⟨rest₄, h₄⟩ ← takeOp eof ',' rest₃
      let (args, rest₅) ← readArguments s eof rest₄
      return (arg :: args, ((rest.next ⟨rest₄, h₄⟩).nextIf rest₅).weaken)
  else
    .fail (unexpected eof (Lexeme.op ')').description rest₁)
termination_by ts.length

def readOperation (s : Schema) (eof : Pos) (attrs : List ExtAttr) (ts : List Token) :
    Reading (Operation × Shorter ts) := do
  let (result, rest₁) ← IdlType.read eof ts
  let (name, rest₂) ← takeIdent eof rest₁.val
  let rest₃ ← takeOp eof '(' rest₂.val
  let (args, rest₄) ← readArguments s eof rest₃.val
  let rest₅ ← takeOp eof ')' rest₄.val
  let rest₆ ← takeOp eof ';' rest₅.val
  let values ← s.validate .operation attrs
  return (⟨name.text, result, args, name.pos, attrs, values⟩,
    rest₁.next (rest₂.next (rest₃.nextIf rest₄ |>.next (rest₅.next rest₆))))

def readMembers (s : Schema) (eof : Pos) (ts : List Token) :
    Reading (List Attribute × List Operation × NotLonger ts) := do
  let (attrs, ⟨rest₁, h₁⟩) ← ExtAttr.readBlock eof ts
  if isAtOp '}' rest₁ then
    return ([], [], ⟨rest₁, h₁⟩)
  else
    match takeWord? "attribute" rest₁ with
    | some ⟨rest₂, h₂⟩ =>
      let (member, ⟨rest₃, h₃⟩) ← readAttribute s eof attrs rest₂
      let (attributes, operations, ⟨rest₄, h₄⟩) ← readMembers s eof rest₃
      return (member :: attributes, operations, ⟨rest₄, by omega⟩)
    | none =>
      if isAtIdent rest₁ then
        let (member, ⟨rest₂, h₂⟩) ← readOperation s eof attrs rest₁
        let (attributes, operations, ⟨rest₃, h₃⟩) ← readMembers s eof rest₂
        return (attributes, member :: operations, ⟨rest₃, by omega⟩)
      else
        .fail (unexpected eof (Lexeme.ident "attribute").description rest₁)
termination_by ts.length

def readBase (eof : Pos) (ts : List Token) : Except Diagnostic (Option String × Shorter ts) := do
  let (noBase, rest₁) ← takeSeparator eof '{' ':' ts
  if noBase then
    return (none, rest₁)
  else
    let (base, rest₂) ← takeIdent eof rest₁.val
    let rest₃ ← takeOp eof '{' rest₂.val
    return (some base.text, rest₁.next (rest₂.next rest₃))

def readBody (s : Schema) (eof : Pos) (attrs : List ExtAttr) (kind name : Name)
    (base : Option String) (ts : List Token) : Reading (Declaration × NotLonger ts) := do
  if kind.text = "enum" then
    let (items, rest) ← readItems eof ts
    let values ← s.validate .enum attrs
    return (.enum ⟨⟨name.text, name.pos, false, attrs, values⟩, items⟩, rest)
  else if kind.text = "interface" then
    let (attributes, operations, rest) ← readMembers s eof ts
    let values ← s.validate .interface attrs
    return (.interface ⟨⟨name.text, name.pos, false, attrs, values⟩, base, attributes, operations⟩,
      rest)
  else
    .fail { pos := kind.pos, cause := .unknownDeclaration kind.text name.text }

def readOne (s : Schema) (eof : Pos) (attrs : List ExtAttr) (isPartial : Bool) (kind : Name)
    (ts : List Token) : Reading (Declaration × Shorter ts) := do
  let (name, rest₁) ← takeIdent eof ts
  let (base, rest₂) ← readBase eof rest₁.val
  let (declaration, rest₃) ← readBody s eof attrs kind name base rest₂.val
  if isPartial ∧ kind.text ≠ "interface" then
    .fail { pos := kind.pos, cause := .partialNonInterface }
  else
    let rest₄ ← takeOp eof '}' rest₃.val
    let rest₅ ← takeOp eof ';' rest₄.val
    return (declaration.setPartial isPartial,
      rest₁.next (rest₂.next (rest₃.next (rest₄.next rest₅))))

def readPartial (ts : List Token) : Bool × NotLonger ts :=
  match takeWord? "partial" ts with
  | some rest => (true, rest.weaken)
  | none => (false, .all ts)

/--
Read declarations up to the end of the file. What stands in front of a declaration may also stand in
front of the end.
-/
def readAll (s : Schema) (eof : Pos) (ts : List Token) : Reading (List Declaration) := do
  let (attrs, ⟨rest₁, _⟩) ← ExtAttr.readBlock eof ts
  let (isPartial, ⟨rest₂, _⟩) := readPartial rest₁
  if isAtEnd rest₂ then
    return []
  else
    let (kind, ⟨rest₃, _⟩) ← takeIdent eof rest₂
    let (declaration, ⟨rest₄, _⟩) ← readOne s eof attrs isPartial kind rest₃
    let declarations ← readAll s eof rest₄
    return declaration :: declarations
termination_by ts.length

def ofTokens (s : Schema) (stream : TokenStream) : Reading (List Declaration) :=
  readAll s stream.endPos stream.tokens

def ofSource (s : Schema) (file : String) (src : List Text.Glyph) :
    Outcome Error (List Declaration) :=
  match TokenStream.ofSource file src with
  | .error e => .fail (Error.ofLexError file e)
  | .ok stream => (ofTokens s stream).mapError Error.source

end IdlCompiler.Declaration
