import IdlCompiler.ExtAttr.Basic
import IdlCompiler.IdlType.Basic

/-!
This module contains the declarations of interface definitions: enumerations and interfaces with
their attributes, operations and arguments.
-/

namespace IdlCompiler

structure Header where
  name : String
  pos : Pos
  isPartial : Bool
  attrs : List ExtAttr
  values : AttrValues
  deriving DecidableEq, Repr

structure Enum where
  header : Header
  items : List String
  deriving DecidableEq, Repr

structure Attribute where
  name : String
  type : IdlType
  pos : Pos
  attrs : List ExtAttr
  values : AttrValues
  deriving Repr

structure Argument where
  name : String
  type : IdlType
  pos : Pos
  attrs : List ExtAttr
  values : AttrValues
  deriving Repr

structure Operation where
  name : String
  result : IdlType
  args : List Argument
  pos : Pos
  attrs : List ExtAttr
  values : AttrValues
  deriving Repr

structure Interface where
  header : Header
  base : Option String
  attributes : List Attribute
  operations : List Operation
  deriving Repr

inductive Declaration where
  | enum (e : Enum)
  | interface (i : Interface)
  deriving Repr

namespace Operation

def types (o : Operation) : List IdlType :=
  o.result :: o.args.map (·.type)

end Operation

namespace Interface

def memberTypes (i : Interface) : List IdlType :=
  i.attributes.map (·.type) ++ i.operations.flatMap (·.types)

end Interface

namespace Declaration

def header : Declaration → Header
  | .enum e => e.header
  | .interface i => i.header

def name (d : Declaration) : String :=
  d.header.name

def keyword : Declaration → String
  | .enum _ => "enum"
  | .interface _ => "interface"

def setPartial (isPartial : Bool) : Declaration → Declaration
  | .enum e => .enum { e with header := { e.header with isPartial } }
  | .interface i => .interface { i with header := { i.header with isPartial } }

end Declaration

end IdlCompiler
