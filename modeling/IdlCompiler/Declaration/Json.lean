import IdlCompiler.Declaration.Basic
import IdlCompiler.ExtAttr.Json
import IdlCompiler.Json.Printer

/-!
This module contains the JSON form of declarations. The keys of all objects are in order.
-/

namespace IdlCompiler

def Attribute.toJson (a : Attribute) : Json :=
  .object [("ext_attrs", AttrValues.toJson a.values), ("name", .string a.name),
    ("pos", .string a.pos.text), ("type", .string a.type.text)]

def Argument.toJson (a : Argument) : Json :=
  .object [("ext_attrs", AttrValues.toJson a.values), ("name", .string a.name),
    ("pos", .string a.pos.text), ("type", .string a.type.text)]

def Operation.toJson (o : Operation) : Json :=
  .object [("args", .array (o.args.map Argument.toJson)),
    ("ext_attrs", AttrValues.toJson o.values), ("name", .string o.name),
    ("pos", .string o.pos.text), ("result", .string o.result.text)]

def Enum.toJson (e : Enum) : Json :=
  .object [("ext_attrs", AttrValues.toJson e.header.values),
    ("items", if e.items.isEmpty then .null else .array (e.items.map .string)),
    ("kind", .string "enum"), ("name", .string e.header.name), ("pos", .string e.header.pos.text)]

def Interface.toJson (i : Interface) : Json :=
  let base :=
    match i.base with
    | some name => [("inherits", Json.string name)]
    | none => []
  .object <|
    [("attributes", .array (i.attributes.map Attribute.toJson)),
      ("ext_attrs", AttrValues.toJson i.header.values)] ++ base ++
    [("kind", .string "interface"), ("name", .string i.header.name),
      ("operations", .array (i.operations.map Operation.toJson)),
      ("partial", .bool i.header.isPartial), ("pos", .string i.header.pos.text)]

namespace Declaration

def toJson : Declaration → Json
  | .enum e => e.toJson
  | .interface i => i.toJson

def jsonText (ds : List Declaration) : String :=
  (Json.array (ds.map toJson)).indented "  " ++ "\n"

end Declaration

end IdlCompiler
