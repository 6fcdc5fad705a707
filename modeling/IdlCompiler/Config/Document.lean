import IdlCompiler.Json.Reader
import IdlCompiler.Template.Value

/-!
This module contains configuration documents as trees, whatever format they are written in.
-/

namespace IdlCompiler

inductive Format where
  | json
  | yaml
  | toml
  deriving DecidableEq, Repr

namespace Format

def text : Format → String
  | .json => "json"
  | .yaml => "yaml"
  | .toml => "toml"

def ofText? (name : String) : Option Format :=
  [Format.json, .yaml, .toml].find? fun f => f.text = name

def integerName : Format → String
  | .json => "float64"
  | .yaml => "int"
  | .toml => "int64"

end Format

def Scalar.typeName (format : Format) : Scalar → String
  | .null => "<nil>"
  | .bool _ => "bool"
  | .integer _ => format.integerName
  | .unsigned _ => "uint64"
  | .float _ => "float64"
  | .text _ => "string"
  | .moment _ => "time.Time"

inductive Document where
  | scalar (value : Scalar)
  | list (items : List Document)
  | table (entries : List (String × Document))
  /-- Tables that were opened one after the other under the same name. -/
  | tables (items : List (List (String × Document)))
  /-- A table with keys that are not all texts. -/
  | keyed (entries : List (Scalar × Document))
  deriving Inhabited

namespace Document

def typeName (format : Format) : Document → String
  | .scalar s => s.typeName format
  | .list _ => "[]interface \x7b\x7d"
  | .table _ => "map[string]interface \x7b\x7d"
  | .tables _ => "[]map[string]interface \x7b\x7d"
  | .keyed _ => "map[interface \x7b\x7d]interface \x7b\x7d"

def insert {α : Type} (key : String) (value : α) (entries : List (String × α)) :
    List (String × α) :=
  entries.filter (·.1 ≠ key) ++ [(key, value)]

mutual

def ofJson? : Json → Option Document
  | .null => some (.scalar .null)
  | .bool b => some (.scalar (.bool b))
  | .number n => n.toFloat?.map fun x => .scalar (.float x)
  | .string s => some (.scalar (.text s))
  | .array items => (ofItems? items).map .list
  | .object members => (ofMembers? [] members).map .table

def ofItems? : List Json → Option (List Document)
  | [] => some []
  | v :: vs =>
    match ofJson? v, ofItems? vs with
    | some d, some ds => some (d :: ds)
    | _, _ => none

def ofMembers? (entries : List (String × Document)) :
    List (String × Json) → Option (List (String × Document))
  | [] => some entries
  | (k, v) :: ms =>
    match ofJson? v with
    | some d => ofMembers? (insert k d entries) ms
    | none => none

end

def greatestNesting : Nat :=
  10000

def parseJson? (text : String) : Option Document :=
  match Json.parse? text with
  | some value => if value.nesting ≤ greatestNesting then ofJson? value else none
  | none => none

mutual

def toValue : Document → Value
  | .scalar .null => .null
  | .scalar (.bool b) => .bool b
  | .scalar (.integer n) => .int n
  | .scalar (.unsigned n) => .int n
  | .scalar (.float x) => .float x
  | .scalar (.text s) => .text s
  | .scalar (.moment m) => .moment m
  | .list items => .list (toValues items)
  | .table entries => .map (toEntries entries)
  | .tables items => .list (toMaps items)
  | .keyed entries => .keyed (toKeyed entries)

def toValues : List Document → List Value
  | [] => []
  | d :: ds => d.toValue :: toValues ds

def toEntries : List (String × Document) → List (String × Value)
  | [] => []
  | (k, d) :: rest => (k, d.toValue) :: toEntries rest

def toMaps : List (List (String × Document)) → List Value
  | [] => []
  | entries :: rest => .map (toEntries entries) :: toMaps rest

def toKeyed : List (Scalar × Document) → List (Scalar × Value)
  | [] => []
  | (k, d) :: rest => (k, d.toValue) :: toKeyed rest

end

end Document

end IdlCompiler
