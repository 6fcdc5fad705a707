import IdlCompiler.ExtAttr.Rule
import IdlCompiler.Json.Basic

/-!
This module contains the JSON form of the values of extended attributes.
-/

namespace IdlCompiler

def AttrValue.toJson : AttrValue → Json
  | .absent => .null
  | .flag value => .bool value
  | .text value => .string value
  | .texts values => .array (values.map .string)

def AttrValues.toJson (values : AttrValues) : Json :=
  .object ((values.mergeSort fun a b => a.1 ≤ b.1).map fun (name, value) => (name, value.toJson))

end IdlCompiler
