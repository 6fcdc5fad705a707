import IdlCompiler.Json.Basic
import IdlCompiler.Pos
import IdlCompiler.Scalar
import IdlCompiler.Text.LetterCase
import IdlCompiler.Text.Quoted

/-!
This module contains the values that templates are rendered with: their members, their items, whether
they count as present, and their texts.
-/

namespace IdlCompiler

/--
A field of a record. Templates know it by its label up to a comma, or by its name if that is empty or
a dash. A field whose name starts in lower case is hidden from them.
-/
structure Field where
  name : String
  label : String
  deriving DecidableEq, Repr

namespace Field

def isHidden (f : Field) : Bool :=
  f.name.toList.head?.any Text.isLowerCase

def memberName (f : Field) : String :=
  let label := String.ofList (f.label.toList.takeWhile (· ≠ ','))
  if label = "" ∨ label = "-" then f.name else label

end Field

inductive Value where
  | null
  | bool (value : Bool)
  | int (value : Int)
  | float (value : Float)
  | text (value : String)
  | list (items : List Value)
  /-- A list that was never made: an empty one, except that it is null in JSON. -/
  | unmade
  | map (entries : List (String × Value))
  | intMap (entries : List (Int × Value))
  | keyed (entries : List (Scalar × Value))
  | moment (m : Moment)
  | record (fields : List (Field × Value))
  | position (pos : Pos)
  | reference (target : Value)
  | dangling
  /-- A value whose members are computed from their names. -/
  | computed (member? : String → Option String)
  deriving Inhabited

namespace Value

/--
The target of references. Computed members are not seen through a reference.
-/
def target : Value → Value
  | .reference v =>
    match v.target with
    | .computed _ => .record []
    | v => v
  | v => v

def member? (v : Value) (name : String) : Option Value :=
  match v.target with
  | .map entries => entries.lookup name
  | .record fields =>
    (fields.find? fun (f, _) => !f.isHidden && f.memberName = name).map (·.2)
  | .computed member? => (member? name).map .text
  | _ => none

def items? (v : Value) : Option (List Value) :=
  match v.target with
  | .list items => some items
  | .unmade => some []
  | _ => none

def isTruthy (v : Value) : Bool :=
  match v.target with
  | .null => false
  | .bool b => b
  | .int n => n ≠ 0
  | .float x => x != 0
  | .text s => s ≠ ""
  | .list items => !items.isEmpty
  | .unmade => false
  | .map entries => !entries.isEmpty
  | .intMap entries => !entries.isEmpty
  | .keyed entries => !entries.isEmpty
  | .dangling => false
  | _ => true

def floatStyle : Decimal.Style :=
  ⟨-4, some 6, 2, false⟩

def sortedByKey {α : Type} (entries : List (String × α)) : List (String × α) :=
  entries.mergeSort fun a b => a.1 ≤ b.1

def scalarText : Scalar → String
  | .null => "<nil>"
  | .bool b => if b then "true" else "false"
  | .integer n => toString n
  | .unsigned n => toString n
  | .float x => Decimal.write floatStyle x
  | .text s => s
  | .moment m => m.text

mutual

def innerText : Value → String
  | .null => "<nil>"
  | .bool b => if b then "true" else "false"
  | .int n => toString n
  | .float x => Decimal.write floatStyle x
  | .text s => s
  | .list items => "[" ++ " ".intercalate (innerTexts items) ++ "]"
  | .unmade => "[]"
  | .map entries => "map[" ++ " ".intercalate ((sortedByKey (entryTexts entries)).map fun (k, v) =>
      k ++ ":" ++ v) ++ "]"
  | .intMap entries =>
    let texts := (intEntryTexts entries).mergeSort fun a b => a.1 ≤ b.1
    "map[" ++ " ".intercalate (texts.map fun (k, v) => toString k ++ ":" ++ v) ++ "]"
  | .keyed entries =>
    let texts := (keyedTexts entries).mergeSort fun a b => a.1.le b.1
    "map[" ++ " ".intercalate (texts.map fun (k, v) => scalarText k ++ ":" ++ v) ++ "]"
  | .moment m => m.text
  | .record fields => "\x7b" ++ " ".intercalate (fieldTexts fields) ++ "\x7d"
  | .position pos => pos.text
  | .reference v => v.innerText
  | .dangling => "<nil>"
  | .computed _ => "\x7b\x7d"

def innerTexts : List Value → List String
  | [] => []
  | v :: vs => v.innerText :: innerTexts vs

def entryTexts : List (String × Value) → List (String × String)
  | [] => []
  | (k, v) :: rest => (k, v.innerText) :: entryTexts rest

def intEntryTexts : List (Int × Value) → List (Int × String)
  | [] => []
  | (k, v) :: rest => (k, v.innerText) :: intEntryTexts rest

def keyedTexts : List (Scalar × Value) → List (Scalar × String)
  | [] => []
  | (k, v) :: rest => (k, v.innerText) :: keyedTexts rest

def fieldTexts : List (Field × Value) → List String
  | [] => []
  | (_, v) :: rest => v.innerText :: fieldTexts rest

end

def emitted : Value → String
  | .null => ""
  | v => v.innerText

def summary (v : Value) : String :=
  match v.target with
  | .null => " -> nil"
  | .dangling => " -> nil"
  | .list [] => " -> []"
  | .unmade => " -> []"
  | .list _ => " -> [...]"
  | .map entries =>
    " -> \x7b" ++ ", ".intercalate (entries.map (·.1)).mergeSort ++ "\x7d"
  | .intMap entries =>
    " -> \x7b" ++ ", ".intercalate (entries.map fun e => toString e.1).mergeSort ++ "\x7d"
  | .keyed entries =>
    " -> \x7b" ++ ", ".intercalate (entries.map fun e => scalarText e.1).mergeSort ++ "\x7d"
  | .text s => " -> " ++ Text.quoted s
  | .record _ => ""
  | .position _ => ""
  | .moment _ => ""
  | v => " -> " ++ v.innerText

inductive JsonFault where
  | notANumber
  | infinite (negative : Bool)
  | keys
  deriving DecidableEq, Repr

def JsonFault.text : JsonFault → String
  | .notANumber => "json: unsupported value: NaN"
  | .infinite true => "json: unsupported value: -Inf"
  | .infinite false => "json: unsupported value: +Inf"
  | .keys => "json: unsupported type: map[interface \x7b\x7d]interface \x7b\x7d"

def JsonFault.ofFloat? (x : Float) : Option JsonFault :=
  if x.isNaN then some .notANumber
  else if x.isInf then some (.infinite (x < 0))
  else none

mutual

def jsonFault? : Value → Option JsonFault
  | .float x => JsonFault.ofFloat? x
  | .list items => itemsFault? items
  | .map entries =>
    ((entryFaults entries).mergeSort fun a b => a.1 ≤ b.1).findSome? (·.2)
  | .keyed _ => some .keys
  | .reference v => v.jsonFault?
  | _ => none

def itemsFault? : List Value → Option JsonFault
  | [] => none
  | v :: vs => v.jsonFault?.or (itemsFault? vs)

def entryFaults : List (String × Value) → List (String × Option JsonFault)
  | [] => []
  | (k, v) :: rest => (k, v.jsonFault?) :: entryFaults rest

end

mutual

/--
A value in JSON, with the keys of objects in order. What has no form in JSON is null, except that the
keys of maps are written as texts.
-/
def toJson : Value → Json
  | .null => .null
  | .bool b => .bool b
  | .int n => .ofInt n
  | .float x => if (JsonFault.ofFloat? x).isSome then .null else .number (.ofFloat x)
  | .text s => .string s
  | .list items => .array (toJsons items)
  | .unmade => .null
  | .map entries => .object (sortedByKey (entryJsons entries))
  | .intMap entries => .object (sortedByKey (intEntryJsons entries))
  | .keyed entries => .object (sortedByKey (keyedJsons entries))
  | .moment m => .string m.exchangeText
  | .record fields => .object (fieldJsons fields)
  | .position pos => .string pos.text
  | .reference v => v.toJson
  | .dangling => .null
  | .computed _ => .object []

def toJsons : List Value → List Json
  | [] => []
  | v :: vs => v.toJson :: toJsons vs

def entryJsons : List (String × Value) → List (String × Json)
  | [] => []
  | (k, v) :: rest => (k, v.toJson) :: entryJsons rest

def intEntryJsons : List (Int × Value) → List (String × Json)
  | [] => []
  | (k, v) :: rest => (toString k, v.toJson) :: intEntryJsons rest

def keyedJsons : List (Scalar × Value) → List (String × Json)
  | [] => []
  | (k, v) :: rest => (scalarText k, v.toJson) :: keyedJsons rest

def fieldJsons : List (Field × Value) → List (String × Json)
  | [] => []
  | (f, v) :: rest =>
    if f.isHidden || f.label = "-" then fieldJsons rest
    else (f.memberName, v.toJson) :: fieldJsons rest

end

end Value

end IdlCompiler
