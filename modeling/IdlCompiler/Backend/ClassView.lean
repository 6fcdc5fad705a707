import IdlCompiler.Backend.Requirement
import IdlCompiler.Template.Value
import IdlCompiler.Text.LetterCase

/-!
This module contains the views of declarations that templates for native code and for stub files are
rendered with.
-/

namespace IdlCompiler

def AttrValue.toValue : AttrValue → Value
  | .absent => .null
  | .flag value => .bool value
  | .text value => .text value
  | .texts values => .list (values.map .text)

def AttrValues.toValue (values : AttrValues) : Value :=
  .map (values.map fun (name, value) => (name, value.toValue))

def Value.ofTexts (texts : List String) : Value :=
  .list (texts.map .text)

def Value.ofText? (text : Option String) : Value :=
  (text.map .text).getD .null

namespace ClassView

def guardsOf (values : AttrValues) : List String :=
  values.texts "guards" ++ if values.isSet "guard" then [values.text "guard"] else []

def replaced (old new : Char) (s : String) : String :=
  s.map fun c => if c = old then new else c

structure Attribute where
  name : String
  key : String
  type : String
  initializer : String
  guards : List String
  values : AttrValues
  forVariant : Bool

def Attribute.toValue (a : Attribute) : Value :=
  .map [("name", .text a.name), ("key", .text a.key), ("type", .text a.type),
    ("default", .text a.initializer), ("guards", .ofTexts a.guards),
    ("ext_attrs", AttrValues.toValue a.values), ("for_variant", .bool a.forVariant)]

structure Argument where
  name : String
  type : String
  values : AttrValues
  comma : Bool

def Argument.toValue (a : Argument) : Value :=
  .map [("name", .text a.name), ("type", .text a.type),
    ("ext_attrs", AttrValues.toValue a.values), ("comma", .bool a.comma)]

structure Operation where
  name : String
  type : String
  guards : List String
  values : AttrValues
  args : List Argument

def Operation.toValue (o : Operation) : Value :=
  .map [("name", .text o.name), ("type", .text o.type), ("guards", .ofTexts o.guards),
    ("ext_attrs", AttrValues.toValue o.values), ("args", .list (o.args.map Argument.toValue))]

structure Subtype where
  name : String
  condition : String
  attributes : List Attribute

def Subtype.toValue (s : Subtype) : Value :=
  .map [("name", .text s.name), ("expr", .text s.condition),
    ("attributes", .list (s.attributes.map Attribute.toValue))]

structure Interface where
  name : String
  values : AttrValues
  attributes : List Attribute
  operations : List Operation
  base : Option String
  subtypes : List Subtype

def Interface.toValue (i : Interface) : Value :=
  .map [("name", .text i.name), ("ext_attrs", AttrValues.toValue i.values),
    ("attributes", .list (i.attributes.map Attribute.toValue)),
    ("operations", .list (i.operations.map Operation.toValue)),
    ("inheritance", .ofText? i.base), ("subtypes", .list (i.subtypes.map Subtype.toValue)),
    ("spcs", .text ("".pushn ' ' i.name.utf8ByteSize))]

structure Item where
  name : String
  safe : String

def Item.ofText (item : String) : Item where
  name := "\"" ++ item ++ "\""
  safe := replaced '-' '_' (replaced ',' '_' item)

def Item.toValue (i : Item) : Value :=
  .map [("name", .text i.name), ("safe", .text i.safe)]

def macroLines (name : String) (items : List Item) : List String :=
  ("#define " ++ name ++ "_X(X)") :: items.map fun i => "    X(" ++ i.safe ++ ", " ++ i.name ++ ")"

def widthLimit : Nat := 1000000

/--
A text filled up with spaces to a width. With a width above the limit the text stays as it is, behind
a complaint.
-/
def padded (width : Nat) (s : String) : String :=
  if width ≤ widthLimit then s.pushn ' ' (width - s.length) else "%!(BADWIDTH)" ++ s

def widthOf (lines : List String) : Nat :=
  (lines.map String.length).foldl max 0

/--
Lines continued by backslashes, all of which stand behind the longest of the continued lines.
-/
def continued (lines : List String) : String :=
  let heads := lines.dropLast.map fun l => padded (widthOf lines.dropLast) l ++ " \\\n"
  String.join heads ++ lines.getLast?.getD ""

structure Enum where
  name : String
  items : List Item
  values : AttrValues

def Enum.upperName (e : Enum) : String :=
  Text.upperCase e.name

def Enum.listing (e : Enum) : String :=
  continued (macroLines e.upperName e.items)

def Enum.toValue (e : Enum) : Value :=
  .map [("name", .text e.name), ("NAME", .text e.upperName),
    ("item", .list (e.items.map Item.toValue)), ("ext_attrs", AttrValues.toValue e.values),
    ("text", .text e.listing)]

def Enum.ofEnum (e : IdlCompiler.Enum) : Enum where
  name := e.header.name
  items := e.items.map Item.ofText
  values := e.header.values

def Attribute.ofAttribute (c : SpellingContext) (a : IdlCompiler.Attribute) : Attribute where
  name := a.name
  key := replaced '_' '-' a.name
  type := a.type.spelled c.dialect c.registry
  initializer := "\x7b" ++ a.values.text "default" ++ "\x7d"
  guards := guardsOf a.values
  values := a.values
  forVariant := false

def withCommas (args : List (String × String × AttrValues)) : List Argument :=
  match args with
  | [] => []
  | [(name, type, values)] => [⟨name, type, values, false⟩]
  | (name, type, values) :: rest => ⟨name, type, values, true⟩ :: withCommas rest

def Operation.ofOperation (c : SpellingContext) (o : IdlCompiler.Operation) : Operation where
  name := o.name
  type := o.result.spelled c.dialect c.registry
  guards := guardsOf o.values
  values := o.values
  args := withCommas <| o.args.map fun a =>
    (a.name, a.type.spelled c.dialect c.registry, a.values)

def Operation.comparison (i : IdlCompiler.Interface) : Operation :=
  let equality := i.header.values.flag "no_spaceship"
  { name := if equality then "operator==" else "operator<=>"
    type := if equality then "bool" else "auto"
    guards := []
    values := [("defaulted", .flag true)]
    args := withCommas [("rhs", i.header.name, [("in", .flag true)])] }

def Attribute.ofVariants (variants : List Variant) : Attribute where
  name := "var"
  key := "var"
  type := "std::variant<" ++ ", ".intercalate (variants.map (·.name)) ++ ">"
  initializer := "\x7b\x7d"
  guards := []
  values := []
  forVariant := true

def Subtype.ofVariant (c : SpellingContext) (v : Variant) : Subtype where
  name := v.name
  condition := v.condition
  attributes := v.attributes.map (Attribute.ofAttribute c)

def Interface.ofInterface (c : SpellingContext) (i : IdlCompiler.Interface) : Interface where
  name := i.header.name
  values := i.header.values
  attributes := i.freeAttributes.map (Attribute.ofAttribute c) ++
    if i.variants.isEmpty then [] else [Attribute.ofVariants i.variants]
  operations := Operation.comparison i :: i.operations.map (Operation.ofOperation c)
  base := i.base
  subtypes := i.variants.map (Subtype.ofVariant c)

end ClassView

structure ClassView where
  headers : List String
  enums : List ClassView.Enum
  interfaces : List ClassView.Interface

namespace ClassView

def interfacesOf (ds : List Declaration) : List IdlCompiler.Interface :=
  ds.filterMap fun
    | .interface i => some i
    | .enum _ => none

def enumsOf (ds : List Declaration) : List IdlCompiler.Enum :=
  ds.filterMap fun
    | .enum e => some e
    | .interface _ => none

def ofDeclarations (c : SpellingContext) (ds : List Declaration) : ClassView where
  headers := ((ds.flatMap c.ofDeclaration).filterMap (·.header?)).eraseDups.mergeSort
  enums := (enumsOf ds).map Enum.ofEnum
  interfaces := (interfacesOf ds).map (Interface.ofInterface c)

def warnings (c : SpellingContext) (ds : List Declaration) : List Warning :=
  ds.flatMap fun d =>
    (c.ofDeclaration d).filterMap fun r => r.unknown?.map (Warning.unknownType · d.name)

def toEntries (v : ClassView) : List (String × Value) :=
  [("includes", .ofTexts v.headers), ("enums", .list (v.enums.map Enum.toValue)),
    ("interfaces", .list (v.interfaces.map Interface.toValue))]

end ClassView

end IdlCompiler
