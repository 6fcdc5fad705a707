import IdlCompiler.Backend.ClassView

/-!
This module contains the views of declarations that templates for Python bindings are rendered with.
-/

namespace IdlCompiler

namespace BindingView

structure Wrapper where
  before : String := ""
  behind : String := ""

def Wrapper.toValue (w : Wrapper) : Value :=
  .map [("prefix", .text w.before), ("suffix", .text w.behind)]

structure Conversion where
  arg : Wrapper := {}
  result : Wrapper := {}

def Conversion.toValue (c : Conversion) : Value :=
  .map [("arg", c.arg.toValue), ("result", c.result.toValue)]

structure BuiltinType where
  python : String
  native : String
  needsProxy : Bool := false
  byReference : Bool := false
  conversion : Conversion := {}

def objectType (name : String) : String × BuiltinType :=
  (name, { python := name, native := "boost::python::" ++ name, byReference := true })

def builtinTypes : List (String × BuiltinType) :=
  [("void", { python := "None", native := "void" }),
    ("timestamp", { python := "int", native := "date::sys_seconds" }),
    ("int", { python := "int", native := "int" }),
    ("unsigned", { python := "int", native := "unsigned" }),
    ("short", { python := "int", native := "short" }),
    ("long long", { python := "int", native := "long long" }),
    ("char", { python := "int", native := "char" }),
    ("int32_t", { python := "int", native := "int32_t" }),
    ("int64_t", { python := "int", native := "int64_t" }),
    ("uint32_t", { python := "int", native := "uint32_t" }),
    ("uint64_t", { python := "int", native := "uint64_t" }),
    ("bool", { python := "bool", native := "bool" }),
    ("string", { python := "str", native := "string_type", byReference := true }),
    ("string_view",
      { python := "str", native := "string_type", needsProxy := true, byReference := true }),
    ("ascii", { python := "str", native := "std::string", byReference := true }),
    ("path",
      { python := "str", native := "string_type", needsProxy := true, byReference := true,
        conversion := {
          arg := ⟨"as_fs_view(", ")"⟩, result := ⟨"as_string_v(", ".generic_u8string())"⟩ } }),
    objectType "object", objectType "dict", objectType "tuple", objectType "list"]

def translatable : String :=
  "translatable"

/--
The names of the declarations and whether they are interfaces. Of several of one name the last one
counts.
-/
structure Scope where
  declared : List (String × Bool)

def Scope.ofDeclarations (ds : List Declaration) : Scope where
  declared := (ds.map fun d => (d.name, d.keyword == "interface")).reverse

namespace Scope

def pythonName? (s : Scope) (name : String) : Option String :=
  if (s.declared.lookup name).isSome then some name
  else (builtinTypes.lookup name).map (·.python)

def pythonName (s : Scope) (name : String) : String :=
  (s.pythonName? name).getD name

mutual

def pythonType (s : Scope) : IdlType → String
  | .simple name => s.pythonName name
  | .optional elem => "Optional[" ++ s.pythonType elem ++ "]"
  | .sequence elem => "List[" ++ s.pythonType elem ++ "]"
  | .union members => "Union[" ++ ", ".intercalate (s.pythonTypes members) ++ "]"
  | .record key value => "Dict[" ++ s.pythonType key ++ ", " ++ s.pythonType value ++ "]"
  | .generic name args =>
    (if name = translatable then "Translatable" else name) ++ "[" ++
      ", ".intercalate (s.pythonTypes args) ++ "]"

def pythonTypes (s : Scope) : List IdlType → List String
  | [] => []
  | t :: ts => s.pythonType t :: s.pythonTypes ts

end

def unknownNames (s : Scope) (t : IdlType) : List String :=
  t.simpleNames.filter fun name => (s.pythonName? name).isNone

end Scope

def typingName? : IdlType → Option String
  | .optional _ => some "Optional"
  | .sequence _ => some "List"
  | .union _ => some "Union"
  | .record _ _ => some "Dict"
  | _ => none

structure Occurrence where
  name : String
  inSequence : Bool
  inTranslatable : Bool

mutual

def occurrences (inSequence inTranslatable : Bool) : IdlType → List Occurrence
  | .simple name => [⟨name, inSequence, inTranslatable⟩]
  | .optional elem => occurrences inSequence inTranslatable elem
  | .sequence elem => occurrences true inTranslatable elem
  | .union members => occurrencesAll inSequence inTranslatable members
  | .record key value =>
    occurrences inSequence inTranslatable key ++ occurrences inSequence inTranslatable value
  | .generic name args =>
    occurrencesAll inSequence (inTranslatable || name = translatable) args

def occurrencesAll (inSequence inTranslatable : Bool) : List IdlType → List Occurrence
  | [] => []
  | t :: ts =>
    occurrences inSequence inTranslatable t ++ occurrencesAll inSequence inTranslatable ts

end

structure NativeType where
  spelling : String
  needsProxy : Bool := false
  byReference : Bool := false
  isOutput : Bool := false
  needsProperty : Bool := false
  isDeclared : Bool := false
  conversion : Conversion := {}

mutual

def Scope.nativeType (s : Scope) (values : AttrValues) : IdlType → NativeType
  | .simple name =>
    match s.declared.lookup name with
    | some isInterface =>
      { spelling := name, byReference := isInterface, isOutput := values.flag "out",
        isDeclared := true }
    | none =>
      match builtinTypes.lookup name with
      | some b =>
        { spelling := b.native, needsProxy := b.needsProxy, byReference := b.byReference,
          conversion := b.conversion }
      | none => { spelling := name }
  | .optional elem =>
    let t := s.nativeType values elem
    { t with
      spelling := "std::optional<" ++ t.spelling ++ ">"
      byReference := true
      needsProperty := t.needsProperty || t.isDeclared }
  | .sequence elem =>
    let t := s.nativeType values elem
    { t with spelling := "std::vector<" ++ t.spelling ++ ">", byReference := true }
  | .union members =>
    let ts := s.nativeTypes values members
    { spelling := "std::variant<" ++ ", ".intercalate (ts.map (·.spelling)) ++ ">"
      needsProxy := ts.any (·.needsProxy)
      byReference := true }
  | .record key value =>
    let k := s.nativeType values key
    let v := s.nativeType values value
    { spelling := "std::map<" ++ k.spelling ++ ", " ++ v.spelling ++ ">"
      needsProxy := k.needsProxy || v.needsProxy
      byReference := true }
  | .generic name args =>
    let ts := s.nativeTypes values args
    { spelling := name ++ "<" ++ ", ".intercalate (ts.map (·.spelling)) ++ ">"
      needsProxy := ts.any (·.needsProxy)
      byReference := true }

def Scope.nativeTypes (s : Scope) (values : AttrValues) : List IdlType → List NativeType
  | [] => []
  | t :: ts => s.nativeType values t :: s.nativeTypes values ts

end

/--
The view of an argument. The object that a method belongs to is its first argument.
-/
structure Argument where
  name : String
  type : String := ""
  spelling : String := ""
  conversion : Conversion := {}
  isSelf : Bool := false

def Argument.self : Argument where
  name := "self"
  isSelf := true

def Argument.toValue (a : Argument) (last : Bool) : Value :=
  .map [("name", .text a.name), ("type", .text a.type), ("alias", .text a.spelling),
    ("conv", a.conversion.toValue), ("this", .bool a.isSelf), ("last", .bool last)]

def markLast {α : Type} (toValue : α → Bool → Value) : List α → List Value
  | [] => []
  | [a] => [toValue a true]
  | a :: as => toValue a false :: markLast toValue as

structure Attribute where
  name : String
  type : String
  native : String
  byReference : Bool
  needsProperty : Bool
  values : AttrValues

def Attribute.toValue (a : Attribute) (last : Bool) : Value :=
  .map [("name", .text a.name), ("type", .text a.type), ("cpp_type", .text a.native),
    ("ref", .bool a.byReference), ("property", .bool a.needsProperty),
    ("ext_attrs", AttrValues.toValue a.values), ("last", .bool last)]

structure Operation where
  name : String
  type : String
  spelling : String := ""
  conversion : Conversion := {}
  isStatic : Bool := false
  args : List Argument
  isExternal : Bool := false
  needsProxy : Bool := false
  values : AttrValues := []

def Operation.toValue (o : Operation) : Value :=
  .map [("name", .text o.name), ("type", .text o.type), ("alias", .text o.spelling),
    ("conv", o.conversion.toValue), ("staticmethod", .bool o.isStatic),
    ("classmethod", .bool false), ("property", .bool false),
    ("arguments", .list (markLast Argument.toValue o.args)), ("external", .bool o.isExternal),
    ("needs_proxy", .bool o.needsProxy), ("ext_attrs", AttrValues.toValue o.values)]

structure Interface where
  name : String
  attributes : List Attribute := []
  operations : List Operation
  isVector : Bool := false
  isTranslatable : Bool := false
  isSynthetic : Bool := true
  hasText : Bool := true
  base : Option String := none
  hasConstructor : Bool := false

def Interface.toValue (i : Interface) : Value :=
  .map [("name", .text i.name), ("attributes", .list (markLast Attribute.toValue i.attributes)),
    ("operations", .list (i.operations.map Operation.toValue)), ("is_vector", .bool i.isVector),
    ("is_translatable", .bool i.isTranslatable), ("synthetic", .bool i.isSynthetic),
    ("has_to_string", .bool i.hasText), ("inheritance", .ofText? i.base),
    ("has_constructor", .bool i.hasConstructor)]

structure Enum where
  name : String
  items : List String

def Enum.toValue (e : Enum) : Value :=
  .map [("name", .text e.name), ("NAME", .text (Text.upperCase e.name)),
    ("items", if e.items.isEmpty then .unmade else .ofTexts e.items)]

def Operation.method (name type : String) (args : List (String × String)) : Operation where
  name := name
  type := type
  args := .self :: args.map fun (name, type) => { name, type }

def mapClasses (name key value : String) : List Interface :=
  let entry := "map_indexing_suite_" ++ name ++ "_entry"
  [{ name := entry
     operations := [.method "data" value [], .method "key" key []] },
    { name
      operations := [
        .method "__contains__" "bool" [("index", key)],
        .method "__delitem__" "None" [("index", key)],
        .method "__getitem__" value [("index", key)],
        .method "__setitem__" "None" [("index", key), ("object", value)],
        .method "__iter__" ("Iterator[" ++ entry ++ "]") [],
        .method "__len__" "int" []] }]

def translatableClasses (name : String) : List Interface :=
  let items := "translatable_" ++ name ++ "_items"
  mapClasses items "str" name ++
    [{ name := "translatable_" ++ name
       attributes := [{
         name := "items"
         type := items
         native := ""
         byReference := false
         needsProperty := false
         values := [] }]
       operations := [
         .method "find" name [("index", "str")],
         .method "update" "bool" [("index", "str"), ("value", name)]] }]

structure Elements where
  vectors : List String
  translatables : List String

def Elements.ofDeclarations (s : Scope) (ds : List Declaration) : Elements :=
  let found := (ClassView.interfacesOf ds).flatMap fun i =>
    i.memberTypes.flatMap (occurrences false false)
  { vectors := (found.filter (·.inSequence)).map fun o => s.pythonName o.name
    translatables := (found.filter (·.inTranslatable)).map fun o => s.pythonName o.name }

def Attribute.ofAttribute (s : Scope) (a : IdlCompiler.Attribute) : Attribute :=
  let t := s.nativeType [] a.type
  { name := a.name
    type := s.pythonType a.type
    native := t.spelling
    byReference := t.byReference
    needsProperty := t.needsProperty
    values := a.values }

def NativeType.argument (t : NativeType) : String :=
  if t.isOutput then t.spelling ++ "&"
  else if t.byReference then t.spelling ++ " const&"
  else t.spelling

def Argument.ofArgument (s : Scope) (a : IdlCompiler.Argument) : Argument :=
  let t := s.nativeType a.values a.type
  { name := a.name, type := s.pythonType a.type, spelling := t.argument, conversion := t.conversion }

def Operation.ofOperation (s : Scope) (o : IdlCompiler.Operation) : Operation :=
  let isStatic := o.values.flag "static"
  let needsProxy := o.args.any fun a => (s.nativeType a.values a.type).needsProxy
  let result := s.nativeType [] o.result
  { name := o.name
    type := s.pythonType o.result
    spelling := result.spelling
    conversion := result.conversion
    isStatic
    args := (if isStatic then [] else [.self]) ++ o.args.map (Argument.ofArgument s)
    isExternal := o.values.flag "external" || needsProxy
    needsProxy
    values := o.values }

def Interface.ofInterface (s : Scope) (e : Elements) (i : IdlCompiler.Interface) : Interface where
  name := i.header.name
  attributes := i.attributes.map (Attribute.ofAttribute s)
  operations := i.operations.map (Operation.ofOperation s)
  isVector := e.vectors.contains i.header.name
  isTranslatable := e.translatables.contains i.header.name
  isSynthetic := false
  hasText := !i.header.values.flag "nonjson" && i.header.values.text "from" ≠ "none"
  base := i.base
  hasConstructor := i.attributes.length < 15

def typingNames (ds : List Declaration) : List String :=
  let types := (ClassView.interfacesOf ds).flatMap (·.memberTypes)
  let names := (types.flatMap IdlType.parts).filterMap typingName?
  let forEnums := if (ClassView.enumsOf ds).isEmpty then [] else ["ClassVar"]
  (["Iterator", "Generic", "TypeVar"] ++ forEnums ++ names).eraseDups.mergeSort

end BindingView

structure BindingView where
  typing : List String
  enums : List BindingView.Enum
  interfaces : List BindingView.Interface

namespace BindingView

def ofDeclarations (ds : List Declaration) : BindingView :=
  let s := Scope.ofDeclarations ds
  let e := Elements.ofDeclarations s ds
  { typing := typingNames ds
    enums := (ClassView.enumsOf ds).map fun e => ⟨e.header.name, e.items⟩
    interfaces := translatableClasses "str" ++ (ClassView.interfacesOf ds).flatMap fun i =>
      let view := Interface.ofInterface s e i
      view :: if view.isTranslatable then translatableClasses view.name else [] }

def unknownNames (s : Scope) (i : IdlCompiler.Interface) : List String :=
  i.attributes.flatMap (fun a => s.unknownNames a.type) ++
    i.operations.flatMap fun o =>
      o.args.flatMap (fun a => s.unknownNames a.type) ++ s.unknownNames o.result

def warnings (ds : List Declaration) : List Warning :=
  let s := Scope.ofDeclarations ds
  (ClassView.interfacesOf ds).flatMap fun i =>
    (unknownNames s i).map (Warning.unknownType · i.header.name)

def toEntries (v : BindingView) : List (String × Value) :=
  [("typing", .text (", ".intercalate v.typing)), ("enums", .list (v.enums.map Enum.toValue)),
    ("interfaces", .list (v.interfaces.map Interface.toValue))]

end BindingView

end IdlCompiler
