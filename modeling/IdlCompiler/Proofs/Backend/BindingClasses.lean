import IdlCompiler.Proofs.Backend.Context
import IdlCompiler.Proofs.Backend.Headers
import IdlCompiler.Proofs.IdlType.Inside

/-!
This module contains the classes of binding views. Each interface has its own class, which tells
whether the interface stands below a sequence or a translatable anywhere in the types of members, and
translatable interfaces have the classes of a translatable type behind it.
-/

namespace IdlCompiler

namespace BindingView

def IsMemberType (ds : List Declaration) (t : IdlType) : Prop :=
  ∃ i, .interface i ∈ ds ∧ t ∈ i.memberTypes

theorem mem_memberTypes_interfacesOf_iff {ds : List Declaration} {t : IdlType} :
    t ∈ (ClassView.interfacesOf ds).flatMap (·.memberTypes) ↔ IsMemberType ds t := by
  rw [List.mem_flatMap]
  simp only [ClassView.mem_interfacesOf_iff]
  rfl

def pythonNameAmong (ds : List Declaration) (name : String) : String :=
  if ∃ d ∈ ds, d.name = name then name
  else ((builtinTypes.lookup name).map (·.python)).getD name

def isTranslatable : IdlType → Bool
  | .generic name _ => name = translatable
  | _ => false

variable {ds : List Declaration}

def BelowSequence (name : String) (t : IdlType) : Prop :=
  ∃ elem : IdlType, (IdlType.sequence elem).Inside t ∧ (IdlType.simple name).Inside elem

def BelowTranslatable (name : String) (t : IdlType) : Prop :=
  ∃ args : List IdlType, (IdlType.generic translatable args).Inside t ∧
    ∃ arg ∈ args, (IdlType.simple name).Inside arg

structure Attribute.Presents (ds : List Declaration) (a : IdlCompiler.Attribute)
    (shown : Attribute) : Prop where
  name : shown.name = a.name
  type : shown.type = (Scope.ofDeclarations ds).pythonType a.type
  values : shown.values = a.values

structure Argument.Presents (ds : List Declaration) (a : IdlCompiler.Argument)
    (shown : Argument) : Prop where
  name : shown.name = a.name
  type : shown.type = (Scope.ofDeclarations ds).pythonType a.type
  isSelf : shown.isSelf = false

structure Operation.Presents (ds : List Declaration) (o : IdlCompiler.Operation)
    (shown : Operation) : Prop where
  name : shown.name = o.name
  type : shown.type = (Scope.ofDeclarations ds).pythonType o.result
  values : shown.values = o.values
  isStatic : shown.isStatic = o.values.flag "static"
  args : ∃ args, shown.args = (if o.values.flag "static" then [] else [.self]) ++ args ∧
    List.Forall₂ (Argument.Presents ds) o.args args

/--
The class of an interface has views of the members in their order. It is told whether the interface
is below a sequence or a translatable in the type of a member of any interface.
-/
structure Interface.Presents (ds : List Declaration) (i : IdlCompiler.Interface)
    (shown : Interface) : Prop where
  name : shown.name = i.header.name
  isSynthetic : shown.isSynthetic = false
  isVector : shown.isVector = true ↔ ∃ t name, IsMemberType ds t ∧ BelowSequence name t ∧
    pythonNameAmong ds name = i.header.name
  isTranslatable : shown.isTranslatable = true ↔ ∃ t name, IsMemberType ds t ∧
    BelowTranslatable name t ∧ pythonNameAmong ds name = i.header.name
  attributes : List.Forall₂ (Attribute.Presents ds) i.attributes shown.attributes
  operations : List.Forall₂ (Operation.Presents ds) i.operations shown.operations

def classOf (ds : List Declaration) (i : IdlCompiler.Interface) : Interface :=
  let s := Scope.ofDeclarations ds
  Interface.ofInterface s (Elements.ofDeclarations s ds) i

def withTranslatable (shown : Interface) : List Interface :=
  shown :: if shown.isTranslatable then translatableClasses shown.name else []

theorem interfaces_ofDeclarations (ds : List Declaration) :
    (ofDeclarations ds).interfaces =
      translatableClasses "str" ++
        ((ClassView.interfacesOf ds).map (classOf ds)).flatMap withTranslatable := by
  rw [List.flatMap_map]
  rfl

end BindingView

namespace OutputInfo

open BindingView

theorem provides_interfaces (info : OutputInfo) (ds : List Declaration) :
    info.Provides "python" ds "interfaces"
      (.list ((BindingView.ofDeclarations ds).interfaces.map Interface.toValue)) :=
  info.provides_bindings ds rfl

end OutputInfo

end IdlCompiler
