import IdlCompiler.Declaration.Basic

/-!
This module contains the variants of interfaces: groups of attributes that are there together when
their condition holds.
-/

namespace IdlCompiler

def Attribute.condition (a : Attribute) : String :=
  ", ".intercalate (a.values.texts "if")

def Attribute.variantName? (a : Attribute) : Option String :=
  if a.values.isSet "var" then some (a.values.text "var") else none

structure Variant where
  name : String
  condition : String
  attributes : List Attribute
  deriving Repr

namespace Variant

def conditions (attributes : List Attribute) : List String :=
  ((attributes.map (·.condition)).filter (· ≠ "")).eraseDups.mergeSort

/--
The variants of conditions. A variant has the first name that one of its attributes gives to it, and
otherwise the next number from `counter` on.
-/
def group (attributes : List Attribute) (counter : Nat) : List String → List Variant
  | [] => []
  | condition :: rest =>
    let members := attributes.filter (·.condition = condition)
    match members.findSome? (·.variantName?) with
    | some name => ⟨name, condition, members⟩ :: group attributes counter rest
    | none =>
      ⟨"variant_" ++ toString counter, condition, members⟩ :: group attributes (counter + 1) rest

end Variant

namespace Interface

def freeAttributes (i : Interface) : List Attribute :=
  i.attributes.filter (·.condition = "")

def variants (i : Interface) : List Variant :=
  Variant.group i.attributes 0 (Variant.conditions i.attributes)

end Interface

end IdlCompiler
