import IdlCompiler.Backend.BindingView
import Mathlib

/-!
This module contains what templates see of views: which member of a value shows which part of a view.
-/

namespace IdlCompiler

variable {α : Type} {R : α → Value → Prop}

def Value.Lists (R : α → Value → Prop) (v : Value) (name : String) (as : List α) : Prop :=
  ∃ items, v.member? name = some (.list items) ∧ List.Forall₂ R as items

theorem forall₂_map_right {β : Type} {R : α → β → Prop} {f : α → β} (h : ∀ a, R a (f a))
    (as : List α) : List.Forall₂ R as (as.map f) := by
  rw [List.forall₂_map_right_iff, List.forall₂_same]
  exact fun a _ => h a

theorem forall₂_markLast {f : α → Bool → Value} (h : ∀ a last, R a (f a last)) (as : List α) :
    List.Forall₂ R as (BindingView.markLast f as) := by
  induction as with
  | nil => exact .nil
  | cons a as ih =>
    cases as with
    | nil => exact .cons (h a true) .nil
    | cons b as => exact .cons (h a false) ih

inductive AttrValue.IsShownBy : AttrValue → Value → Prop
  | absent : IsShownBy .absent .null
  | flag {value : Bool} : IsShownBy (.flag value) (.bool value)
  | text {value : String} : IsShownBy (.text value) (.text value)
  | texts {values : List String} : IsShownBy (.texts values) (.list (values.map .text))

def AttrValues.AreShownBy (values : AttrValues) (v : Value) : Prop :=
  ∀ name, Option.Rel AttrValue.IsShownBy (values.get? name) (v.member? name)

theorem AttrValue.isShownBy_toValue (value : AttrValue) : value.IsShownBy value.toValue := by
  cases value <;> constructor

theorem AttrValues.areShownBy_toValue (values : AttrValues) :
    values.AreShownBy (AttrValues.toValue values) := by
  intro name
  induction values with
  | nil => exact .none
  | cons entry values ih =>
    have hlookup : (AttrValues.toValue (entry :: values)).member? name =
        ((entry.1, entry.2.toValue) :: values.map fun e => (e.1, e.2.toValue)).lookup name := rfl
    rw [hlookup, get?, List.lookup_cons, List.lookup_cons]
    cases name == entry.1 with
    | true => exact .some entry.2.isShownBy_toValue
    | false => exact ih

namespace ClassView

structure Attribute.IsShownBy (a : Attribute) (v : Value) : Prop where
  name : v.member? "name" = some (.text a.name)
  type : v.member? "type" = some (.text a.type)
  forVariant : v.member? "for_variant" = some (.bool a.forVariant)

structure Argument.IsShownBy (a : Argument) (v : Value) : Prop where
  name : v.member? "name" = some (.text a.name)
  type : v.member? "type" = some (.text a.type)

structure Operation.IsShownBy (o : Operation) (v : Value) : Prop where
  name : v.member? "name" = some (.text o.name)
  type : v.member? "type" = some (.text o.type)
  args : v.Lists Argument.IsShownBy "args" o.args

structure Subtype.IsShownBy (s : Subtype) (v : Value) : Prop where
  name : v.member? "name" = some (.text s.name)
  attributes : v.Lists Attribute.IsShownBy "attributes" s.attributes

structure Interface.IsShownBy (i : Interface) (v : Value) : Prop where
  name : v.member? "name" = some (.text i.name)
  attributes : v.Lists Attribute.IsShownBy "attributes" i.attributes
  operations : v.Lists Operation.IsShownBy "operations" i.operations
  subtypes : v.Lists Subtype.IsShownBy "subtypes" i.subtypes

theorem Attribute.isShownBy_toValue (a : Attribute) : a.IsShownBy a.toValue :=
  ⟨rfl, rfl, rfl⟩

theorem Argument.isShownBy_toValue (a : Argument) : a.IsShownBy a.toValue :=
  ⟨rfl, rfl⟩

theorem Operation.isShownBy_toValue (o : Operation) : o.IsShownBy o.toValue :=
  ⟨rfl, rfl, _, rfl, forall₂_map_right Argument.isShownBy_toValue _⟩

theorem Subtype.isShownBy_toValue (s : Subtype) : s.IsShownBy s.toValue :=
  ⟨rfl, _, rfl, forall₂_map_right Attribute.isShownBy_toValue _⟩

theorem Interface.isShownBy_toValue (i : Interface) : i.IsShownBy i.toValue where
  name := rfl
  attributes := ⟨_, rfl, forall₂_map_right Attribute.isShownBy_toValue _⟩
  operations := ⟨_, rfl, forall₂_map_right Operation.isShownBy_toValue _⟩
  subtypes := ⟨_, rfl, forall₂_map_right Subtype.isShownBy_toValue _⟩

end ClassView

namespace BindingView

structure Attribute.IsShownBy (a : Attribute) (v : Value) : Prop where
  name : v.member? "name" = some (.text a.name)
  type : v.member? "type" = some (.text a.type)
  values : ∃ shown, v.member? "ext_attrs" = some shown ∧ a.values.AreShownBy shown

structure Argument.IsShownBy (a : Argument) (v : Value) : Prop where
  name : v.member? "name" = some (.text a.name)
  type : v.member? "type" = some (.text a.type)
  isSelf : v.member? "this" = some (.bool a.isSelf)

structure Operation.IsShownBy (o : Operation) (v : Value) : Prop where
  name : v.member? "name" = some (.text o.name)
  type : v.member? "type" = some (.text o.type)
  isStatic : v.member? "staticmethod" = some (.bool o.isStatic)
  args : v.Lists Argument.IsShownBy "arguments" o.args
  values : ∃ shown, v.member? "ext_attrs" = some shown ∧ o.values.AreShownBy shown

structure Interface.IsShownBy (i : Interface) (v : Value) : Prop where
  name : v.member? "name" = some (.text i.name)
  isSynthetic : v.member? "synthetic" = some (.bool i.isSynthetic)
  isVector : v.member? "is_vector" = some (.bool i.isVector)
  isTranslatable : v.member? "is_translatable" = some (.bool i.isTranslatable)
  attributes : v.Lists Attribute.IsShownBy "attributes" i.attributes
  operations : v.Lists Operation.IsShownBy "operations" i.operations

theorem Attribute.isShownBy_toValue (a : Attribute) (last : Bool) : a.IsShownBy (a.toValue last) :=
  ⟨rfl, rfl, _, rfl, AttrValues.areShownBy_toValue _⟩

theorem Argument.isShownBy_toValue (a : Argument) (last : Bool) : a.IsShownBy (a.toValue last) :=
  ⟨rfl, rfl, rfl⟩

theorem Operation.isShownBy_toValue (o : Operation) : o.IsShownBy o.toValue where
  name := rfl
  type := rfl
  isStatic := rfl
  args := ⟨_, rfl, forall₂_markLast Argument.isShownBy_toValue _⟩
  values := ⟨_, rfl, AttrValues.areShownBy_toValue _⟩

theorem Interface.isShownBy_toValue (i : Interface) : i.IsShownBy i.toValue where
  name := rfl
  isSynthetic := rfl
  isVector := rfl
  isTranslatable := rfl
  attributes := ⟨_, rfl, forall₂_markLast Attribute.isShownBy_toValue _⟩
  operations := ⟨_, rfl, forall₂_map_right Operation.isShownBy_toValue _⟩

end BindingView

end IdlCompiler
