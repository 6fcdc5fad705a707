import IdlCompiler.Proofs.Grammar.Derivation

/-!
This module contains what source files declare: which extended attributes of theirs have to be valid
in which domain, and the declarations they stand for.
-/

namespace IdlCompiler

namespace Schema

def Accepts (s : Schema) (domain : Domain) (attrs : List ExtAttr) : Prop :=
  ∃ values, (s.validate domain attrs).result = .ok values

def valuesOf (s : Schema) (domain : Domain) (attrs : List ExtAttr) : AttrValues :=
  match (s.validate domain attrs).result with
  | .ok values => values
  | .error _ => []

theorem result_validate_eq_ok_iff {s : Schema} {domain : Domain} {attrs : List ExtAttr}
    {values : AttrValues} :
    (s.validate domain attrs).result = .ok values ↔
      s.Accepts domain attrs ∧ values = s.valuesOf domain attrs := by
  unfold Accepts valuesOf
  cases (s.validate domain attrs).result with
  | error e => simp
  | ok values' => simp [eq_comm]

end Schema

namespace Grammar

def Param.argument (s : Schema) (p : Param) : Argument :=
  ⟨p.name.text, p.type, p.name.pos, p.attrs, s.valuesOf .argument p.attrs⟩

namespace MemberDecl

def attribute? (s : Schema) : MemberDecl → Option Attribute
  | .attribute attrs type name =>
    some ⟨name.text, type, name.pos, attrs, s.valuesOf .attribute attrs⟩
  | .operation .. => none

def operation? (s : Schema) : MemberDecl → Option Operation
  | .attribute .. => none
  | .operation attrs result name params _ =>
    some ⟨name.text, result, params.map (·.argument s), name.pos, attrs,
      s.valuesOf .operation attrs⟩

def attached : MemberDecl → List (Domain × List ExtAttr)
  | .attribute attrs _ _ => [(.attribute, attrs)]
  | .operation attrs _ _ params _ => (.operation, attrs) :: params.map fun p => (.argument, p.attrs)

def Valid (s : Schema) (m : MemberDecl) : Prop :=
  ∀ a ∈ m.attached, s.Accepts a.1 a.2

end MemberDecl

namespace Item

/--
The declaration. Empty strings of an enumeration are dropped, and so is its base.
-/
def declaration (s : Schema) (i : Item) : Declaration :=
  match i.body with
  | .enum items =>
    .enum ⟨⟨i.name.text, i.name.pos, i.isPartial, i.attrs, s.valuesOf .enum i.attrs⟩,
      items.filter (· ≠ "")⟩
  | .interface members _ =>
    .interface ⟨⟨i.name.text, i.name.pos, i.isPartial, i.attrs, s.valuesOf .interface i.attrs⟩,
      i.base, members.filterMap (·.attribute? s), members.filterMap (·.operation? s)⟩

def attached (i : Item) : List (Domain × List ExtAttr) :=
  match i.body with
  | .enum _ => [(.enum, i.attrs)]
  | .interface members _ => (.interface, i.attrs) :: members.flatMap (·.attached)

def IsEnum (i : Item) : Prop :=
  ∃ items, i.body = .enum items

structure Valid (s : Schema) (i : Item) : Prop where
  not_partial : i.IsEnum → i.isPartial = false
  accepts : ∀ a ∈ i.attached, s.Accepts a.1 a.2

end Item

namespace File

def declarations (s : Schema) (f : File) : List Declaration :=
  f.items.map (·.declaration s)

def Valid (s : Schema) (f : File) : Prop :=
  ∀ i ∈ f.items, i.Valid s

end File

end Grammar

end IdlCompiler
