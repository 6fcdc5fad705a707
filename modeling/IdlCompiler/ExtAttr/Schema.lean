import IdlCompiler.Error
import IdlCompiler.ExtAttr.Rule
import IdlCompiler.Outcome

/-!
This module contains schemas, which hold the rules for the extended attributes of every domain, and
the validation of extended attributes by them.
-/

namespace IdlCompiler

inductive Domain where
  | enum
  | interface
  | attribute
  | operation
  | argument
  deriving DecidableEq, Repr

namespace Domain

def text : Domain → String
  | .enum => "enum"
  | .interface => "interface"
  | .attribute => "attribute"
  | .operation => "operation"
  | .argument => "argument"

def all : List Domain :=
  [.enum, .interface, .attribute, .operation, .argument]

def ofText? (name : String) : Option Domain :=
  all.find? fun d => d.text = name

end Domain

structure Schema where
  rules : Domain → List Rule

namespace Schema

def builtin : Schema where
  rules
    | .enum => []
    | .interface => []
    | .attribute =>
      [⟨"if", .string, []⟩, ⟨"var", .string, []⟩, ⟨"default", .default, []⟩,
        ⟨"guard", .guard, []⟩, ⟨"guards", .guards, []⟩]
    | .argument =>
      [⟨"defaulted", .flag, []⟩, ⟨"in", .flag, []⟩, ⟨"out", .flag, []⟩,
        ⟨"default", .default, []⟩]
    | .operation =>
      [⟨"in", .flag, []⟩, ⟨"out", .flag, []⟩, ⟨"unique", .flag, []⟩, ⟨"span", .flag, []⟩,
        ⟨"mutable", .flag, []⟩, ⟨"throws", .flag, []⟩, ⟨"static", .flag, []⟩,
        ⟨"guard", .guard, []⟩, ⟨"guards", .guards, []⟩]

def insertRule (rule : Rule) : List Rule → List Rule
  | [] => [rule]
  | r :: rs => if r.name = rule.name then rule :: rs else r :: insertRule rule rs

def install (s : Schema) (domain : Domain) (rule : Rule) : Except Error Schema :=
  if rule.kind = .choice ∧ rule.values = [] then
    .error (.emptyChoice rule.name)
  else
    .ok ⟨fun d => if d = domain then insertRule rule (s.rules d) else s.rules d⟩

def installNamed (s : Schema) (domain : String) (rule : Rule) : Except Error Schema :=
  match Domain.ofText? domain with
  | some d => s.install d rule
  | none => .error (.unknownDomain domain)

def rulesNamed (s : Schema) (domain : String) : List Rule :=
  match Domain.ofText? domain with
  | some d => s.rules d
  | none => []

def defaults (rules : List Rule) : AttrValues :=
  rules.map fun r => (r.name, r.defaultValue)

/--
Apply rules to extended attributes one after the other, so that a later attribute overrides an
earlier one of the same name. An attribute without a rule is warned about and has no effect.
-/
def applyAll (rules : List Rule) (values : AttrValues) :
    List ExtAttr → Outcome Diagnostic AttrValues
  | [] => pure values
  | a :: as =>
    match rules.find? fun r => r.name = a.name.text with
    | none => do
      .warn (.unknownAttribute a.name.text a.name.pos)
      applyAll rules values as
    | some r =>
      match r.apply a with
      | .error d => .fail d
      | .ok value => applyAll rules (AttrValues.set values r.name value) as

def validateBy (rules : List Rule) (attrs : List ExtAttr) : Outcome Diagnostic AttrValues :=
  applyAll rules (defaults rules) attrs

def validate (s : Schema) (domain : Domain) (attrs : List ExtAttr) :
    Outcome Diagnostic AttrValues :=
  validateBy (s.rules domain) attrs

end Schema

end IdlCompiler
