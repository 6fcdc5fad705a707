import IdlCompiler.Backend.Dialect
import IdlCompiler.Declaration.Variant

/-!
This module contains what the spelling of types requires: headers or modules, and names that are
known.
-/

namespace IdlCompiler

inductive Requirement where
  | header (name : String)
  | unknown (name : String)
  deriving DecidableEq, Repr

namespace Requirement

def header? : Requirement → Option String
  | .header name => some name
  | .unknown _ => none

def unknown? : Requirement → Option String
  | .header _ => none
  | .unknown name => some name

def ofProjection (p : Projection) : List Requirement :=
  if p.requires = "" then [] else [.header p.requires]

/--
The value of a name in the innermost of some enclosing values that has one. The search ends with the
first values after which both `span` and `unique` are known.
-/
def enclosingFlags (span unique : AttrValue) : List AttrValues → AttrValue × AttrValue
  | [] => (span, unique)
  | values :: rest =>
    let span := (values.get? "span").getD span
    let unique := (values.get? "unique").getD unique
    if span ≠ .absent ∧ unique ≠ .absent then (span, unique) else enclosingFlags span unique rest

/--
The header of the container that holds a sequence, by the values of the members around it, the
outermost first.
-/
def containerHeader (enclosing : List AttrValues) : String :=
  let (span, unique) := enclosingFlags .absent .absent enclosing
  if span = .flag true then "<span>"
  else if unique = .flag true then "<set>"
  else "<vector>"

end Requirement

structure SpellingContext where
  dialect : Dialect
  registry : Registry
  declared : List String

namespace SpellingContext

def nativeHeader (c : SpellingContext) (name : String) : List Requirement :=
  if c.dialect.hasHeaders then [.header name] else []

mutual

def requirements (c : SpellingContext) (container : String) : IdlType → List Requirement
  | .simple name =>
    match c.registry.simple? c.dialect.lang name with
    | some p => Requirement.ofProjection p
    | none => if name ∈ c.declared then [] else [.unknown name]
  | .optional elem => c.requirements container elem ++ c.nativeHeader "<optional>"
  | .sequence elem => c.requirements container elem ++ c.nativeHeader container
  | .union members => c.requirementsAll container members ++ c.nativeHeader "<variant>"
  | .record key value =>
    c.requirements container key ++ c.requirements container value ++ c.nativeHeader "<map>"
  | .generic name args =>
    c.requirementsAll container args ++
      match c.registry.generic? c.dialect.lang name with
      | some p => Requirement.ofProjection p
      | none => [.unknown (name ++ c.dialect.genericMark)]

def requirementsAll (c : SpellingContext) (container : String) : List IdlType → List Requirement
  | [] => []
  | t :: ts => c.requirements container t ++ c.requirementsAll container ts

end

def ofAttribute (c : SpellingContext) (a : Attribute) : List Requirement :=
  c.requirements (Requirement.containerHeader [a.values]) a.type

def ofOperation (c : SpellingContext) (o : Operation) : List Requirement :=
  c.requirements (Requirement.containerHeader [o.values]) o.result ++
    o.args.flatMap fun a =>
      c.requirements (Requirement.containerHeader [o.values, a.values]) a.type

def ofInterface (c : SpellingContext) (i : Interface) : List Requirement :=
  i.freeAttributes.flatMap c.ofAttribute ++
    (i.variants.flatMap fun v => v.attributes.flatMap c.ofAttribute) ++
    (if i.variants.isEmpty then [] else [.header "<variant>"]) ++
    i.operations.flatMap c.ofOperation

def ofDeclaration (c : SpellingContext) : Declaration → List Requirement
  | .enum _ => []
  | .interface i => c.ofInterface i

end SpellingContext

end IdlCompiler
