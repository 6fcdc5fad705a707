import IdlCompiler.ExtAttr.Basic

/-!
This module contains the rules by which extended attributes are checked and normalized.
-/

namespace IdlCompiler

inductive RuleKind where
  | flag
  | choice
  | string
  | guard
  | guards
  | default
  | unsupported (code : Nat)
  deriving DecidableEq, Repr

def RuleKind.text : RuleKind → String
  | .flag => "flag"
  | .choice => "choice"
  | .string => "string"
  | .guard => "guard"
  | .guards => "guards"
  | .default => "default"
  | .unsupported code => "kind(" ++ toString code ++ ")"

/--
A rule for the extended attribute `name`. A choice allows the `values`, the first of which is its
default.
-/
structure Rule where
  name : String
  kind : RuleKind
  values : List String := []
  deriving DecidableEq, Repr

namespace Rule

def defaultValue (r : Rule) : AttrValue :=
  match r.kind with
  | .flag => .flag false
  | .choice => .text (r.values.head?.getD "")
  | .string => .absent
  | .guard => .absent
  | .guards => .texts []
  | .default => .text ""
  | .unsupported _ => .absent

def check (r : Rule) (args : List String) : Except Cause AttrValue :=
  match r.kind, args with
  | .flag, [] => .ok (.flag true)
  | .flag, _ => .error (.noArguments r.name)
  | .choice, [arg] =>
    if arg ∈ r.values then .ok (.text arg) else .error (.notAllowed r.name r.values)
  | .choice, _ => .error (.oneArgument r.name)
  | .string, [] => .error (.someArgument r.name)
  | .string, [arg] => .ok (.text arg)
  | .string, args => .ok (.texts args)
  | .guard, [arg] => .ok (.text arg)
  | .guard, _ => .error (.oneArgument r.name)
  | .default, [arg] => .ok (.text arg)
  | .default, _ => .error (.oneArgument r.name)
  | .guards, args => .ok (.texts args)
  | .unsupported _, _ => .error (.unsupportedRule r.name r.kind.text)

def apply (r : Rule) (a : ExtAttr) : Except Diagnostic AttrValue :=
  (r.check (a.args.map Lexeme.literal)).mapError fun cause => { pos := a.name.pos, cause }

end Rule

end IdlCompiler
