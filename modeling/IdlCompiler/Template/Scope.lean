import IdlCompiler.Template.Directive
import IdlCompiler.Template.Value

/-!
This module contains scopes, the steps from the data of a template to the value that a directive
refers to, and the resolution of paths in them.
-/

namespace IdlCompiler.Template

inductive Entry where
  | named (name : String) (value : Value)
  | index (i : Nat) (value : Value)

def Entry.value : Entry → Value
  | .named _ value => value
  | .index _ value => value

def Entry.label : Entry → String
  | .named name _ => name
  | .index i _ => "(" ++ toString i ++ ")"

/--
The steps to a value, the innermost first. The outermost step is to the data itself and has no name.
-/
abbrev Scope : Type :=
  List Entry

namespace Scope

def value : Scope → Value
  | [] => .null
  | entry :: _ => entry.value

def label (s : Scope) : String :=
  "/".intercalate (s.reverse.map (·.label))

def iterated? (name : String) : Scope → Option Value
  | .index _ item :: .named n list :: rest =>
    if n = name ∧ list.items?.isSome then some item
    else iterated? name (.named n list :: rest)
  | _ :: rest => iterated? name rest
  | [] => none

def entered? (name : String) (s : Scope) : Option Value :=
  s.findSome? fun
    | .named n value => if n = name then some value else none
    | .index _ _ => none

def member? (name : String) (s : Scope) : Option Value :=
  s.findSome? fun entry => entry.value.member? name

/--
Follow the first name of a path: to the data if it is empty, to the current item of an iteration, to
a value that was entered by that name, or to a member. A name that leads nowhere leads to null.
-/
def followFirst (root : Value) (s : Scope) (name : String) : Scope :=
  if name = "" then
    .named "" root :: s
  else
    let found := (s.iterated? name).or ((s.entered? name).or (s.member? name))
    .named name (found.getD .null) :: s

def followNext (s : Scope) (name : String) : Scope :=
  .named name ((s.member? name).getD .null) :: s

/--
Follow a path. A path of dots only leads to the value where it starts.
-/
def follow (root : Value) (s : Scope) (path : Path) : Scope :=
  if 2 ≤ path.length ∧ path.all (· = "") then
    .named "." s.value :: s
  else
    match path with
    | [] => s
    | name :: names => names.foldl followNext (s.followFirst root name)

end Scope

end IdlCompiler.Template
