/-!
This module contains the errors in the text of a template.
-/

namespace IdlCompiler.Template

inductive Cause where
  | unterminated (text : String)
  | closedRoot (name : String)
  | closedOther (opened closed : String)
  | notClosed (name : String)
  deriving DecidableEq, Repr

def Cause.text : Cause → String
  | .unterminated text => "unterminated directive \x7b\x7b" ++ text
  | .closedRoot name => "Cannot close root context with " ++ name
  | .closedOther opened closed => "Cannot close " ++ opened ++ " with " ++ closed
  | .notClosed name => "Section " ++ name ++ " is not closed"

structure Error where
  line : Nat
  cause : Cause
  deriving DecidableEq, Repr

def Error.text (e : Error) : String :=
  "template:" ++ toString e.line ++ ": " ++ e.cause.text

end IdlCompiler.Template
