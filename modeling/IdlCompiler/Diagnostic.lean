import IdlCompiler.Pos

/-!
This module contains the diagnostics about source files: errors, which stop the work and may refer to
other places by notes, and warnings, which do not.
-/

namespace IdlCompiler

inductive Cause where
  | unterminatedString
  | expected (wanted : String) (found : String)
  | unknownDeclaration (kind name : String)
  | partialNonInterface
  | kindChanged (name before now : String)
  | notPartial (name : String)
  | duplicateMember (owner member : String)
  | noArguments (rule : String)
  | oneArgument (rule : String)
  | someArgument (rule : String)
  | notAllowed (rule : String) (allowed : List String)
  | unsupportedRule (rule kind : String)
  | other (text : String)
  deriving DecidableEq, Repr

def Cause.named (name : String) : String :=
  "`" ++ name ++ "'"

def Cause.text : Cause → String
  | .unterminatedString => "Error in string"
  | .expected wanted found => s!"expected {wanted}, got {found}"
  | .unknownDeclaration kind name => "unexpected \"" ++ kind ++ " " ++ name ++ "\""
  | .partialNonInterface => "only interfaces can be partial"
  | .kindChanged name before now =>
    named name ++ " was " ++ named before ++ " and now is " ++ named now
  | .notPartial name => "neither " ++ named name ++ " was declared partial"
  | .duplicateMember owner member =>
    "definition of " ++ owner ++ "." ++ member ++ " found in two places"
  | .noArguments rule => named rule ++ " has no arguments"
  | .oneArgument rule => named rule ++ " requires exactly 1 argument"
  | .someArgument rule => named rule ++ " requires at least one argument"
  | .notAllowed rule allowed =>
    named rule ++ " needs to be one of: " ++ ", ".intercalate (allowed.map named)
  | .unsupportedRule rule kind => named rule ++ " has unsupported rule kind " ++ kind
  | .other text => text

structure Note where
  pos : Pos
  text : String
  deriving DecidableEq, Repr

def Note.previous (pos : Pos) : Note :=
  ⟨pos, "see previous definition"⟩

structure Diagnostic where
  pos : Pos
  cause : Cause
  notes : List Note := []
  deriving DecidableEq, Repr

def Diagnostic.text (d : Diagnostic) : String :=
  "\n".intercalate
    ((d.pos.text ++ ": error: " ++ d.cause.text) ::
      d.notes.map fun n => n.pos.text ++ ": note: " ++ n.text)

inductive Warning where
  | unknownAttribute (name : String) (pos : Pos)
  | unknownType (name : String) (owner : String)
  deriving DecidableEq, Repr

end IdlCompiler
