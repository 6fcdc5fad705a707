import IdlCompiler.Template.Error
import IdlCompiler.Text.Blank
import IdlCompiler.Text.Cut

/-!
This module contains the directives of templates and the reading of a template text as a flat list of
them. Directives stand between double braces and end on the line on which they start.
-/

namespace IdlCompiler.Template

inductive SectionKind where
  /-- Once for every item of a list, and once for any other value that is present. -/
  | each
  | ifPresent
  | ifAbsent
  deriving DecidableEq, Repr

abbrev Path : Type :=
  List String

def Path.text (path : Path) : String :=
  ".".intercalate path

inductive Directive where
  | literal (text : String)
  | enter (kind : SectionKind) (path : Path)
  | leave (path : Path)
  | emit (path : Path)
  | lineEnd
  | continuation
  deriving DecidableEq, Repr

structure Located where
  line : Nat
  directive : Directive
  deriving DecidableEq, Repr

def Path.ofChars (cs : List Char) : Path :=
  (cs.splitOn '.').map fun name => String.ofList (Text.trim name)

namespace Directive

/--
The directive between braces. The first character says what it does; without a special one the value
of a path is emitted.
-/
def ofChars (cs : List Char) : Directive :=
  if Text.trim cs = ['\\'] then .continuation
  else
    match cs with
    | '#' :: cs => .enter .each (Path.ofChars cs)
    | '?' :: cs => .enter .ifPresent (Path.ofChars cs)
    | '^' :: cs => .enter .ifAbsent (Path.ofChars cs)
    | '/' :: cs => .leave (Path.ofChars cs)
    | cs => .emit (Path.ofChars cs)

def literals (cs : List Char) : List Directive :=
  if cs = [] then [] else [.literal (String.ofList cs)]

/--
The directive that a part of a line behind opening braces starts with, and the literal behind its
closing braces. Behind a continuation the literal is dropped.
-/
def ofChunk (chunk : List Char) : Except Cause (List Directive) :=
  match Text.cutAt? ['}', '}'] chunk with
  | none => .error (.unterminated (String.ofList chunk))
  | some (inner, rest) =>
    match ofChars inner with
    | .continuation => .ok [.continuation]
    | d => .ok (d :: literals rest)

def ofLine (cs : List Char) : Except Cause (List Directive) :=
  match Text.splitAt ['{', '{'] cs with
  | [] => .ok []
  | before :: chunks => do
    let parts ← chunks.mapM ofChunk
    return literals before ++ parts.flatten

end Directive

namespace Located

def ofLines (line : Nat) : List (List Char) → Except Error (List Located)
  | [] => .ok []
  | cs :: rest =>
    match Directive.ofLine cs with
    | .error cause => .error ⟨line, cause⟩
    | .ok directives => do
      let located := directives.map (⟨line, ·⟩)
      if rest.isEmpty then
        return located
      else
        return located ++ ⟨line, .lineEnd⟩ :: (← ofLines (line + 1) rest)

def ofText (text : String) : Except Error (List Located) :=
  ofLines 1 (text.toList.splitOn '\n')

end Located

end IdlCompiler.Template
