import IdlCompiler.Error
import IdlCompiler.Template.Render
import IdlCompiler.Text.Cut

/-!
This module contains the outputs that a configuration asks for, and the definitions that their paths
are rendered with.
-/

namespace IdlCompiler

/--
A file that is rendered from a template. The path is itself a template; an empty language means the
native one.
-/
structure Output where
  name : String
  template : String := ""
  path : String := ""
  lang : String := ""
  context : List (String × Value) := []

namespace Output

def isSkipped (o : Output) : Bool :=
  o.template = "" || o.path = ""

def defaultLanguage : String :=
  "cxx"

def language (o : Output) : String :=
  if o.lang = "" then defaultLanguage else o.lang

def inherit (o defaults : Output) : Output where
  name := o.name
  template := if o.template = "" then defaults.template else o.template
  path := if o.path = "" then defaults.path else o.path
  lang := if o.lang = "" then defaults.lang else o.lang
  context := if o.context.isEmpty then defaults.context else o.context

def renderedPath (o : Output) (defines : List (String × String)) : Except Error String :=
  match Template.parse o.path with
  | .error e => .error (.within ("output " ++ Text.quoted o.name ++ ": path") (.template e))
  | .ok t =>
    let values := (defines.filter (·.1 ≠ "PATH")).map fun (k, v) => (k, Value.text v)
    .ok (t.render (.map (("PATH", .text o.name) :: values)))

end Output

namespace Define

def insert (defines : List (String × String)) (name value : String) : List (String × String) :=
  defines.filter (·.1 ≠ name) ++ [(name, value)]

def read (defines : List (String × String)) (arg : String) :
    Except Error (List (String × String)) :=
  match Text.cutAt? ['='] arg.toList with
  | none => .error (.malformedDefine arg)
  | some (name, value) =>
    .ok (insert defines (String.ofList (Text.trim name)) (String.ofList (Text.trim value)))

def readAll (args : List String) : Except Error (List (String × String)) :=
  args.foldlM read []

end Define

end IdlCompiler
