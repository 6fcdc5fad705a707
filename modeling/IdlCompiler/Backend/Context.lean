import IdlCompiler.Backend.BindingView
import IdlCompiler.Error
import IdlCompiler.Outcome

/-!
This module contains the data that templates are rendered with: the view of the declarations that
their language asks for, and what is known about the output.
-/

namespace IdlCompiler

/--
What is known about an output apart from its declarations. The initial entries hide the path and the
version.
-/
structure OutputInfo where
  path : String
  version : Int
  initial : List (String × Value)
  registry : Registry

namespace OutputInfo

def overlay (entries others : List (String × Value)) : List (String × Value) :=
  entries.filter (fun e => others.all (·.1 ≠ e.1)) ++ others

def entries (info : OutputInfo) : List (String × Value) :=
  overlay [("output", .text info.path), ("version", .int info.version)] info.initial

def context (info : OutputInfo) (lang : String) (ds : List Declaration) :
    Outcome Error (List (String × Value)) :=
  match Dialect.ofLang? lang with
  | some dialect =>
    let c : SpellingContext := ⟨dialect, info.registry, ds.map (·.name)⟩
    ⟨ClassView.warnings c ds,
      .ok (overlay info.entries (ClassView.ofDeclarations c ds).toEntries)⟩
  | none =>
    if lang = "python" then
      ⟨BindingView.warnings ds,
        .ok (overlay info.entries (BindingView.ofDeclarations ds).toEntries)⟩
    else
      .fail (.within (Text.quoted lang) .unknownLanguage)

end OutputInfo

end IdlCompiler
