import IdlCompiler.Backend.Context
import IdlCompiler.CommandLine.Options
import IdlCompiler.Config.Basic
import IdlCompiler.Declaration.Json
import IdlCompiler.Declaration.Load
import IdlCompiler.Declaration.Printer
import IdlCompiler.Dependency.Declarations
import IdlCompiler.Files.Write
import IdlCompiler.Log
import IdlCompiler.Text.Mark

/-!
This module contains a run of the compiler on a file tree: interface definitions are loaded, ordered,
and rendered into the outputs of a configuration.
-/

namespace IdlCompiler

structure RunState where
  files : FileTree
  printed : String := ""
  log : List LogEntry := []

/--
A part of a run. What was done before a failure stays done.
-/
abbrev Run (α : Type) : Type :=
  ExceptT Error (StateM RunState) α

namespace Run

def print (text : String) : Run Unit :=
  modify fun s => { s with printed := s.printed ++ text }

def log (entries : List LogEntry) : Run Unit :=
  modify fun s => { s with log := s.log ++ entries }

def ofOutcome {α : Type} (x : Outcome Error α) : Run α := do
  log (x.warnings.map Warning.entry)
  match x.result with
  | .ok a => return a
  | .error e => throw e

def padded (width : Nat) (s : String) : String :=
  s.pushn ' ' (width - s.length)

def row (place kind literal : String) : String :=
  padded 20 place ++ " " ++ padded 12 kind ++ " " ++ literal ++ "\n"

def tokenRow (t : Token) : String :=
  let literal :=
    match t.lexeme with
    | .string value => Literal.listing value
    | other => other.text
  row t.pos.text t.lexeme.kind literal

def printTokens : List String → Run Unit
  | [] => return
  | path :: paths => do
    match (← get).files.read path with
    | .error e => throw (.within ("opening " ++ path) e)
    | .ok content =>
      match TokenStream.ofSource path (Text.Glyph.ofString content) with
      | .error e => throw (Error.ofLexError path e)
      | .ok stream =>
        print (String.join (stream.toList.map tokenRow))
        printTokens paths

def printListing (paths : List String) : Run Unit := do
  print (row "POSITION" "TOKEN" "LITERAL")
  print (row ("".pushn '-' 20) ("".pushn '-' 12) ("".pushn '-' 20))
  printTokens paths

structure Job where
  options : Options
  config : Config
  registry : Registry
  declarations : List Declaration

/--
The content of an output with what is logged on the way, from the files as they are when the output
file was created.
-/
def content (job : Job) (o : Output) (template path : String) : Run String := do
  let text ←
    match (← get).files.read template with
    | .ok text => pure text
    | .error e => throw (.within ("reading " ++ template) e)
  let t ←
    match Template.parse text with
    | .ok t => pure t
    | .error e => throw (.within template (.template e))
  let info : OutputInfo := ⟨path, job.options.version, o.context, job.registry⟩
  let data := Value.map (← ofOutcome (info.context o.language job.declarations))
  if job.options.debug then
    if let some fault := data.jsonFault? then
      throw (.within "dumping context" (.undumpable fault))
    log ([.debug ("context:\n" ++ data.toJson.indented "    "),
      .debug ("template:\n" ++ t.dump)] ++ (t.trace data).map .debug)
  return t.render data

def writeOutput (job : Job) (defines : List (String × String)) (o : Output) : Run Unit := do
  let path ← o.renderedPath defines
  let template := job.config.templatePath o
  print (Text.Mark.line (template ++ " -> " ++ path))
  let (files, failure) := (← get).files.create path
  modify fun s => { s with files }
  let failure ←
    match failure with
    | some e => pure (some e)
    | none =>
      let rendered ← tryCatch (Except.ok <$> content job o template path) fun e => pure (.error e)
      let (text, failure) :=
        match rendered with
        | .ok text => (text, none)
        | .error e => ("", some e)
      let (files, failure) := (← get).files.complete path text failure
      modify fun s => { s with files }
      pure failure
  match failure with
  | some e => throw (.within ("output " ++ Text.quoted o.name) e)
  | none => return

def writeOutputs (job : Job) (defines : List (String × String)) : List Output → Run Unit
  | [] => return
  | o :: outputs => do
    unless o.isSkipped do
      writeOutput job defines o
    writeOutputs job defines outputs

def compile (c : CommandLine) : Run Unit := do
  if c.options.emitTokens then
    printListing c.args
  else
    let config ← Config.load (← get).files (c.options.config.getD "")
    let defines ← Define.readAll c.options.defines
    let schema ← config.extendSchema .builtin
    let registry := config.extendRegistry .builtin
    let declarations ← ofOutcome (Declaration.load schema (← get).files c.args)
    if c.options.emitModel then
      print (Declaration.textAll declarations)
    else if c.options.emitModelJson then
      print (Declaration.jsonText declarations)
    else
      let declarations := Declaration.inOrder registry.isSimple declarations
      if c.options.emitOrder then
        print (String.join (declarations.map (·.name ++ "\n")))
      else
        writeOutputs ⟨c.options, config, registry, declarations⟩ defines config.outputs

end Run

structure RunResult where
  files : FileTree
  output : String
  errors : String
  exitCode : Nat

def Error.report (e : Error) : String :=
  match e.root with
  | .source d => d.text ++ "\n"
  | .usage text => "error: " ++ text ++ "\n"
  | _ => "error: " ++ e.display ++ "\n"

def runCompiler (time : String) (files : FileTree) (words : List String) : RunResult :=
  match CommandLine.read words with
  | .error e => ⟨files, "", e.report, 1⟩
  | .ok c =>
    let (result, s) := (Run.compile c).run.run ⟨files, "", []⟩
    let log := LogEntry.lines c.options.debug c.options.logJson time s.log
    match result with
    | .ok () => ⟨s.files, s.printed, log, 0⟩
    | .error e => ⟨s.files, s.printed, log ++ e.report, 1⟩

end IdlCompiler
