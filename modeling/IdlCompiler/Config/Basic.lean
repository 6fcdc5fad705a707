import IdlCompiler.Config.Output
import IdlCompiler.Config.Toml
import IdlCompiler.Config.Yaml
import IdlCompiler.ExtAttr.Schema
import IdlCompiler.Files.FileTree
import IdlCompiler.Registry

/-!
This module contains configurations: what is rendered from which template, and the attribute rules
and type bindings that are added to the built in ones.
-/

namespace IdlCompiler

structure AttrRule where
  domain : Domain
  rule : Rule
  deriving DecidableEq, Repr

structure Config where
  dir : String := ""
  outputs : List Output := []
  attrRules : List AttrRule := []
  simpleTypes : List TypeBinding := []
  genericTypes : List TypeBinding := []

namespace Config

def invalid (message : String) : Error :=
  .within message .invalidConfiguration

def sorted (entries : List (String × Document)) : List (String × Document) :=
  entries.mergeSort fun a b => a.1 ≤ b.1

def table (format : Format) (root : List (String × Document)) (key : String) :
    Except Error (List (String × Document)) :=
  match root.lookup key with
  | none => .ok []
  | some (.scalar .null) => .ok []
  | some (.table entries) => .ok entries
  | some d => .error (invalid (key ++ ": expected a table, got " ++ d.typeName format))

def outputText (format : Format) (name : String) (entries : List (String × Document))
    (key : String) : Except Error String :=
  match entries.lookup key with
  | none => .ok ""
  | some (.scalar .null) => .ok ""
  | some (.scalar (.text s)) => .ok s
  | some d =>
    .error (invalid ("mustache." ++ name ++ "." ++ key ++ ": expected string, got " ++
      d.typeName format))

def output (format : Format) (name : String) : Document → Except Error Output
  | .scalar (.text template) => .ok { name, template }
  | .table entries => do
    let template ← outputText format name entries "template"
    let path ← outputText format name entries "path"
    let lang ← outputText format name entries "lang"
    match entries.lookup "context" with
    | none => return { name, template, path, lang }
    | some (.scalar .null) => return { name, template, path, lang }
    | some (.table context) =>
      return { name, template, path, lang, context := Document.toEntries context }
    | some d =>
      throw (invalid ("mustache." ++ name ++ ".context: expected a table, got " ++
        d.typeName format))
  | d =>
    .error (invalid ("mustache." ++ name ++ ": expected a template path or a table, got " ++
      d.typeName format))

/--
The outputs of a table in the order of their names. The one without a name is no output, but gives
the others what they leave empty.
-/
def outputsOf (format : Format) (entries : List (String × Document)) :
    Except Error (List Output) := do
  let outputs ← (sorted entries).mapM fun (name, d) => output format name d
  let named := outputs.filter (·.name ≠ "")
  match outputs.find? (·.name = "") with
  | some defaults => return named.map (·.inherit defaults)
  | none => return named

def texts? : List Document → Option (List String)
  | [] => some []
  | .scalar (.text s) :: ds => (texts? ds).map (s :: ·)
  | _ :: _ => none

def ruleOf (format : Format) (domain name : String) : Document → Except Error Rule
  | .scalar (.text kind) =>
    if kind = "bool" then .ok ⟨name, .flag, []⟩
    else if kind = "str" then .ok ⟨name, .string, []⟩
    else
      .error (invalid ("ext-attributes." ++ domain ++ "." ++ name ++ ": unknown kind " ++
        Text.quoted kind))
  | .list items =>
    match texts? items with
    | some (value :: values) => .ok ⟨name, .choice, value :: values⟩
    | _ =>
      .error (invalid ("ext-attributes." ++ domain ++ "." ++ name ++
        ": expected a non-empty list of strings"))
  | d =>
    .error (invalid ("ext-attributes." ++ domain ++ "." ++ name ++ ": unexpected " ++
      d.typeName format))

def domainRules (format : Format) (name : String) (d : Document) : Except Error (List AttrRule) :=
  match Domain.ofText? name with
  | none => .error (invalid ("ext-attributes: unknown domain " ++ Text.quoted name))
  | some domain =>
    match d with
    | .table entries =>
      (sorted entries).mapM fun (rule, d) => (ruleOf format name rule d).map (⟨domain, ·⟩)
    | d =>
      .error (invalid ("ext-attributes." ++ name ++ ": expected a table, got " ++
        d.typeName format))

def attrRulesOf (format : Format) (entries : List (String × Document)) :
    Except Error (List AttrRule) := do
  let rules ← (sorted entries).mapM fun (name, d) => domainRules format name d
  return rules.flatten

def binding (format : Format) (name lang : String) : List Document → Except Error TypeBinding
  | [requires, target] => do
    let requires ←
      match requires with
      | .scalar .null => pure ""
      | .scalar (.text s) => pure s
      | d => throw (invalid ("include: expected string, got " ++ d.typeName format))
    match target with
    | .scalar (.text s) => return ⟨lang, name, ⟨requires, s⟩⟩
    | d => throw (invalid ("name: expected string, got " ++ d.typeName format))
  | pair =>
    .error (invalid ("expected [include, name], got " ++ toString pair.length ++ " items"))

def nameBindings (format : Format) (key name : String) :
    Document → Except Error (List TypeBinding)
  | .list pair =>
    match binding format name Output.defaultLanguage pair with
    | .ok b => .ok [b]
    | .error e => .error (.within (key ++ "." ++ name) e)
  | .table entries =>
    (sorted entries).mapM fun (lang, d) =>
      match d with
      | .list pair =>
        (binding format name lang pair).mapError (.within (key ++ "." ++ name ++ "." ++ lang) ·)
      | _ =>
        .error (invalid (key ++ "." ++ name ++ "." ++ lang ++ ": expected [include, name]"))
  | d => .error (invalid (key ++ "." ++ name ++ ": unexpected " ++ d.typeName format))

def bindingsOf (format : Format) (key : String) (entries : List (String × Document)) :
    Except Error (List TypeBinding) := do
  let bindings ← (sorted entries).mapM fun (name, d) => nameBindings format key name d
  return bindings.flatten

def ofTable (format : Format) (root : List (String × Document)) : Except Error Config := do
  let outputs ← outputsOf format (← table format root "mustache")
  let attrRules ← attrRulesOf format (← table format root "ext-attributes")
  let simpleTypes ← bindingsOf format "simple_types" (← table format root "simple_types")
  let genericTypes ← bindingsOf format "generic_types" (← table format root "generic_types")
  return { outputs, attrRules, simpleTypes, genericTypes }

def document? (format : Format) (text : String) : Option Document :=
  match format with
  | .json => Document.parseJson? text
  | .yaml => Yaml.parse? text
  | .toml => Toml.parse? text

def ofDocument? (format : Format) : Option Document → Except Error Config
  | some (.table root) => ofTable format root
  | some (.scalar .null) => ofTable format []
  | _ => .error (invalid ("decoding " ++ format.text))

def parse (text format : String) : Except Error Config :=
  match Format.ofText? format with
  | none => .error (invalid ("unsupported format " ++ Text.quoted format))
  | some format => ofDocument? format (document? format text)

def ofJson (value : Json) : Except Error Config :=
  ofDocument? .json (Document.ofJson? value)

def formatOf (path : String) : String :=
  let extension := Text.lowerCase (Path.extension path)
  if extension = ".yml" then "yaml" else String.ofList (extension.toList.drop 1)

def load (files : FileTree) (path : String) : Except Error Config :=
  match files.read path with
  | .error e => .error (.within ("reading " ++ path) e)
  | .ok text =>
    match parse text (formatOf path) with
    | .error e => .error (.within path e)
    | .ok config => .ok { config with dir := Path.dir path }

def extendSchema (c : Config) (schema : Schema) : Except Error Schema :=
  c.attrRules.foldlM (fun schema r =>
    (schema.install r.domain r.rule).mapError (.within ("ext-attributes." ++ r.domain.text) ·))
    schema

def extendRegistry (c : Config) (registry : Registry) : Registry :=
  c.genericTypes.foldl Registry.defineGeneric
    (c.simpleTypes.foldl Registry.defineSimple registry)

def templatePath (c : Config) (o : Output) : String :=
  if Path.isAbsolute o.template then o.template else Path.join c.dir o.template

end Config

end IdlCompiler
