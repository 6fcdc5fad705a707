import IdlCompiler.Error
import IdlCompiler.Text.Integer

/-!
This module contains the options of the command line and their reading. Options and arguments may be
mixed, up to a double dash, behind which there are only arguments.
-/

namespace IdlCompiler

structure Options where
  version : Int := 1
  debug : Bool := false
  logJson : Bool := false
  defines : List String := []
  config : Option String := none
  emitTokens : Bool := false
  emitModel : Bool := false
  emitModelJson : Bool := false
  emitOrder : Bool := false
  deriving Repr

inductive Flag where
  | version
  | debug
  | logJson
  | define
  | config
  | emitTokens
  | emitModel
  | emitModelJson
  | emitOrder
  deriving DecidableEq, Repr

namespace Flag

def name : Flag → String
  | .version => "version"
  | .debug => "debug"
  | .logJson => "log-json"
  | .define => "define"
  | .config => "config"
  | .emitTokens => "emit-tokens"
  | .emitModel => "emit-model"
  | .emitModelJson => "emit-model-json"
  | .emitOrder => "emit-order"

def letter? : Flag → Option Char
  | .define => some 'd'
  | .config => some 'c'
  | _ => none

def all : List Flag :=
  [.version, .debug, .logJson, .define, .config, .emitTokens, .emitModel, .emitModelJson,
    .emitOrder]

def needsValue : Flag → Bool
  | .version => true
  | .define => true
  | .config => true
  | _ => false

def switch? (value : String) : Option Bool :=
  if value ∈ ["1", "t", "T", "TRUE", "true", "True"] then some true
  else if value ∈ ["0", "f", "F", "FALSE", "false", "False"] then some false
  else none

def invalidValue (f : Flag) (value reader problem : String) : Error :=
  .usage ("invalid argument " ++ Text.quoted value ++ " for " ++ Text.quoted ("--" ++ f.name) ++
    " flag: strconv." ++ reader ++ ": parsing " ++ Text.quoted value ++ ": " ++ problem)

def setSwitch (f : Flag) (o : Options) (b : Bool) : Options :=
  match f with
  | .debug => { o with debug := b }
  | .logJson => { o with logJson := b }
  | .emitTokens => { o with emitTokens := b }
  | .emitModel => { o with emitModel := b }
  | .emitModelJson => { o with emitModelJson := b }
  | .emitOrder => { o with emitOrder := b }
  | _ => o

def set (f : Flag) (o : Options) (value : String) : Except Error Options :=
  match f with
  | .version =>
    match Text.Integer.read value.toList with
    | .ok n => .ok { o with version := n }
    | .error .malformed => .error (f.invalidValue value "ParseInt" "invalid syntax")
    | .error .outOfRange => .error (f.invalidValue value "ParseInt" "value out of range")
  | .define => .ok { o with defines := o.defines ++ [value] }
  | .config => .ok { o with config := some value }
  | f =>
    match switch? value with
    | some b => .ok (f.setSwitch o b)
    | none => .error (f.invalidValue value "ParseBool" "invalid syntax")

end Flag

structure CommandLine where
  options : Options := {}
  args : List String := []
  deriving Repr

namespace CommandLine

def splitFlag (cs : List Char) : String × Option String :=
  let name := String.ofList (cs.takeWhile (· ≠ '='))
  match cs.dropWhile (· ≠ '=') with
  | _ :: value => (name, some (String.ofList value))
  | [] => (name, none)

def firstByte (c : Char) : Char :=
  Char.ofNat ((String.singleton c).toUTF8.toList.head?.getD 0).toNat

/--
A letter of a flag that is not known, between quotes. It is shown by its first byte, and what stands
for that byte is shown by its first byte again.
-/
def quotedLetter (c : Char) : String :=
  let c := firstByte (firstByte c)
  let shown :=
    if c = '\x27' then ['\\', '\x27']
    else if c = '\x22' then ['\x22']
    else Text.quotedChar c
  "'" ++ String.ofList shown ++ "'"

def readLong (o : Options) (cs : List Char) (rest : List String) :
    Except Error (Options × { left : List String // left.length ≤ rest.length }) :=
  let text := "--" ++ String.ofList cs
  if cs.head? = some '-' ∨ cs.head? = some '=' then
    .error (.usage ("bad flag syntax: " ++ text))
  else
    let (name, value?) := splitFlag cs
    match Flag.all.find? fun f => f.name = name with
    | none => .error (.usage ("unknown flag: --" ++ name))
    | some f =>
      match value? with
      | some value => do return (← f.set o value, ⟨rest, Nat.le_refl _⟩)
      | none =>
        if f.needsValue then
          match rest with
          | value :: rest => do return (← f.set o value, ⟨rest, Nat.le_succ _⟩)
          | [] => .error (.usage ("flag needs an argument: " ++ text))
        else do
          return (← f.set o "true", ⟨rest, Nat.le_refl _⟩)

def readShort (o : Options) (cs : List Char) (rest : List String) :
    Except Error (Options × { left : List String // left.length ≤ rest.length }) :=
  let text := String.ofList cs
  match cs with
  | [] => .ok (o, ⟨rest, Nat.le_refl _⟩)
  | c :: tail =>
    if ['t', 'e', 's', 't', '.'].isPrefixOf cs then
      .ok (o, ⟨rest, Nat.le_refl _⟩)
    else
      match Flag.all.find? fun f => f.letter? = some c with
      | none =>
        .error (.usage ("unknown shorthand flag: " ++ quotedLetter c ++ " in -" ++ text))
      | some f =>
        match tail with
        | '=' :: d :: value => do
          return (← f.set o (String.ofList (d :: value)), ⟨rest, Nat.le_refl _⟩)
        | d :: value => do
          return (← f.set o (String.ofList (d :: value)), ⟨rest, Nat.le_refl _⟩)
        | [] =>
          match rest with
          | value :: rest => do return (← f.set o value, ⟨rest, Nat.le_succ _⟩)
          | [] =>
            .error (.usage ("flag needs an argument: " ++ quotedLetter c ++ " in -" ++ text))

def readMore (c : CommandLine) (words : List String) : Except Error CommandLine :=
  match words with
  | [] => .ok c
  | word :: rest =>
    match word.toList with
    | ['-', '-'] => .ok { c with args := c.args ++ rest }
    | '-' :: '-' :: cs => do
      let (options, ⟨left, _⟩) ← readLong c.options cs rest
      readMore { c with options } left
    | '-' :: d :: cs => do
      let (options, ⟨left, _⟩) ← readShort c.options (d :: cs) rest
      readMore { c with options } left
    | _ => readMore { c with args := c.args ++ [word] } rest
termination_by words.length

def read (words : List String) : Except Error CommandLine := do
  let c ← readMore {} words
  if c.args.isEmpty then
    throw (.usage "requires at least 1 arg(s), only received 0")
  if c.options.config.isNone then
    throw (.usage "required flag(s) \"config\" not set")
  return c

end CommandLine

end IdlCompiler
