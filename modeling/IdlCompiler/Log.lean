import IdlCompiler.Diagnostic
import IdlCompiler.Json.Printer

/-!
This module contains the log of a run: entries with a level, a message and fields, and the lines they
are written as.
-/

namespace IdlCompiler

inductive Level where
  | debug
  | info
  | warn
  | error
  deriving DecidableEq, Repr

namespace Level

def text : Level → String
  | .debug => "debug"
  | .info => "info"
  | .warn => "warn"
  | .error => "error"

def ofText? (name : String) : Option Level :=
  [Level.debug, .info, .warn, .error].find? fun l => l.text = name

def isWritten (debug : Bool) (l : Level) : Bool :=
  debug || l ≠ .debug

end Level

structure LogEntry where
  level : Level
  message : String
  fields : List (String × Json) := []

def Warning.entry : Warning → LogEntry
  | .unknownAttribute name pos =>
    ⟨.warn, "unknown attribute " ++ Cause.named name, [("pos", .string pos.text)]⟩
  | .unknownType name owner => ⟨.warn, "unknown type: " ++ name, [("class", .string owner)]⟩

namespace LogEntry

def debug (message : String) : LogEntry :=
  ⟨.debug, message, []⟩

def escapedChar (c : Char) : List Char :=
  match c with
  | '\x22' => ['\\', '\x22']
  | '\\' => ['\\', '\\']
  | '\n' => ['\\', 'n']
  | '\r' => ['\\', 'r']
  | '\t' => ['\\', 't']
  | c => if c.toNat < 0x20 then '\\' :: 'u' :: Text.hex 4 c.toNat else [c]

def quoted (s : String) : String :=
  String.ofList ('\x22' :: s.toList.flatMap escapedChar ++ ['\x22'])

def floatStyle : Decimal.Style :=
  ⟨-400, none, 2, false⟩

def numberText (n : Json.Number) : String :=
  let integer? := n.toInt?.filter fun i => -(Nat.pow 2 63 : Int) ≤ i && i < Nat.pow 2 63
  match integer?, n.toFloat? with
  | some i, _ => toString i
  | none, some x => Decimal.write floatStyle x
  | none, none => n.text

def fieldText : Json → String
  | .string s => quoted s
  | .number n => numberText n
  | v => v.canonical.compactWith false

def consoleLine (e : LogEntry) : String :=
  let fields :=
    if e.fields.isEmpty then ""
    else
      " \x7b" ++ ", ".intercalate (e.fields.map fun (k, v) => quoted k ++ ": " ++ fieldText v) ++
        "\x7d"
  e.level.text ++ " " ++ e.message ++ fields ++ "\n"

def jsonLine (time : String) (e : LogEntry) : String :=
  let members :=
    [("level", .string e.level.text), ("ts", .string time), ("msg", .string e.message)] ++ e.fields
  "\x7b" ++ ",".intercalate (members.map fun (k, v) => quoted k ++ ":" ++ fieldText v) ++ "\x7d\n"

def lines (debug json : Bool) (time : String) (entries : List LogEntry) : String :=
  let written := entries.filter (·.level.isWritten debug)
  String.join (written.map fun e => if json then e.jsonLine time else e.consoleLine)

end LogEntry

end IdlCompiler
