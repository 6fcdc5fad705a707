import IdlCompiler.Json.Basic
import IdlCompiler.Text.Quoted

/-!
This module contains the writing of JSON texts, on one line or indented.
-/

namespace IdlCompiler.Json

/--
A character inside a string. The line and paragraph separators are always escaped, and with `html`
so are the characters that have a meaning in markup.
-/
def escapedChar (html : Bool) (c : Char) : List Char :=
  match c with
  | '\x22' => ['\\', '\x22']
  | '\\' => ['\\', '\\']
  | '\n' => ['\\', 'n']
  | '\r' => ['\\', 'r']
  | '\t' => ['\\', 't']
  | '\x08' => ['\\', 'b']
  | '\x0c' => ['\\', 'f']
  | c =>
    let n := c.toNat
    if n < 0x20 || n == 0x2028 || n == 0x2029 || (html && (c = '<' || c = '>' || c = '&')) then
      '\\' :: 'u' :: Text.hex 4 n
    else
      [c]

def quotedWith (html : Bool) (s : String) : String :=
  String.ofList ('\x22' :: s.toList.flatMap (escapedChar html) ++ ['\x22'])

mutual

def compactWith (html : Bool) : Json → String
  | .null => "null"
  | .bool b => if b then "true" else "false"
  | .number n => n.text
  | .string s => quotedWith html s
  | .array items => "[" ++ ",".intercalate (compactItems html items) ++ "]"
  | .object members => "\x7b" ++ ",".intercalate (compactMembers html members) ++ "\x7d"

def compactItems (html : Bool) : List Json → List String
  | [] => []
  | v :: vs => compactWith html v :: compactItems html vs

def compactMembers (html : Bool) : List (String × Json) → List String
  | [] => []
  | (k, v) :: ms => (quotedWith html k ++ ":" ++ compactWith html v) :: compactMembers html ms

end

def compact (v : Json) : String :=
  compactWith true v

mutual

/--
A value with every item and member on a line of its own, indented by `step` more than the value;
`margin` is what the lines of the value start with.
-/
def indentedFrom (step margin : String) : Json → String
  | .null => "null"
  | .bool b => if b then "true" else "false"
  | .number n => n.text
  | .string s => quotedWith true s
  | .array [] => "[]"
  | .array (v :: vs) =>
    let inner := margin ++ step
    "[\n" ++ ",\n".intercalate (indentedItems step inner (v :: vs)) ++ "\n" ++ margin ++ "]"
  | .object [] => "\x7b\x7d"
  | .object (m :: ms) =>
    let inner := margin ++ step
    "\x7b\n" ++ ",\n".intercalate (indentedMembers step inner (m :: ms)) ++ "\n" ++ margin ++ "\x7d"

def indentedItems (step margin : String) : List Json → List String
  | [] => []
  | v :: vs => (margin ++ indentedFrom step margin v) :: indentedItems step margin vs

def indentedMembers (step margin : String) : List (String × Json) → List String
  | [] => []
  | (k, v) :: ms =>
    (margin ++ quotedWith true k ++ ": " ++ indentedFrom step margin v) ::
      indentedMembers step margin ms

end

def indented (step : String) (v : Json) : String :=
  indentedFrom step "" v

end IdlCompiler.Json
