import IdlCompiler.Config.Document
import IdlCompiler.Text.Base64
import IdlCompiler.Text.Glyph
import IdlCompiler.Text.Integer

/-!
This module contains what the scalars of YAML stand for. The tag in front of a scalar tells its kind;
without a tag, the kind of a plain scalar is told by how it is spelled.
-/

namespace IdlCompiler.Yaml

def momentForms : List (List Moment.Part) :=
  let day : List Moment.Part := [.year, .mark '-', .month false, .mark '-', .day false]
  let time : List Moment.Part :=
    [.hour false, .mark ':', .minute false, .mark ':', .second false, .fraction]
  [day ++ .mark 'T' :: time ++ [.zone], day ++ .mark 't' :: time ++ [.zone], day ++ .spaces :: time, day]

def moment? (cs : List Char) : Option Moment :=
  let year := cs.takeWhile Char.isDigit
  if year.length = 4 ∧ (cs.drop 4).head? = some '-' then
    momentForms.findSome? (Moment.read? {} cs ·)
  else
    none

def integer? (cs : List Char) : Option Scalar :=
  match Text.Integer.read cs, Text.Integer.readUnsigned cs with
  | .ok n, _ => some (.integer n)
  | _, .ok n => some (.unsigned n)
  | _, _ =>
    match cs with
    | '0' :: m :: sign :: digits =>
      if (m = 'b' ∨ m = 'o') ∧ (sign = '+' ∨ sign = '-') then
        (Text.Integer.read (sign :: '0' :: m :: digits)).toOption.map .integer
      else
        none
    | _ => none

/--
The number that a text spells. Underscores do not count, except in a text that starts with a point,
where they have to divide digits.
-/
def number? (cs : List Char) : Option Scalar :=
  let digits := cs.filter (· ≠ '_')
  if cs.head? = some '.' then
    if divided false cs then (Decimal.parse? digits).map .float else none
  else
    (integer? digits).or ((Decimal.parse? digits).map .float)
where
  divided (afterDigit : Bool) : List Char → Bool
    | [] => true
    | '_' :: cs => afterDigit && cs.head?.any Char.isDigit && divided false cs
    | c :: cs => divided c.isDigit cs

def plainScalar (moments : Bool) (s : String) : Scalar :=
  if s ∈ ["", "~", "null", "Null", "NULL"] then .null
  else if s ∈ ["true", "True", "TRUE"] then .bool true
  else if s ∈ ["false", "False", "FALSE"] then .bool false
  else if s ∈ [".inf", ".Inf", ".INF", "+.inf", "+.Inf", "+.INF"] then .float (1 / 0)
  else if s ∈ ["-.inf", "-.Inf", "-.INF"] then .float (-1 / 0)
  else if s ∈ [".nan", ".NaN", ".NAN"] then .float (0 / 0)
  else
    let cs := s.toList
    if cs.head?.any fun c => c.isDigit || c = '+' || c = '-' || c = '.' then
      match if moments then moment? cs else none with
      | some m => .moment m
      | none => (number? cs).getD (.text s)
    else
      .text s

def tagOf : Scalar → String
  | .null => "!!null"
  | .bool _ => "!!bool"
  | .integer _ => "!!int"
  | .unsigned _ => "!!int"
  | .float _ => "!!float"
  | .text _ => "!!str"
  | .moment _ => "!!timestamp"

def mergeKey : String :=
  "<<"

def kindOf (tag : String) (plain : Bool) (s : String) : String :=
  if tag ≠ "" then tag
  else if !plain then "!!str"
  else if s = mergeKey then "!!merge"
  else tagOf (plainScalar true s)

/--
What a scalar stands for. A tag must be the one of its spelling, but any text can be tagged as such or
as bytes, and an integer as a floating point number.
-/
def scalar? (tag : String) (plain : Bool) (s : String) : Option Scalar :=
  match kindOf tag plain s with
  | "!!str" => some (.text s)
  | "!!merge" => if s = mergeKey then some (.text s) else none
  | "!!binary" => (Text.Base64.decode? s.toList).map fun bytes =>
      .text (String.ofList ((Text.Glyph.ofBytes bytes).map (·.char)))
  | kind =>
    let value := plainScalar (kind = "!!timestamp") s
    match value with
    | .integer n =>
      if kind = "!!float" then some (.float (Float.ofInt n))
      else if kind = "!!int" then some value
      else none
    | _ => if tagOf value = kind then some value else none

end IdlCompiler.Yaml
