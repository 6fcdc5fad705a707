import IdlCompiler.Json.Basic

/-!
This module contains the reading of JSON texts.
-/

namespace IdlCompiler.Json

def isSpace (c : Char) : Bool :=
  c = ' ' || c = '\t' || c = '\n' || c = '\r'

private def isDecimal (c : Char) : Bool :=
  '0' ≤ c && c ≤ '9'

def hexDigit? (c : Char) : Option Nat :=
  if '0' ≤ c && c ≤ '9' then some (c.toNat - 48)
  else if 'a' ≤ c && c ≤ 'f' then some (c.toNat - 87)
  else if 'A' ≤ c && c ≤ 'F' then some (c.toNat - 55)
  else none

def hexNumber? (cs : List Char) : Option Nat :=
  cs.foldlM (fun n c => (hexDigit? c).map (16 * n + ·)) 0

private def replacement : Char :=
  Char.ofNat 0xFFFD

/--
The characters behind the opening quote of a string up to its closing quote, and the text behind it.
An escaped code unit `pending` of the first half of a surrogate pair waits for its other half; half a
pair alone reads as the replacement character.
-/
def readString (pending : Option Nat) (acc : List Char) : List Char → Option (List Char × List Char)
  | [] => none
  | c :: cs =>
    let settled := if pending.isSome then replacement :: acc else acc
    if c = '\x22' then
      some (settled.reverse, cs)
    else if c.toNat < 0x20 then
      none
    else if c = '\\' then
      match cs with
      | [] => none
      | e :: cs =>
        if e = 'u' then
          match cs with
          | h₁ :: h₂ :: h₃ :: h₄ :: cs =>
            match hexNumber? [h₁, h₂, h₃, h₄] with
            | none => none
            | some n =>
              if 0xD800 ≤ n && n < 0xDC00 then
                readString (some n) settled cs
              else if 0xDC00 ≤ n && n < 0xE000 then
                match pending with
                | some high =>
                  let code := 0x10000 + (high - 0xD800) * 0x400 + (n - 0xDC00)
                  readString none (Char.ofNat code :: acc) cs
                | none => readString none (replacement :: acc) cs
              else
                readString none (Char.ofNat n :: settled) cs
          | _ => none
        else
          match e with
          | '\x22' => readString none ('\x22' :: settled) cs
          | '\\' => readString none ('\\' :: settled) cs
          | '/' => readString none ('/' :: settled) cs
          | 'b' => readString none ('\x08' :: settled) cs
          | 'f' => readString none ('\x0c' :: settled) cs
          | 'n' => readString none ('\n' :: settled) cs
          | 'r' => readString none ('\r' :: settled) cs
          | 't' => readString none ('\t' :: settled) cs
          | _ => none
    else
      readString none (c :: settled) cs

def readNumber (cs : List Char) : Option (Number × List Char) := do
  let (negative, cs) :=
    match cs with
    | '-' :: cs => (true, cs)
    | cs => (false, cs)
  let whole := cs.takeWhile isDecimal
  let cs := cs.dropWhile isDecimal
  guard (whole ≠ [] ∧ (whole.head? ≠ some '0' ∨ whole.length = 1))
  let (fraction, cs) ←
    match cs with
    | '.' :: cs =>
      let digits := cs.takeWhile isDecimal
      if digits = [] then none else some (some digits, cs.dropWhile isDecimal)
    | cs => some (none, cs)
  let (expo, cs) ←
    match cs with
    | e :: cs =>
      if e = 'e' || e = 'E' then
        let (minus, cs) :=
          match cs with
          | '-' :: cs => (true, cs)
          | '+' :: cs => (false, cs)
          | cs => (false, cs)
        let digits := cs.takeWhile isDecimal
        let n : Nat := digits.foldl (fun n c => 10 * n + (c.toNat - 48)) 0
        if digits = [] then none
        else some (some (if minus then -(n : Int) else n), cs.dropWhile isDecimal)
      else
        some (none, e :: cs)
    | [] => some (none, [])
  return (⟨negative, whole, fraction, expo⟩, cs)

mutual

def readValue (fuel : Nat) (cs : List Char) : Option (Json × List Char) :=
  match fuel with
  | 0 => none
  | fuel + 1 =>
    match cs.dropWhile isSpace with
    | [] => none
    | c :: cs =>
      if c = '\x22' then
        (readString none [] cs).map fun (s, cs) => (.string (String.ofList s), cs)
      else if c = '[' then
        match cs.dropWhile isSpace with
        | ']' :: cs => some (.array [], cs)
        | cs => readItems fuel [] cs
      else if c = '{' then
        match cs.dropWhile isSpace with
        | '}' :: cs => some (.object [], cs)
        | cs => readMembers fuel [] cs
      else
        match c :: cs with
        | 't' :: 'r' :: 'u' :: 'e' :: cs => some (.bool true, cs)
        | 'f' :: 'a' :: 'l' :: 's' :: 'e' :: cs => some (.bool false, cs)
        | 'n' :: 'u' :: 'l' :: 'l' :: cs => some (.null, cs)
        | cs => (readNumber cs).map fun (n, cs) => (.number n, cs)

def readItems (fuel : Nat) (acc : List Json) (cs : List Char) : Option (Json × List Char) :=
  match fuel with
  | 0 => none
  | fuel + 1 =>
    match readValue fuel cs with
    | none => none
    | some (value, cs) =>
      match cs.dropWhile isSpace with
      | ',' :: cs => readItems fuel (value :: acc) cs
      | ']' :: cs => some (.array (value :: acc).reverse, cs)
      | _ => none

def readMembers (fuel : Nat) (acc : List (String × Json)) (cs : List Char) :
    Option (Json × List Char) :=
  match fuel with
  | 0 => none
  | fuel + 1 =>
    match cs.dropWhile isSpace with
    | '\x22' :: cs =>
      match readString none [] cs with
      | none => none
      | some (key, cs) =>
        match cs.dropWhile isSpace with
        | ':' :: cs =>
          match readValue fuel cs with
          | none => none
          | some (value, cs) =>
            match cs.dropWhile isSpace with
            | ',' :: cs => readMembers fuel ((String.ofList key, value) :: acc) cs
            | '}' :: cs => some (.object ((String.ofList key, value) :: acc).reverse, cs)
            | _ => none
        | _ => none
    | _ => none

end

/--
Read a text that holds one value and blanks around it. Every value takes a character, so the length
of the text bounds the nesting.
-/
def parse? (text : String) : Option Json :=
  let cs := text.toList
  match readValue (2 * cs.length + 2) cs with
  | some (value, rest) => if rest.all isSpace then some value else none
  | none => none

end IdlCompiler.Json
