/-!
This module contains the reading of integer literals. The base is told by what the digits start with,
and underscores may divide the digits.
-/

namespace IdlCompiler.Text

inductive IntegerError where
  | malformed
  | outOfRange
  deriving DecidableEq, Repr

namespace Integer

def digit? (c : Char) : Option Nat :=
  if '0' ≤ c && c ≤ '9' then some (c.toNat - 48)
  else if 'a' ≤ c && c ≤ 'z' then some (c.toNat - 87)
  else if 'A' ≤ c && c ≤ 'Z' then some (c.toNat - 55)
  else none

/--
The base of digits, the digits behind the mark of the base, and whether there is a mark with a letter.
A zero in front of other digits marks the base eight.
-/
def base : List Char → Nat × List Char × Bool
  | '0' :: m :: d :: ds =>
    if m = 'b' ∨ m = 'B' then (2, d :: ds, true)
    else if m = 'o' ∨ m = 'O' then (8, d :: ds, true)
    else if m = 'x' ∨ m = 'X' then (16, d :: ds, true)
    else (8, m :: d :: ds, false)
  | '0' :: ds => (8, ds, false)
  | ds => (10, ds, false)

def readDigits (base n : Nat) : List Char → Except IntegerError Nat
  | [] => .ok n
  | c :: cs =>
    if c = '_' then
      readDigits base n cs
    else
      match digit? c with
      | none => .error .malformed
      | some d =>
        if base ≤ d then .error .malformed
        else if Nat.pow 2 64 ≤ base * n + d then .error .outOfRange
        else readDigits base (base * n + d) cs

/--
Whether every underscore stands between digits. The mark of a base counts as a digit, so `afterDigit`
is true in front of digits with such a mark.
-/
def underscoresDivide (afterDigit : Bool) : List Char → Bool
  | [] => true
  | ['_'] => false
  | '_' :: c :: cs => afterDigit && c ≠ '_' && underscoresDivide true (c :: cs)
  | _ :: cs => underscoresDivide true cs

def readUnsigned (cs : List Char) : Except IntegerError Nat := do
  if cs = [] then
    throw .malformed
  let (base, digits, marked) := base cs
  let n ← readDigits base 0 digits
  if underscoresDivide marked (if marked then digits else cs) then
    return n
  else
    throw .malformed

def read (cs : List Char) : Except IntegerError Int := do
  let (negative, digits) :=
    match cs with
    | '-' :: cs => (true, cs)
    | '+' :: cs => (false, cs)
    | cs => (false, cs)
  let n ← readUnsigned digits
  if negative then
    if n ≤ Nat.pow 2 63 then return -(n : Int) else throw .outOfRange
  else
    if n < Nat.pow 2 63 then return n else throw .outOfRange

end Integer

end IdlCompiler.Text
