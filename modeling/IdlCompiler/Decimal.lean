/-!
This module contains the decimal forms of binary floating point numbers: the shortest digits that
read back as the same number, the notations in which they are written, and the reading of literals.
-/

namespace IdlCompiler

structure Decimal where
  coefficient : Nat
  exponent : Int
  deriving DecidableEq, Repr

namespace Decimal

def digits (d : Decimal) : List Char :=
  Nat.toDigits 10 d.coefficient

def magnitude (d : Decimal) : Int :=
  d.exponent + d.digits.length - 1

def normalize (d : Decimal) : Decimal :=
  go d.digits.length d
where
  go : Nat → Decimal → Decimal
    | 0, d => d
    | n + 1, d =>
      if d.coefficient % 10 == 0 && d.coefficient != 0 then
        go n ⟨d.coefficient / 10, d.exponent + 1⟩
      else
        d

/--
A positive binary fraction `value / scale` with the ends of the interval of numbers that round to it,
in the same scale. The ends belong to the interval if `closed`.
-/
structure Rounding where
  low : Nat
  value : Nat
  high : Nat
  scale : Nat
  closed : Bool

/--
The interval around `m * 2 ^ q`. Below a power of two the neighbours are twice as dense.
-/
def Rounding.ofBinary (m : Nat) (q : Int) (atPowerOfTwo : Bool) : Rounding :=
  let grow := Nat.pow 2 (q - 2).toNat
  { low := (if atPowerOfTwo then 4 * m - 1 else 4 * m - 2) * grow
    value := 4 * m * grow
    high := (4 * m + 2) * grow
    scale := Nat.pow 2 (2 - q).toNat
    closed := m % 2 == 0 }

def Rounding.intDigits (r : Rounding) : Int :=
  if r.scale ≤ r.value then
    (Nat.toDigits 10 (r.value / r.scale)).length
  else
    let n := (Nat.toDigits 10 (r.scale / r.value)).length
    if r.scale ≤ r.value * Nat.pow 10 (n - 1) then 2 - n else 1 - n

def Rounding.nearest? (r : Rounding) (n : Nat) : Option Decimal :=
  let exponent := r.intDigits - n
  let up := Nat.pow 10 exponent.toNat * r.scale
  let down := Nat.pow 10 (-exponent).toNat
  let below := r.value * down / up
  let inside (c : Nat) : Bool :=
    let p := c * up
    if r.closed then r.low * down ≤ p && p ≤ r.high * down
    else r.low * down < p && p < r.high * down
  let left := r.value * down - below * up
  let right := (below + 1) * up - r.value * down
  let belowFirst := left < right || (left == right && below % 2 == 0)
  if inside below && (belowFirst || !inside (below + 1)) then some ⟨below, exponent⟩
  else if inside (below + 1) then some ⟨below + 1, exponent⟩
  else none

def Rounding.shortest (r : Rounding) : Decimal :=
  match (List.range 17).findSome? fun n => r.nearest? (n + 1) with
  | some d => d.normalize
  | none => ⟨0, 0⟩

def ofFloat (x : Float) : Decimal :=
  let bits := x.toBits.toNat
  let fraction := bits % Nat.pow 2 52
  let expo : Nat := bits / Nat.pow 2 52 % Nat.pow 2 11
  if expo == 0 then
    (Rounding.ofBinary fraction (-1074) false).shortest
  else
    let atPowerOfTwo := fraction == 0 && 1 < expo
    (Rounding.ofBinary (fraction + Nat.pow 2 52) ((expo : Int) - 1075) atPowerOfTwo).shortest

/--
How a number is written: positionally if the exponent of its first digit is at least `least` and
below `below`, otherwise with an exponent of at least `exponentDigits` digits. An exponent below zero
needs no leading zero if `bareNegative`.
-/
structure Style where
  least : Int
  below : Option Int
  exponentDigits : Nat
  bareNegative : Bool

def positional (d : Decimal) : List Char :=
  if 0 ≤ d.exponent then
    d.digits ++ List.replicate d.exponent.toNat '0'
  else
    let places := (-d.exponent).toNat
    let padded := d.digits.leftpad (places + 1) '0'
    padded.take (padded.length - places) ++ '.' :: padded.drop (padded.length - places)

def scientific (style : Style) (d : Decimal) : List Char :=
  let mantissa :=
    match d.digits with
    | c :: c' :: cs => c :: '.' :: c' :: cs
    | cs => cs
  let expo := d.magnitude
  let sign := if expo < 0 then '-' else '+'
  let width := if style.bareNegative && expo < 0 then 1 else style.exponentDigits
  mantissa ++ 'e' :: sign :: (Nat.toDigits 10 expo.natAbs).leftpad width '0'

def write (style : Style) (x : Float) : String :=
  let negative := x.toBits.toNat / Nat.pow 2 63 == 1
  let sign := if negative then "-" else ""
  if x.isNaN then
    "NaN"
  else if x.isInf then
    if negative then "-Inf" else "+Inf"
  else if x == 0 then
    sign ++ "0"
  else
    let d := ofFloat x
    let plain := style.least ≤ d.magnitude && style.below.all (d.magnitude < ·)
    sign ++ String.ofList (if plain then d.positional else d.scientific style)

/--
The decimal literal `sign digits . fraction e exponent` as a floating point number, or nothing if it
is too large for one. A literal far below the smallest number is zero.
-/
def readFloat? (negative : Bool) (whole fraction : List Char) (exponent : Int) : Option Float :=
  let m := (whole ++ fraction).foldl (fun n c => 10 * n + (c.toNat - 48)) 0
  let expo := exponent - fraction.length
  let size := expo + (Nat.toDigits 10 m).length
  let magnitude : Option Float :=
    if m == 0 || size < -400 then some 0
    else if 400 < size then none
    else some (Float.ofScientific m (expo < 0) expo.natAbs)
  match magnitude with
  | some x => if x.isInf then none else some (if negative then -x else x)
  | none => none

def natOfDigits (cs : List Char) : Nat :=
  cs.foldl (fun n c => 10 * n + (c.toNat - 48)) 0

private def isDigit (c : Char) : Bool :=
  '0' ≤ c && c ≤ '9'

def cutSign : List Char → Bool × List Char
  | '-' :: cs => (true, cs)
  | '+' :: cs => (false, cs)
  | cs => (false, cs)

def parse? (cs : List Char) : Option Float :=
  let (negative, cs) := cutSign cs
  let whole := cs.takeWhile isDigit
  let rest := cs.dropWhile isDigit
  let (fraction, rest) :=
    match rest with
    | '.' :: rest => (rest.takeWhile isDigit, rest.dropWhile isDigit)
    | rest => ([], rest)
  if whole = [] ∧ fraction = [] then none
  else
    match rest with
    | [] => readFloat? negative whole fraction 0
    | e :: rest =>
      let (minus, digits) := cutSign rest
      if (e = 'e' ∨ e = 'E') ∧ digits ≠ [] ∧ digits.all isDigit then
        let n := natOfDigits digits
        readFloat? negative whole fraction (if minus then -(n : Int) else n)
      else
        none

end Decimal

end IdlCompiler
