import IdlCompiler.Decimal

/-!
This module contains JSON values. Numbers keep the literal they are written with, because whether a
number is an integer is decided by its literal and not by its value.
-/

namespace IdlCompiler

structure Json.Number where
  negative : Bool
  whole : List Char
  fraction : Option (List Char)
  exponent : Option Int

inductive Json where
  | null
  | bool (value : Bool)
  | number (value : Json.Number)
  | string (value : String)
  | array (items : List Json)
  | object (members : List (String × Json))
  deriving Inhabited

namespace Json

namespace Number

def ofInt (n : Int) : Number :=
  ⟨n < 0, Nat.toDigits 10 n.natAbs, none, none⟩

def toInt? (n : Number) : Option Int :=
  match n.fraction, n.exponent with
  | none, none =>
    let m : Nat := n.whole.foldl (fun m c => 10 * m + (c.toNat - 48)) 0
    some (if n.negative then -(m : Int) else m)
  | _, _ => none

def toFloat? (n : Number) : Option Float :=
  Decimal.readFloat? n.negative n.whole (n.fraction.getD []) (n.exponent.getD 0)

def text (n : Number) : String :=
  let sign := if n.negative then "-" else ""
  let fraction :=
    match n.fraction with
    | some digits => "." ++ String.ofList digits
    | none => ""
  let expo :=
    match n.exponent with
    | some e => (if e < 0 then "e-" else "e+") ++ String.ofList (Nat.toDigits 10 e.natAbs)
    | none => ""
  sign ++ String.ofList n.whole ++ fraction ++ expo

def style : Decimal.Style :=
  ⟨-6, some 21, 1, true⟩

def ofFloat (x : Float) : Number :=
  let (negative, digits) := Decimal.cutSign (Decimal.write style x).toList
  let mantissa := digits.takeWhile (· ≠ 'e')
  { negative
    whole := mantissa.takeWhile (· ≠ '.')
    fraction := if '.' ∈ mantissa then some ((mantissa.dropWhile (· ≠ '.')).drop 1) else none
    exponent :=
      match (digits.dropWhile (· ≠ 'e')).drop 1 with
      | [] => none
      | '-' :: expo => some (-(Decimal.natOfDigits expo : Int))
      | expo => some (Decimal.natOfDigits (Decimal.cutSign expo).2) }

end Number

def ofInt (n : Int) : Json :=
  .number (Number.ofInt n)

mutual

def nesting : Json → Nat
  | .array items => itemsNesting items + 1
  | .object members => membersNesting members + 1
  | _ => 0

def itemsNesting : List Json → Nat
  | [] => 0
  | v :: vs => max v.nesting (itemsNesting vs)

def membersNesting : List (String × Json) → Nat
  | [] => 0
  | (_, v) :: ms => max v.nesting (membersNesting ms)

end

mutual

/--
A value as it is once its numbers are floating point numbers and its objects have their members in
the order of their keys. Of equal keys the last one counts.
-/
def canonical : Json → Json
  | .number n =>
    match n.toFloat? with
    | some x => .number (.ofFloat x)
    | none => .number n
  | .array items => .array (canonicalItems items)
  | .object members =>
    let last := (canonicalMembers members).foldl (fun acc m => acc.filter (·.1 ≠ m.1) ++ [m]) []
    .object (last.mergeSort fun a b => a.1 ≤ b.1)
  | v => v

def canonicalItems : List Json → List Json
  | [] => []
  | v :: vs => v.canonical :: canonicalItems vs

def canonicalMembers : List (String × Json) → List (String × Json)
  | [] => []
  | (k, v) :: ms => (k, v.canonical) :: canonicalMembers ms

end

def member? (key : String) : Json → Option Json
  | .object members => (members.reverse.find? (·.1 == key)).map (·.2)
  | _ => none

end Json

end IdlCompiler
