import IdlCompiler.Decimal
import IdlCompiler.Moment

/-!
This module contains the scalars of documents.
-/

namespace IdlCompiler

inductive Scalar where
  | null
  | bool (value : Bool)
  | integer (value : Int)
  /-- An integer that needs all 64 bits, so that no sign has place. -/
  | unsigned (value : Nat)
  | float (value : Float)
  | text (value : String)
  | moment (value : Moment)
  deriving Inhabited

namespace Scalar

def rank : Scalar → Nat
  | .null => 0
  | .bool _ => 1
  | .float _ => 2
  | .integer _ => 3
  | .text _ => 4
  | .moment _ => 5
  | .unsigned _ => 6

def le (a b : Scalar) : Bool :=
  match a, b with
  | .bool a, .bool b => !a || b
  | .integer a, .integer b => a ≤ b
  | .unsigned a, .unsigned b => a ≤ b
  | .float a, .float b => a.isNaN || a <= b
  | .text a, .text b => a ≤ b
  | .moment a, .moment b => a.exchangeText ≤ b.exchangeText
  | a, b => a.rank ≤ b.rank

/--
Whether two scalars are one key. A number that is none is not the same as any.
-/
def isSame (a b : Scalar) : Bool :=
  match a, b with
  | .null, .null => true
  | .bool a, .bool b => a == b
  | .integer a, .integer b => a == b
  | .unsigned a, .unsigned b => a == b
  | .float a, .float b => a == b
  | .text a, .text b => a == b
  | .moment a, .moment b => a == b
  | _, _ => false

end Scalar

end IdlCompiler
