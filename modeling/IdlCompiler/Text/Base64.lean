/-!
This module contains the reading of bytes that are written with sixty-four characters, four of them
for three bytes.
-/

namespace IdlCompiler.Text.Base64

def digit? (c : Char) : Option Nat :=
  if 'A' ≤ c && c ≤ 'Z' then some (c.toNat - 65)
  else if 'a' ≤ c && c ≤ 'z' then some (c.toNat - 71)
  else if '0' ≤ c && c ≤ '9' then some (c.toNat + 4)
  else if c = '+' then some 62
  else if c = '/' then some 63
  else none

def quantum? (n : Nat) (a b c d : Char) : Option (List UInt8) := do
  let bits := (((← digit? a) * 64 + (← digit? b)) * 64 + (← digit? c)) * 64 + (← digit? d)
  return [UInt8.ofNat (bits / 65536), UInt8.ofNat (bits / 256), UInt8.ofNat bits].take n

def decodeLine? : List Char → Option (List UInt8)
  | [] => some []
  | [a, b, '=', '='] => quantum? 1 a b 'A' 'A'
  | [a, b, c, '='] => quantum? 2 a b c 'A'
  | a :: b :: c :: d :: cs =>
    match quantum? 3 a b c d, decodeLine? cs with
    | some bytes, some more => some (bytes ++ more)
    | _, _ => none
  | _ => none

def decode? (cs : List Char) : Option (List UInt8) :=
  decodeLine? (cs.filter fun c => c ≠ '\n' ∧ c ≠ '\r')

end IdlCompiler.Text.Base64
