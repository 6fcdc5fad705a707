/-!
This module contains texts as they are read from files: characters together with the number of bytes
that spell them. A byte that belongs to no character reads as the replacement character.
-/

namespace IdlCompiler.Text

structure Glyph where
  char : Char
  size : Nat
  deriving DecidableEq, Repr

def Glyph.replacement : Glyph :=
  ⟨Char.ofNat 0xFFFD, 1⟩

def Glyph.first? : List UInt8 → Option Glyph
  | [] => none
  | a :: rest =>
    let tail (b : UInt8) : Bool := 0x80 ≤ b && b ≤ 0xBF
    let low (b : UInt8) : Nat := b.toNat % 0x40
    if a ≤ 0x7F then
      some ⟨Char.ofNat a.toNat, 1⟩
    else if 0xC2 ≤ a && a ≤ 0xDF then
      match rest with
      | b :: _ => if tail b then some ⟨Char.ofNat (a.toNat % 0x20 * 0x40 + low b), 2⟩ else none
      | _ => none
    else if 0xE0 ≤ a && a ≤ 0xEF then
      match rest with
      | b :: c :: _ =>
        if tail b && tail c && (a != 0xE0 || 0xA0 ≤ b) && (a != 0xED || b ≤ 0x9F) then
          some ⟨Char.ofNat (a.toNat % 0x10 * 0x1000 + low b * 0x40 + low c), 3⟩
        else none
      | _ => none
    else if 0xF0 ≤ a && a ≤ 0xF4 then
      match rest with
      | b :: c :: d :: _ =>
        if tail b && tail c && tail d && (a != 0xF0 || 0x90 ≤ b) && (a != 0xF4 || b ≤ 0x8F) then
          some ⟨Char.ofNat (a.toNat % 0x08 * 0x40000 + low b * 0x1000 + low c * 0x40 + low d), 4⟩
        else none
      | _ => none
    else none

/--
Read a byte sequence as UTF-8; every byte that belongs to no character stands for itself alone.
-/
def Glyph.ofBytes (bytes : List UInt8) : List Glyph :=
  go [] bytes
where
  go (acc : List Glyph) : List UInt8 → List Glyph
    | [] => acc.reverse
    | b :: rest =>
      match Glyph.first? (b :: rest) with
      | some g => go (g :: acc) (rest.drop (g.size - 1))
      | none => go (Glyph.replacement :: acc) rest
  termination_by bytes => bytes.length
  decreasing_by
    · simp only [List.length_drop, List.length_cons]
      omega
    · exact Nat.lt_succ_self _

def Glyph.ofString (s : String) : List Glyph :=
  s.toList.map fun c => ⟨c, c.utf8Size⟩

end IdlCompiler.Text
