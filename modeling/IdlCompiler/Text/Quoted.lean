import IdlCompiler.Text.Printable

/-!
This module contains the quoted form in which messages show a text: unprintable characters are
spelled by escapes, so that the form fits on one line and shows every character.
-/

namespace IdlCompiler.Text

def hex (width n : Nat) : List Char :=
  (Nat.toDigits 16 n).leftpad width '0'

def quotedChar (c : Char) : List Char :=
  if c = '\x22' then ['\\', '\x22']
  else if c = '\\' then ['\\', '\\']
  else if isPrintable c then [c]
  else
    match c.toNat with
    | 0x07 => ['\\', 'a']
    | 0x08 => ['\\', 'b']
    | 0x09 => ['\\', 't']
    | 0x0A => ['\\', 'n']
    | 0x0B => ['\\', 'v']
    | 0x0C => ['\\', 'f']
    | 0x0D => ['\\', 'r']
    | n =>
      if n < 0x80 then '\\' :: 'x' :: hex 2 n
      else if n < 0x10000 then '\\' :: 'u' :: hex 4 n
      else '\\' :: 'U' :: hex 8 n

def quoted (s : String) : String :=
  String.ofList ('\x22' :: s.toList.flatMap quotedChar ++ ['\x22'])

end IdlCompiler.Text
