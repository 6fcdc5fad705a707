/-!
This module contains the writing of string literals. The two writers escape different characters, and
what either writes is read back as the same string.
-/

namespace IdlCompiler.Literal

def sourceLetter? : Char → Option Char
  | '\\' => some '\\'
  | '\x22' => some '\x22'
  | '\x07' => some 'a'
  | '\x08' => some 'b'
  | '\x0c' => some 'f'
  | '\n' => some 'n'
  | '\r' => some 'r'
  | '\t' => some 't'
  | '\x0b' => some 'v'
  | _ => none

def listingLetter? : Char → Option Char
  | '\\' => some '\\'
  | '\x22' => some '\x22'
  | '\n' => some 'n'
  | '\r' => some 'r'
  | '\t' => some 't'
  | _ => none

def escapedBy (letter? : Char → Option Char) (c : Char) : List Char :=
  match letter? c with
  | some letter => ['\\', letter]
  | none => [c]

def charsBy (letter? : Char → Option Char) (value : List Char) : List Char :=
  '\x22' :: value.flatMap (escapedBy letter?) ++ ['\x22']

def source (value : String) : String :=
  String.ofList (charsBy sourceLetter? value.toList)

def listing (value : String) : String :=
  String.ofList (charsBy listingLetter? value.toList)

end IdlCompiler.Literal
