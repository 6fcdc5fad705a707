import IdlCompiler.Text.Blank
import IdlCompiler.Text.Glyph
import IdlCompiler.Token.Basic

/-!
This module contains the lexer of interface definitions. A source is read line by line: the end of a
line ends every token, and blanks at the end of a line do not belong to it.
-/

namespace IdlCompiler

inductive LexError where
  | diagnostic (d : Diagnostic)
  | lineTooLong
  deriving DecidableEq, Repr

namespace Lexer

def isLetter (c : Char) : Bool :=
  ('a' ≤ c && c ≤ 'z') || ('A' ≤ c && c ≤ 'Z') || c = '_'

def isDigit (c : Char) : Bool :=
  '0' ≤ c && c ≤ '9'

def isIdentChar (c : Char) : Bool :=
  isLetter c || isDigit c

def unescape : Char → Char
  | 'a' => '\x07'
  | 'b' => '\x08'
  | 'f' => '\x0c'
  | 'n' => '\n'
  | 'r' => '\r'
  | 't' => '\t'
  | 'v' => '\x0b'
  | c => c

/--
The decoded characters of a string literal behind its opening quote, the number of characters it
takes including its closing quote, and the rest of the line. There is none if the line ends before
the literal does.
-/
def scanString (cs : List Char) :
    Option (List Char × Nat × { rest : List Char // rest.length ≤ cs.length }) :=
  go [] 0 cs (Nat.le_refl _)
where
  go (acc : List Char) (width : Nat) (cs' : List Char) (h : cs'.length ≤ cs.length) :
      Option (List Char × Nat × { rest : List Char // rest.length ≤ cs.length }) :=
    match cs' with
    | [] => none
    | '\\' :: c :: rest => go (unescape c :: acc) (width + 2) rest (by simp at h; omega)
    | c :: rest =>
      if c = '\x22' then
        some (acc.reverse, width + 1, ⟨rest, by simp at h; omega⟩)
      else if c = '\\' then
        none
      else
        go (c :: acc) (width + 1) rest (by simp at h; omega)
  termination_by structural cs'

/--
The longest lexeme that starts with the character `c`, which is not blank, the number of characters
it takes, and the rest of the line. There is none if it is a string literal without end.
-/
def scanLexeme (c : Char) (cs : List Char) :
    Option (Lexeme × Nat × { rest : List Char // rest.length ≤ cs.length }) :=
  if c = '\x22' then
    match scanString cs with
    | some (value, width, rest) => some (.string (String.ofList value), width + 1, rest)
    | none => none
  else if isLetter c then
    let word := cs.takeWhile isIdentChar
    some (.ident (String.ofList (c :: word)), word.length + 1,
      ⟨cs.dropWhile isIdentChar, (List.dropWhile_sublist _).length_le⟩)
  else if isDigit c then
    let digits := cs.takeWhile isDigit
    some (.number (String.ofList (c :: digits)), digits.length + 1,
      ⟨cs.dropWhile isDigit, (List.dropWhile_sublist _).length_le⟩)
  else
    some (.op c, 1, ⟨cs, Nat.le_refl _⟩)

def scanLine (file : String) (line col : Nat) (cs : List Char) (acc : List Token) :
    Except Diagnostic (List Token) :=
  match cs with
  | [] => .ok acc
  | c :: cs =>
    if Text.isBlank c then
      scanLine file line (col + 1) cs acc
    else
      match scanLexeme c cs with
      | none => .error { pos := ⟨file, line, col⟩, cause := .unterminatedString }
      | some (lexeme, width, ⟨rest, _⟩) =>
        scanLine file line (col + width) rest (⟨lexeme, ⟨file, line, col⟩⟩ :: acc)
termination_by cs.length

def lineLimit : Nat :=
  1048576

/--
The lines of a source, each without its line break. What follows the last line break is a line only
if it is not empty.
-/
def splitLines (src : List Text.Glyph) : List (List Text.Glyph) :=
  go [] [] src
where
  go (line : List Text.Glyph) (lines : List (List Text.Glyph)) :
      List Text.Glyph → List (List Text.Glyph)
    | [] => (if line.isEmpty then lines else line.reverse :: lines).reverse
    | g :: rest =>
      if g.char = '\n' then go [] (line.reverse :: lines) rest else go (g :: line) lines rest

def lineText (line : List Text.Glyph) : List Char :=
  Text.trimRight (line.map (·.char))

def lineSize (line : List Text.Glyph) : Nat :=
  line.foldl (fun n g => n + g.size) 0

/--
The tokens of lines, after `line` lines before them of which the last had `width` characters and
whose tokens are in `acc`, the last one first.
-/
def scanLines (file : String) (line width : Nat) (acc : List Token) :
    List (List Text.Glyph) → Except LexError TokenStream
  | [] => .ok ⟨acc.reverse, ⟨file, line, width⟩⟩
  | glyphs :: rest =>
    if lineLimit ≤ lineSize glyphs then
      .error .lineTooLong
    else
      let text := lineText glyphs
      match scanLine file (line + 1) 1 text acc with
      | .error d => .error (.diagnostic d)
      | .ok acc => scanLines file (line + 1) text.length acc rest

end Lexer

def TokenStream.ofSource (file : String) (src : List Text.Glyph) : Except LexError TokenStream :=
  Lexer.scanLines file 0 0 [] (Lexer.splitLines src)

end IdlCompiler
