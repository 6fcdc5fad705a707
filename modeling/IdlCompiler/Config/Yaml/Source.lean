/-!
This module contains the text of a YAML document while it is being read, with the place that the
reading has come to.
-/

namespace IdlCompiler.Yaml

def isBreak (c : Char) : Bool :=
  c = '\n' || c = '\r' || c = '\x85' || c = '\u2028' || c = '\u2029'

def isBlank (c : Char) : Bool :=
  c = ' ' || c = '\t'

def isBlankOrBreak (c : Char) : Bool :=
  isBlank c || isBreak c

def isName (c : Char) : Bool :=
  ('a' ≤ c && c ≤ 'z') || ('A' ≤ c && c ≤ 'Z') || ('0' ≤ c && c ≤ '9') || c = '_' || c = '-'

def isAllowed (c : Char) : Bool :=
  let n := c.toNat
  n = 0x09 || n = 0x0A || n = 0x0D || (0x20 ≤ n && n ≤ 0x7E) || n = 0x85 || (0xA0 ≤ n && n ≤ 0xFFFD) ||
    0x10000 ≤ n

/--
The text that is left, and the place where it starts: how many characters and lines are before it,
and how many characters of its line.
-/
structure Source where
  rest : List Char
  index : Nat := 0
  line : Nat := 0
  column : Nat := 0

namespace Source

def startsWith (s : Source) (c : Char) : Bool :=
  s.rest.head? = some c

def atGap (s : Source) : Bool :=
  s.rest.head?.all isBlankOrBreak

def atLineEnd (s : Source) : Bool :=
  s.rest.head?.all isBreak

def atMark (s : Source) (c : Char) : Bool :=
  match s.rest with
  | c₁ :: c₂ :: c₃ :: rest =>
    s.column = 0 && c₁ = c && c₂ = c && c₃ = c && rest.head?.all isBlankOrBreak
  | _ => false

def atDocumentMark (s : Source) : Bool :=
  s.atMark '-' || s.atMark '.'

def skip (s : Source) (n : Nat) : Source :=
  ⟨s.rest.drop n, s.index + n, s.line, s.column + n⟩

def skipWhile (s : Source) (p : Char → Bool) : Source :=
  let n := (s.rest.takeWhile p).length
  ⟨s.rest.dropWhile p, s.index + n, s.line, s.column + n⟩

def skipLine (s : Source) : Source :=
  s.skipWhile (!isBreak ·)

/--
Pass a line break, and give the character it counts as in a scalar. Only the line and paragraph
separators count as themselves.
-/
def takeBreak? (s : Source) : Option (Char × Source) :=
  match s.rest with
  | '\r' :: '\n' :: rest => some ('\n', ⟨rest, s.index + 2, s.line + 1, 0⟩)
  | c :: rest =>
    if isBreak c then
      some (if c = '\u2028' || c = '\u2029' then c else '\n', ⟨rest, s.index + 1, s.line + 1, 0⟩)
    else
      none
  | [] => none

def skipBreak (s : Source) : Source :=
  match s.takeBreak? with
  | some (_, s) => s
  | none => s

def commentReach : Nat :=
  512

/--
Pass comments from one on: it ends with its line, but if nothing except blanks and line breaks is
between it and another one, that one is passed too.
-/
def skipComments : Nat → Source → Source
  | 0, s => s
  | fuel + 1, s =>
    let s := s.skipLine
    let gap := s.rest.takeWhile isBlankOrBreak
    if gap.length < commentReach ∧ (s.rest.drop gap.length).head? = some '#' then
      skipComments fuel (skipGap gap.length s)
    else
      s
where
  skipGap : Nat → Source → Source
    | 0, s => s
    | fuel + 1, s =>
      match s.takeBreak? with
      | some (_, s) => skipGap fuel s
      | none => if s.rest.head?.any isBlank then skipGap fuel (s.skip 1) else s

end Source

end IdlCompiler.Yaml
