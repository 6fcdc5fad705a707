import IdlCompiler.Config.Yaml.Source
import IdlCompiler.Json.Reader

/-!
This module contains the ways in which scalars are written in YAML: plainly, between quotes, or as a
block of lines. Where a scalar goes on in another line, the line break is folded into a space.
-/

namespace IdlCompiler.Yaml

structure Gap where
  blanks : List Char := []
  breaks : List Char := []

namespace Gap

/--
What a gap counts as inside a scalar: without line breaks it is kept. A single line break is a space,
and of several the first one is dropped; separators are never dropped.
-/
def text (g : Gap) : List Char :=
  match g.breaks with
  | [] => g.blanks
  | '\n' :: [] => [' ']
  | '\n' :: more => more
  | breaks => breaks

def read? (indent : Nat) (g : Gap) : Nat → Source → Option (Gap × Source)
  | 0, s => some (⟨g.blanks.reverse, g.breaks.reverse⟩, s)
  | fuel + 1, s =>
    match s.takeBreak? with
    | some (c, s) => read? indent { g with breaks := c :: g.breaks } fuel s
    | none =>
      match s.rest with
      | c :: _ =>
        if !isBlank c then some (⟨g.blanks.reverse, g.breaks.reverse⟩, s)
        else if g.breaks = [] then read? indent { g with blanks := c :: g.blanks } fuel (s.skip 1)
        else if c = '\t' && s.column < indent then none
        else read? indent g fuel (s.skip 1)
      | [] => some (⟨g.blanks.reverse, g.breaks.reverse⟩, s)

end Gap

def escape? : Char → Option Char
  | '0' => some '\x00'
  | 'a' => some '\x07'
  | 'b' => some '\x08'
  | 't' => some '\t'
  | '\t' => some '\t'
  | 'n' => some '\n'
  | 'v' => some '\x0b'
  | 'f' => some '\x0c'
  | 'r' => some '\r'
  | 'e' => some '\x1b'
  | ' ' => some ' '
  | '\x22' => some '\x22'
  | '\x27' => some '\x27'
  | '\\' => some '\\'
  | 'N' => some '\x85'
  | '_' => some '\xa0'
  | 'L' => some '\u2028'
  | 'P' => some '\u2029'
  | _ => none

def escapeDigits? : Char → Option Nat
  | 'x' => some 2
  | 'u' => some 4
  | 'U' => some 8
  | _ => none

def readEscape? : List Char → Option (Char × Nat)
  | [] => none
  | e :: cs =>
    match escapeDigits? e with
    | some width =>
      match Json.hexNumber? (cs.take width) with
      | some n => if width ≤ cs.length ∧ n.isValidChar then some (Char.ofNat n, width + 1) else none
      | none => none
    | none => (escape? e).map (·, 1)

/--
A quoted scalar behind its opening quote: what was read of it is `acc`, the last character first.
Between single quotes a quote is written twice; between double quotes there are escapes, and an
escaped line break counts for nothing.
-/
def readQuoted? (quote : Char) (acc : List Char) : Nat → Source → Option (String × Source)
  | 0, _ => none
  | fuel + 1, s =>
    if s.atDocumentMark then none
    else
      match s.rest with
      | [] => none
      | c :: rest =>
        if isBlankOrBreak c then
          match Gap.read? 0 {} (fuel + 1) s with
          | some (g, s) => readQuoted? quote (g.text.reverse ++ acc) fuel s
          | none => none
        else if c = quote then
          if quote = '\x27' ∧ rest.head? = some quote then
            readQuoted? quote (quote :: acc) fuel (s.skip 2)
          else
            some (String.ofList acc.reverse, s.skip 1)
        else if c = '\\' ∧ quote = '\x22' then
          match (s.skip 1).takeBreak? with
          | some (_, s) =>
            match Gap.read? 0 {} (fuel + 1) s with
            | some (g, s) => readQuoted? quote (g.breaks.reverse ++ acc) fuel s
            | none => none
          | none =>
            match readEscape? rest with
            | some (c, n) => readQuoted? quote (c :: acc) fuel (s.skip (n + 1))
            | none => none
        else
          readQuoted? quote (c :: acc) fuel (s.skip 1)

def isFlowMark (c : Char) : Bool :=
  c = ',' || c = '?' || c = '[' || c = ']' || c = '{' || c = '}'

/--
The characters of a plain scalar up to a gap, a colon with a gap behind it, or, inside of brackets, a
character that divides or ends what is in them.
-/
def plainWord (flow : Bool) : List Char → List Char
  | [] => []
  | c :: cs =>
    if isBlankOrBreak c || (c = ':' && cs.head?.all isBlankOrBreak) || (flow && isFlowMark c) then []
    else c :: plainWord flow cs

/--
A plain scalar from one of its words on, in front of which `acc` was read, the last character first,
and then `gap`. Outside of brackets its lines have to be indented by `indent`. With it is told whether
a line break follows.
-/
def readPlain? (flow : Bool) (indent : Nat) (acc : List Char) (gap : Gap) :
    Nat → Source → Option (String × Bool × Source)
  | 0, _ => none
  | fuel + 1, s =>
    let word := if s.atDocumentMark || s.startsWith '#' then [] else plainWord flow s.rest
    if word = [] then
      some (String.ofList acc.reverse, !gap.breaks.isEmpty, s)
    else
      let acc := word.reverse ++ gap.text.reverse ++ acc
      let s := s.skip word.length
      if !s.rest.head?.any isBlankOrBreak then
        some (String.ofList acc.reverse, false, s)
      else
        match Gap.read? indent {} (fuel + 1) s with
        | none => none
        | some (gap, s) =>
          if !flow && s.column < indent then some (String.ofList acc.reverse, !gap.breaks.isEmpty, s)
          else readPlain? flow indent acc gap fuel s

inductive Chomping where
  | strip
  | clip
  | keep
  deriving DecidableEq, Repr

def chomping? : Char → Option Chomping
  | '+' => some .keep
  | '-' => some .strip
  | _ => none

def indentation? (c : Char) : Option Nat :=
  if '1' ≤ c && c ≤ '9' then some (c.toNat - 48) else none

def blockSigns (cs : List Char) : Chomping × Option Nat × Nat :=
  match cs with
  | [] => (.clip, none, 0)
  | c :: rest =>
    match chomping? c, indentation? c with
    | some chomping, _ =>
      match rest.head?.bind indentation? with
      | some n => (chomping, some n, 2)
      | none => (chomping, none, 1)
    | none, some n =>
      match rest.head?.bind chomping? with
      | some chomping => (chomping, some n, 2)
      | none => (.clip, some n, 1)
    | none, none => (.clip, none, 0)

/--
Pass the indentation of lines, and lines that have nothing else. The indentation is known, or found
as the deepest of them. The line breaks in `acc` were read before, the last one first.
-/
def readBlockBreaks? (indent : Option Nat) (deepest : Nat) (acc : List Char) :
    Nat → Source → Option (Nat × List Char × Source)
  | 0, _ => none
  | fuel + 1, s =>
    let spaces :=
      match indent with
      | some n => (s.rest.take (n - s.column)).takeWhile (· = ' ')
      | none => s.rest.takeWhile (· = ' ')
    let s := s.skip spaces.length
    let deepest := max deepest s.column
    if s.startsWith '\t' ∧ indent.all (s.column < ·) then
      none
    else
      match s.takeBreak? with
      | some (c, s) => readBlockBreaks? indent deepest (c :: acc) fuel s
      | none => some (deepest, acc.reverse, s)

/--
The lines of a block from one of them on. In front of it `acc` was read, the last character first,
then the line break `leading` of the line before, which had a blank at its start if `blankBefore`,
and then the breaks of empty lines. In a folded block the break between two lines is a space, unless
one of them starts with a blank.
-/
def readBlockLines? (literal : Bool) (chomping : Chomping) (indent : Nat) (blankBefore : Bool)
    (acc : List Char) (leading breaks : List Char) : Nat → Source → Option (String × Source)
  | 0, _ => none
  | fuel + 1, s =>
    if s.column = indent ∧ s.rest ≠ [] then
      let blank := s.rest.head?.any isBlank
      let joint :=
        if !literal && leading = ['\n'] && !blankBefore && !blank then
          if breaks = [] then [' '] else breaks
        else
          leading ++ breaks
      let line := s.rest.takeWhile (!isBreak ·)
      let acc := line.reverse ++ joint.reverse ++ acc
      let s := s.skip line.length
      let (leading, s) :=
        match s.takeBreak? with
        | some (c, s) => ([c], s)
        | none => ([], s)
      match readBlockBreaks? (some indent) 0 [] (fuel + 1) s with
      | some (_, breaks, s) =>
        readBlockLines? literal chomping indent blank acc leading breaks fuel s
      | none => none
    else
      let tail :=
        match chomping with
        | .strip => []
        | .clip => leading
        | .keep => leading ++ breaks
      some (String.ofList (acc.reverse ++ tail), s)

def readBlock? (literal : Bool) (level : Option Nat) (fuel : Nat) (s : Source) :
    Option (String × Source) :=
  let (chomping, extra, n) := blockSigns s.rest
  let s := (s.skip n).skipWhile isBlank
  let s := if s.startsWith '#' then s.skipLine else s
  if !s.atLineEnd then none
  else
    let s := s.skipBreak
    let indent := extra.map (level.getD 0 + ·)
    match readBlockBreaks? indent 0 [] fuel s with
    | none => none
    | some (deepest, breaks, s) =>
      let least := max 1 ((level.map (· + 1)).getD 0)
      readBlockLines? literal chomping (indent.getD (max deepest least)) false [] [] breaks fuel s

end IdlCompiler.Yaml
