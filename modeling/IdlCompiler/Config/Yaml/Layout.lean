import IdlCompiler.Config.Yaml.Spelling
import IdlCompiler.Config.Yaml.Token

/-!
This module contains the tokens of a YAML text as its layout tells them. Indentation opens and closes
blocks, and whether a scalar is a key is only known when the colon behind it is read.
-/

namespace IdlCompiler.Yaml

/--
A token that is a key if a colon follows on its line: the number of the token and its place. It is
`required` to be one if it stands where the keys of a block start.
-/
structure PendingKey where
  token : Nat
  index : Nat
  line : Nat
  column : Nat
  required : Bool

namespace PendingKey

def greatestLength : Nat :=
  1024

def isStale (k : PendingKey) (s : Source) : Bool :=
  k.line < s.line || k.index + greatestLength < s.index

end PendingKey

/--
The tokens read so far and what decides about those to come: the indentations of the open blocks,
from the innermost on, whether a key may start here, and the pending keys, of which there is one
inside of each pair of open brackets and one outside of all.
-/
structure Layout where
  source : Source
  tokens : Array Token := #[]
  levels : List Nat := []
  keyAllowed : Bool := true
  pending : Option PendingKey := none
  outer : List (Option PendingKey) := []
  ended : Bool := false

namespace Layout

def greatestDepth : Nat :=
  10000

def inFlow (l : Layout) : Bool :=
  !l.outer.isEmpty

def push (l : Layout) (t : Token) : Layout :=
  { l with tokens := l.tokens.push t }

def insert (l : Layout) (n : Nat) (t : Token) : Layout :=
  { l with tokens := l.tokens.insertIdxIfInBounds n t }

def skip (l : Layout) (n : Nat) : Layout :=
  { l with source := l.source.skip n }

def closeLevels (l : Layout) (column : Option Nat) : Layout :=
  if l.inFlow then l else go l.levels l
where
  go : List Nat → Layout → Layout
    | [], l => { l with levels := [] }
    | level :: levels, l =>
      if column.all (· < level) then go levels (l.push .blockEnd)
      else { l with levels := level :: levels }

def openLevel? (l : Layout) (column : Nat) (number : Option Nat) (t : Token) : Option Layout :=
  if l.inFlow || l.levels.head?.any (column ≤ ·) then
    some l
  else
    let l := { l with levels := column :: l.levels }
    if greatestDepth < l.levels.length then none
    else
      match number with
      | some n => some (l.insert n t)
      | none => some (l.push t)

def dropKey? (l : Layout) : Option Layout :=
  match l.pending with
  | some k => if k.required then none else some { l with pending := none }
  | none => some l

def saveKey? (l : Layout) : Option Layout :=
  if l.keyAllowed then
    l.dropKey?.map fun l =>
      let s := l.source
      let required := !l.inFlow && l.levels.head? = some s.column
      { l with pending := some ⟨l.tokens.size, s.index, s.line, s.column, required⟩ }
  else
    some l

def skipComment (l : Layout) : Layout :=
  let s := l.source.skipWhile isBlank
  if s.startsWith '#' then { l with source := s.skipLine } else l

def skipGaps : Nat → Layout → Layout
  | 0, l => l
  | fuel + 1, l =>
    let tabs := l.inFlow || !l.keyAllowed
    let s := l.source.skipWhile fun c => c = ' ' || (tabs && c = '\t')
    let s := if s.startsWith '#' then s.skipComments fuel else s
    match s.takeBreak? with
    | some (_, s) => skipGaps fuel { l with source := s, keyAllowed := l.keyAllowed || !l.inFlow }
    | none => { l with source := s }

def closeAll? (l : Layout) : Option Layout :=
  (l.closeLevels none).dropKey?.map fun l => { l with keyAllowed := false }

def readEnd? (l : Layout) : Option Layout :=
  let s := l.source
  let s := if s.column = 0 then s else ⟨s.rest, s.index, s.line + 1, 0⟩
  { l with source := s }.closeAll?.map fun (l : Layout) => { l.push .streamEnd with ended := true }

def readOpen? (l : Layout) (t : Token) : Option Layout :=
  match l.saveKey? with
  | none => none
  | some l =>
    let outer := l.pending :: l.outer
    if greatestDepth < outer.length then none
    else some ({ l with outer, pending := none, keyAllowed := true }.skip 1 |>.push t |>.skipComment)

def readClose? (l : Layout) (t : Token) : Option Layout :=
  l.dropKey?.map fun l =>
    let l :=
      match l.outer with
      | pending :: outer => { l with pending, outer }
      | [] => l
    { l with keyAllowed := false }.skip 1 |>.push t |>.skipComment

def readComma? (l : Layout) : Option Layout :=
  l.dropKey?.map fun l => { l with keyAllowed := true }.skip 1 |>.push .comma |>.skipComment

def readItem? (l : Layout) : Option Layout := do
  if !l.inFlow && !l.keyAllowed then
    none
  let l ← l.openLevel? l.source.column none .sequenceStart
  let l ← l.dropKey?
  return { l with keyAllowed := true }.skip 1 |>.push .item

def readKey? (l : Layout) : Option Layout := do
  if !l.inFlow && !l.keyAllowed then
    none
  let l ← l.openLevel? l.source.column none .mappingStart
  let l ← l.dropKey?
  return { l with keyAllowed := !l.inFlow }.skip 1 |>.push .key |>.skipComment

def readValue? (l : Layout) : Option Layout := do
  let l ←
    match l.pending with
    | some k =>
      if !k.isStale l.source then
        let l ← (l.insert k.token .key).openLevel? k.column (some k.token) .mappingStart
        pure { l with pending := none, keyAllowed := false }
      else if k.required then
        none
      else
        noKey { l with pending := none }
    | none => noKey l
  return l.skip 1 |>.push .value |>.skipComment
where
  noKey (l : Layout) : Option Layout := do
    if !l.inFlow && !l.keyAllowed then
      none
    let l ← l.openLevel? l.source.column none .mappingStart
    return { l with keyAllowed := !l.inFlow }

def endsName (c : Char) : Bool :=
  isBlankOrBreak c || c = '?' || c = ':' || c = ',' || c = ']' || c = '}' || c = '%' || c = '@' ||
    c = '\x60'

def readName? (l : Layout) (make : String → Token) : Option Layout :=
  l.saveKey?.bind fun l =>
    let name := (l.source.rest.drop 1).takeWhile isName
    let l := l.skip (name.length + 1)
    if name ≠ [] ∧ l.source.rest.head?.all endsName then
      some ({ l with keyAllowed := false }.push (make (String.ofList name)) |>.skipComment)
    else
      none

def isTagChar (c : Char) : Bool :=
  isName c || c ∈ [';', '/', '?', ':', '@', '&', '=', '+', '$', ',', '.', '!', '~', '*', '\x27', '(',
    ')', '[', ']', '%']

def tagText? (cs : List Char) : Option String :=
  (bytes? cs).bind fun bytes => String.fromUTF8? ⟨bytes.toArray⟩
where
  bytes? : List Char → Option (List UInt8)
    | [] => some []
    | '%' :: a :: b :: cs =>
      match Json.hexNumber? [a, b], bytes? cs with
      | some n, some bytes => some (UInt8.ofNat n :: bytes)
      | _, _ => none
    | '%' :: _ => none
    | c :: cs => (bytes? cs).map ((String.singleton c).toUTF8.toList ++ ·)

/--
The handle and the suffix of a tag, and the number of characters they are written with. The
exclamation mark alone is a tag written in full.
-/
def tag? (cs : List Char) : Option (String × String × Nat) :=
  match cs with
  | '!' :: '<' :: cs =>
    let uri := cs.takeWhile isTagChar
    if uri ≠ [] ∧ (cs.drop uri.length).head? = some '>' then
      (tagText? uri).map fun suffix => ("", suffix, uri.length + 3)
    else
      none
  | '!' :: cs =>
    let name := cs.takeWhile isName
    match cs.drop name.length with
    | '!' :: cs =>
      let uri := cs.takeWhile isTagChar
      if uri = [] then none
      else
        (tagText? uri).map fun suffix =>
          (String.ofList ('!' :: name ++ ['!']), suffix, name.length + 2 + uri.length)
    | _ =>
      let uri := cs.takeWhile isTagChar
      if uri = [] then some ("", "!", 1)
      else (tagText? uri).map fun suffix => ("!", suffix, uri.length + 1)
  | _ => none

def readTag? (l : Layout) : Option Layout :=
  l.saveKey?.bind fun l =>
    match tag? l.source.rest with
    | some (handle, suffix, n) =>
      let l := l.skip n
      if l.source.atGap then
        some ({ l with keyAllowed := false }.push (.tag handle suffix) |>.skipComment)
      else
        none
    | none => none

def readBlock? (l : Layout) (literal : Bool) (fuel : Nat) : Option Layout :=
  l.dropKey?.bind fun l =>
    (Yaml.readBlock? literal l.levels.head? fuel (l.source.skip 1)).map fun (text, source) =>
      { l with source, keyAllowed := true }.push (.scalar text false)

def readQuoted? (l : Layout) (quote : Char) (fuel : Nat) : Option Layout :=
  l.saveKey?.bind fun l =>
    (Yaml.readQuoted? quote [] fuel (l.source.skip 1)).map fun (text, source) =>
      { l with source, keyAllowed := false }.push (.scalar text false) |>.skipComment

def readPlain? (l : Layout) (fuel : Nat) : Option Layout :=
  l.saveKey?.bind fun l =>
    let indent := (l.levels.head?.map (· + 1)).getD 0
    (Yaml.readPlain? l.inFlow indent [] {} fuel l.source).map fun (text, broken, source) =>
      let l := { l with source, keyAllowed := broken }.push (.scalar text true)
      if broken then l else l.skipComment

def isSign (c : Char) : Bool :=
  c ∈ [',', '[', ']', '{', '}', '#', '&', '*', '!', '|', '>', '\x27', '\x22', '%', '@', '\x60']

def startsPlain (l : Layout) (c : Char) (rest : List Char) : Bool :=
  if c = '-' then !rest.head?.any isBlank
  else if c = '?' || c = ':' then !l.inFlow && rest.head?.any (!isBlankOrBreak ·)
  else !isBlankOrBreak c && !isSign c

def readToken? (l : Layout) (fuel : Nat) (c : Char) (rest : List Char) : Option Layout :=
  let beforeGap := rest.head?.all isBlankOrBreak
  if c = '[' then l.readOpen? .openBracket
  else if c = '{' then l.readOpen? .openBrace
  else if c = ']' then l.readClose? .closeBracket
  else if c = '}' then l.readClose? .closeBrace
  else if c = ',' then l.readComma?
  else if c = '-' && beforeGap then l.readItem?
  else if c = '?' && (l.inFlow || beforeGap) then l.readKey?
  else if c = ':' && (l.inFlow || beforeGap) then l.readValue?
  else if c = '*' then l.readName? .alias
  else if c = '&' then l.readName? .anchor
  else if c = '!' then l.readTag?
  else if c = '|' && !l.inFlow then l.readBlock? true fuel
  else if c = '>' && !l.inFlow then l.readBlock? false fuel
  else if c = '\x27' || c = '\x22' then l.readQuoted? c fuel
  else if l.startsPlain c rest then l.readPlain? fuel
  else none

def directive? (s : Source) : Option (Token × Source) :=
  let name := s.rest.takeWhile isName
  let s := s.skip name.length
  if !s.atGap then none
  else
    let s := s.skipWhile isBlank
    match String.ofList name with
    | "YAML" =>
      let major := s.rest.takeWhile Char.isDigit
      let rest := s.rest.drop major.length
      let minor := (rest.drop 1).takeWhile Char.isDigit
      let isNumber (cs : List Char) : Bool := 1 ≤ cs.length && cs.length ≤ 2
      if rest.head? = some '.' ∧ isNumber major ∧ isNumber minor then
        some (.version (Decimal.natOfDigits major) (Decimal.natOfDigits minor),
          s.skip (major.length + 1 + minor.length))
      else
        none
    | "TAG" =>
      match s.rest with
      | '!' :: rest =>
        let inner := rest.takeWhile isName
        let closed := (rest.drop inner.length).head? = some '!'
        if inner ≠ [] ∧ !closed then none
        else
          let handle := '!' :: inner ++ (if closed then ['!'] else [])
          let s := s.skip handle.length
          let uri := (s.skipWhile isBlank).rest.takeWhile isTagChar
          if s.rest.head?.any isBlank ∧ uri ≠ [] then
            let s := (s.skipWhile isBlank).skip uri.length
            if s.atGap then
              (tagText? uri).map fun uri => (.handle (String.ofList handle) uri, s)
            else
              none
          else
            none
      | _ => none
    | _ => none

def readDirective? (l : Layout) : Option Layout :=
  l.closeAll?.bind fun l =>
    match directive? (l.source.skip 1) with
    | some (t, s) =>
      let s := s.skipWhile isBlank
      let s := if s.startsWith '#' then s.skipLine else s
      if s.atLineEnd then some ({ l with source := s.skipBreak }.push t) else none
    | none => none

def next? (l : Layout) (fuel : Nat) : Option Layout :=
  let l := l.skipGaps fuel
  let l := l.closeLevels (some l.source.column)
  match l.source.rest with
  | [] => l.readEnd?
  | c :: rest =>
    if c = '%' && l.source.column = 0 then l.readDirective?
    else if l.source.atMark '-' then l.closeAll?.map fun l => l.skip 3 |>.push .documentStart
    else if l.source.atMark '.' then l.closeAll?.map fun l => l.skip 3 |>.push .documentEnd
    else l.readToken? fuel c rest

def lookahead : Nat :=
  2

/--
The tokens that can be used if reading cannot go on: those with enough tokens behind them, up to the
first one of which it is not known whether it is a key.
-/
def usable (l : Layout) : List Token :=
  let open_ := (l.pending :: l.outer).filterMap fun pending =>
    pending.filter fun k => k.required || !k.isStale l.source
  let count := open_.foldl (fun n k => min n k.token) (l.tokens.size - lookahead)
  l.tokens.toList.take count

def readAll : Nat → Layout → List Token
  | 0, l => l.usable
  | fuel + 1, l =>
    match l.next? fuel with
    | none => l.usable
    | some l => if l.ended then l.tokens.toList else readAll fuel l

end Layout

def tokens (text : List Char) : List Token :=
  Layout.readAll (text.length + 3) ⟨⟨text, 0, 0, 0⟩, #[], [], true, none, [], false⟩

end IdlCompiler.Yaml
