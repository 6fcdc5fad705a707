import IdlCompiler.Config.Toml.Number
import IdlCompiler.Config.Toml.Statement
import IdlCompiler.Json.Reader

/-!
This module contains how the statements of TOML documents are read.
-/

namespace IdlCompiler.Toml

def isBlank (c : Char) : Bool :=
  c = ' ' || c = '\t'

def isBreak (c : Char) : Bool :=
  c = '\n' || c = '\r'

def isAllowed : List Char → Bool
  | [] => true
  | c :: cs =>
    let control := (c.toNat < 0x20 && c ≠ '\t' && !isBreak c) || c.toNat = 0x7F
    !control && (c ≠ '\r' || cs.head? = some '\n') && isAllowed cs

def skipGaps (inComment : Bool) : List Char → List Char
  | [] => []
  | c :: cs =>
    if inComment then skipGaps (c ≠ '\n') cs
    else if isBlank c || isBreak c then skipGaps false cs
    else if c = '#' then skipGaps true cs
    else c :: cs

def isLineEnd (cs : List Char) : Bool :=
  (cs.dropWhile isBlank).head?.all fun c => c = '#' || isBreak c

def escape? : Char → Option Char
  | 'b' => some '\x08'
  | 't' => some '\t'
  | 'n' => some '\n'
  | 'f' => some '\x0c'
  | 'r' => some '\r'
  | 'e' => some '\x1b'
  | '\x22' => some '\x22'
  | '\\' => some '\\'
  | _ => none

def escapeDigits? : Char → Option Nat
  | 'x' => some 2
  | 'u' => some 4
  | 'U' => some 8
  | _ => none

def readEscape? : List Char → Option (Char × List Char)
  | [] => none
  | e :: cs =>
    match escapeDigits? e with
    | some width =>
      let digits := cs.take width
      match Json.hexNumber? digits with
      | some n =>
        if digits.length = width ∧ n.isValidChar then some (Char.ofNat n, cs.drop width) else none
      | none => none
    | none => (escape? e).map (·, cs)

/--
A string on one line behind its opening quote, and the text behind it. What was read is `acc`, the
last character first. Only between double quotes there are escapes.
-/
def readLine? (quote : Char) (acc : List Char) : Nat → List Char → Option (String × List Char)
  | 0, _ => none
  | _, [] => none
  | fuel + 1, c :: cs =>
    if c = quote then
      some (String.ofList acc.reverse, cs)
    else if c = '\\' ∧ quote = '\x22' then
      match readEscape? cs with
      | some (c, cs) => readLine? quote (c :: acc) fuel cs
      | none => none
    else if isBreak c then
      none
    else
      readLine? quote (c :: acc) fuel cs

/--
A string over several lines behind its three opening quotes, and the text behind it. Up to two quotes
may stand in front of the three that close it, and one more behind a backslash. A backslash at the end
of a line passes all blanks and line breaks behind it. The character in front is `previous`.
-/
def readLines? (quote : Char) (previous : Char) (acc : List Char) :
    Nat → List Char → Option (String × List Char)
  | 0, _ => none
  | _, [] => none
  | fuel + 1, c :: cs =>
    if c = quote then
      let count := ((c :: cs).takeWhile (· = quote)).length
      let most := if previous = '\\' ∧ quote = '\x22' then 6 else 5
      let rest := (c :: cs).drop count
      if most < count then none
      else if 3 ≤ count then
        some (String.ofList (acc.reverse ++ List.replicate (count - 3) quote), rest)
      else readLines? quote quote (List.replicate count quote ++ acc) fuel rest
    else if c = '\\' ∧ quote = '\x22' then
      let gap := cs.takeWhile fun c => isBlank c || isBreak c
      if gap ≠ [] then
        if '\n' ∈ gap then readLines? quote ' ' acc fuel (cs.drop gap.length) else none
      else
        match readEscape? cs with
        | some (d, rest) => readLines? quote (cs.headD ' ') (d :: acc) fuel rest
        | none => none
    else
      readLines? quote c (c :: acc) fuel cs

def string? (lines : Bool) (cs : List Char) : Option (String × List Char) :=
  match cs with
  | q :: cs =>
    if q = '\x22' ∨ q = '\x27' then
      if lines ∧ [q, q].isPrefixOf cs then
        let cs :=
          match cs.drop 2 with
          | '\n' :: cs => cs
          | '\r' :: '\n' :: cs => cs
          | cs => cs
        readLines? q ' ' [] (cs.length + 1) cs
      else
        readLine? q [] (cs.length + 1) cs
    else
      none
  | [] => none

def isBare (c : Char) : Bool :=
  ('a' ≤ c && c ≤ 'z') || ('A' ≤ c && c ≤ 'Z') || ('0' ≤ c && c ≤ '9') || c = '_' || c = '-'

def name? (cs : List Char) : Option (String × List Char) :=
  let bare := cs.takeWhile isBare
  if bare = [] then string? false cs else some (String.ofList bare, cs.drop bare.length)

def key? : Nat → List Char → Option (Key × List Char)
  | 0, _ => none
  | fuel + 1, cs =>
    match name? (cs.dropWhile isBlank) with
    | none => none
    | some (name, cs) =>
      match cs.dropWhile isBlank with
      | '.' :: cs => (key? fuel cs).map fun (key, cs) => (name :: key, cs)
      | cs => some ([name], cs)

def scalar? (cs : List Char) : Option (Scalar × List Char) :=
  match string? true cs, afterWord? ['t', 'r', 'u', 'e'] cs, afterWord? ['f', 'a', 'l', 's', 'e'] cs with
  | some (s, rest), _, _ => some (.text s, rest)
  | none, some rest, _ => some (.bool true, rest)
  | none, none, some rest => some (.bool false, rest)
  | none, none, none => number? cs

def afterItem? (closing : Char) (cs : List Char) : Option (List Char) :=
  match skipGaps false cs with
  | c :: cs => if c = ',' then some cs else if c = closing then some (c :: cs) else none
  | [] => none

mutual

def literal? : Nat → List Char → Option (Literal × List Char)
  | 0, _ => none
  | fuel + 1, cs =>
    match cs.dropWhile isBlank with
    | '[' :: cs => items? [] fuel cs
    | '{' :: cs => entries? [] fuel cs
    | cs => (scalar? cs).map fun (s, cs) => (.scalar s, cs)

def items? (acc : List Literal) : Nat → List Char → Option (Literal × List Char)
  | 0, _ => none
  | fuel + 1, cs =>
    match skipGaps false cs with
    | ']' :: cs => some (.array acc.reverse, cs)
    | cs =>
      match literal? fuel cs with
      | some (item, cs) => (afterItem? ']' cs).bind (items? (item :: acc) fuel)
      | none => none

def entries? (acc : List (Key × Literal)) : Nat → List Char → Option (Literal × List Char)
  | 0, _ => none
  | fuel + 1, cs =>
    match skipGaps false cs with
    | '}' :: cs => some (.table acc.reverse, cs)
    | cs =>
      match assignment? fuel cs with
      | some (key, value, cs) => (afterItem? '}' cs).bind (entries? ((key, value) :: acc) fuel)
      | none => none

def assignment? : Nat → List Char → Option (Key × Literal × List Char)
  | 0, _ => none
  | fuel + 1, cs =>
    match key? (cs.length + 1) cs with
    | some (key, '=' :: cs) => (literal? fuel cs).map fun (value, cs) => (key, value, cs)
    | _ => none

end

def statement? (fuel : Nat) (cs : List Char) : Option (Statement × List Char) :=
  match cs with
  | '[' :: '[' :: cs =>
    match key? (cs.length + 1) cs with
    | some (key, ']' :: ']' :: cs) => some (.tableItem key, cs)
    | _ => none
  | '[' :: cs =>
    match key? (cs.length + 1) cs with
    | some (key, ']' :: cs) => some (.table key, cs)
    | _ => none
  | cs => (assignment? fuel cs).map fun (key, value, cs) => (.entry key value, cs)

def statements? (acc : List Statement) : Nat → List Char → Option (List Statement)
  | 0, _ => none
  | fuel + 1, cs =>
    match skipGaps false cs with
    | [] => some acc.reverse
    | cs =>
      match statement? fuel cs with
      | some (s, cs) => if isLineEnd cs then statements? (s :: acc) fuel cs else none
      | none => none

end IdlCompiler.Toml
