import IdlCompiler.Scalar
import IdlCompiler.Text.Integer

/-!
This module contains the numbers and moments of TOML. What a number is, is told by the characters it
starts with; only then it is looked at whether it is well formed.
-/

namespace IdlCompiler.Toml

/--
Whether every underscore has a digit before it, and the last character is one. Letters count as digits
of the base sixteen.
-/
def hasDividingUnderscores (cs : List Char) : Bool :=
  go false cs
where
  isHex (c : Char) : Bool :=
    c.isDigit || ('a' ≤ c && c ≤ 'f') || ('A' ≤ c && c ≤ 'F')
  go (afterDigit : Bool) : List Char → Bool
    | [] => afterDigit
    | c :: cs => (c ≠ '_' || afterDigit) && go (isHex c) cs

def hasLeadingZero : List Char → Bool
  | '0' :: c :: _ => c ≠ 'b' && c ≠ 'o' && c ≠ 'x'
  | '+' :: '0' :: _ :: _ => true
  | '-' :: '0' :: _ :: _ => true
  | _ => false

def integer? (cs : List Char) : Option Scalar :=
  if hasDividingUnderscores cs && !hasLeadingZero cs then
    (Text.Integer.read cs).toOption.map .integer
  else
    none

def hasInnerPoints : List Char → Bool
  | [] => true
  | c :: cs => (c ≠ '.' || cs.head?.any Char.isDigit) && hasInnerPoints cs

def float? (cs : List Char) : Option Scalar :=
  let parts := (cs.map fun c => if c = 'e' || c = 'E' then '.' else c).splitOn '.'
  let parts := parts.filter (· ≠ [])
  if parts.all hasDividingUnderscores && !parts.head?.any hasLeadingZero && hasInnerPoints cs then
    (Decimal.parse? (cs.filter (· ≠ '_'))).map .float
  else
    none

/--
The forms of moments, and for those without a zone what takes its place: a day and a time, with or
without a zone, or only one of them. Seconds may be left out.
-/
def momentForms : List (Zone × List Moment.Part) :=
  let day : List Moment.Part := [.year, .mark '-', .month true, .mark '-', .day true]
  let short : List Moment.Part := [.hour true, .mark ':', .minute true]
  let time : List Moment.Part := short ++ [.mark ':', .second true, .fraction]
  [(.universal, day ++ .mark 'T' :: time ++ [.zone]),
    (⟨0, "datetime-local"⟩, day ++ .mark 'T' :: time),
    (⟨0, "date-local"⟩, day),
    (⟨0, "time-local"⟩, time),
    (.universal, day ++ .mark 'T' :: short ++ [.zone]),
    (⟨0, "datetime-local"⟩, day ++ .mark 'T' :: short),
    (⟨0, "time-local"⟩, short)]

def isMomentChar (c : Char) : Bool :=
  c.isDigit || c ∈ ['-', ':', 'T', 't', ' ', '.', 'Z', 'z', '+']

def moment? (cs : List Char) : Option Scalar :=
  let cs := (cs.reverse.dropWhile (· = ' ')).reverse.map fun c =>
    if c = 't' || c = ' ' then 'T' else if c = 'z' then 'Z' else c
  (momentForms.findSome? fun (zone, parts) => Moment.read? { zone } cs parts).map .moment

def afterWord? (word : List Char) (cs : List Char) : Option (List Char) :=
  if word.isPrefixOf cs then some (cs.drop word.length) else none

def special? (negative : Bool) (cs : List Char) : Option (Scalar × List Char) :=
  match afterWord? ['i', 'n', 'f'] cs, afterWord? ['n', 'a', 'n'] cs with
  | some rest, _ => some (.float (if negative then -1 / 0 else 1 / 0), rest)
  | none, some rest => some (.float (0 / 0), rest)
  | none, none => none

def decimal? (sign cs : List Char) : Option (Scalar × List Char) :=
  let digits := cs.takeWhile fun c => c.isDigit || c = '_'
  let rest := cs.drop digits.length
  if rest.head?.any fun c => c = '.' || c = 'e' || c = 'E' then
    let tail := rest.takeWhile fun c => c.isDigit || c ∈ ['_', '.', '-', '+', 'e', 'E']
    (float? (sign ++ digits ++ tail)).map (·, rest.drop tail.length)
  else
    (integer? (sign ++ digits)).map (·, rest)

def isDigitOf (base c : Char) : Bool :=
  (Text.Integer.digit? c).any fun d =>
    d < (if base = 'b' then 2 else if base = 'o' then 8 else if base = 'x' then 16 else 0)

def number? (cs : List Char) : Option (Scalar × List Char) :=
  match cs with
  | '0' :: base :: d :: rest =>
    if isDigitOf base d then
      let digits := (d :: rest).takeWhile fun c => isDigitOf base c || c = '_'
      (integer? ('0' :: base :: digits)).map (·, (d :: rest).drop digits.length)
    else
      unsigned? cs
  | '+' :: rest => (special? false rest).or (signed? '+' rest)
  | '-' :: rest => (special? true rest).or (signed? '-' rest)
  | _ => (special? false cs).or (unsigned? cs)
where
  signed? (sign : Char) (cs : List Char) : Option (Scalar × List Char) :=
    if cs.head?.any Char.isDigit then decimal? [sign] cs else none
  unsigned? (cs : List Char) : Option (Scalar × List Char) :=
    let digits := cs.takeWhile Char.isDigit
    let rest := cs.drop digits.length
    if digits = [] then none
    else if digits ≠ ['0'] ∧ (rest.head? = some '-' ∨ rest.head? = some ':') then
      let text := cs.takeWhile isMomentChar
      (moment? text).map (·, cs.drop text.length)
    else
      decimal? [] cs

end IdlCompiler.Toml
