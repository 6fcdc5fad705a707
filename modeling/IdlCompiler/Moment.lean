import IdlCompiler.Decimal

/-!
This module contains moments, which documents spell in many ways: a day and a time of day, told in a
zone.
-/

namespace IdlCompiler

structure Zone where
  offset : Int := 0
  name : String := ""
  deriving DecidableEq, Repr

namespace Zone

def universal : Zone :=
  ⟨0, "UTC"⟩

def ofOffset (offset : Int) : Zone :=
  if offset = 0 then universal else ⟨offset, ""⟩

private def twoDigits (n : Nat) : String :=
  String.ofList ((Nat.toDigits 10 n).leftpad 2 '0')

def offsetText (divider : String) (z : Zone) : String :=
  let minutes := z.offset.natAbs / 60
  (if z.offset < 0 then "-" else "+") ++ twoDigits (minutes / 60) ++ divider ++
    twoDigits (minutes % 60)

end Zone

structure Moment where
  year : Nat := 0
  month : Nat := 1
  day : Nat := 1
  hour : Nat := 0
  minute : Nat := 0
  second : Nat := 0
  nanosecond : Nat := 0
  zone : Zone := .universal
  deriving DecidableEq, Repr

namespace Moment

def daysOf (year month : Nat) : Nat :=
  if month = 2 then
    if year % 4 = 0 ∧ (year % 100 ≠ 0 ∨ year % 400 = 0) then 29 else 28
  else if month = 4 ∨ month = 6 ∨ month = 9 ∨ month = 11 then
    30
  else
    31

private def digits (width n : Nat) : String :=
  String.ofList ((Nat.toDigits 10 n).leftpad width '0')

def dayText (m : Moment) : String :=
  digits 4 m.year ++ "-" ++ digits 2 m.month ++ "-" ++ digits 2 m.day

def timeText (m : Moment) : String :=
  let fraction := ((digits 9 m.nanosecond).toList.reverse.dropWhile (· = '0')).reverse
  let fraction := if fraction = [] then "" else "." ++ String.ofList fraction
  digits 2 m.hour ++ ":" ++ digits 2 m.minute ++ ":" ++ digits 2 m.second ++ fraction

def text (m : Moment) : String :=
  let zone := if m.zone.name = "" then m.zone.offsetText "" else m.zone.name
  m.dayText ++ " " ++ m.timeText ++ " " ++ m.zone.offsetText "" ++ " " ++ zone

def exchangeText (m : Moment) : String :=
  m.dayText ++ "T" ++ m.timeText ++ (if m.zone.offset = 0 then "Z" else m.zone.offsetText ":")

inductive Part where
  | year
  | month (both : Bool)
  | day (both : Bool)
  | hour (both : Bool)
  | minute (both : Bool)
  | second (both : Bool)
  | fraction
  | zone
  | mark (c : Char)
  /-- Any number of spaces, but at least one in front of anything else. -/
  | spaces

private def isDigit (c : Char) : Bool :=
  '0' ≤ c && c ≤ '9'

def twoDigits? (both : Bool) : List Char → Option (Nat × List Char)
  | c :: d :: cs =>
    if !isDigit c then none
    else if isDigit d then some (Decimal.natOfDigits [c, d], cs)
    else if both then none
    else some (Decimal.natOfDigits [c], d :: cs)
  | [c] => if isDigit c && !both then some (Decimal.natOfDigits [c], []) else none
  | [] => none

def zone? : List Char → Option (Zone × List Char)
  | 'Z' :: cs => some (.universal, cs)
  | sign :: cs => do
    let (hours, cs) ← twoDigits? true cs
    let (minutes, cs) ←
      match cs with
      | ':' :: cs => twoDigits? true cs
      | _ => none
    let offset : Nat := (hours * 60 + minutes) * 60
    if 24 < hours ∨ 60 < minutes then none
    else if sign = '+' then some (.ofOffset offset, cs)
    else if sign = '-' then some (.ofOffset (-offset), cs)
    else none
  | [] => none

def readPart? (m : Moment) (cs : List Char) : Part → Option (Moment × List Char)
  | .year =>
    let year := cs.take 4
    if year.length = 4 ∧ year.all isDigit then
      some ({ m with year := Decimal.natOfDigits year }, cs.drop 4)
    else
      none
  | .month both => do
    let (month, cs) ← twoDigits? both cs
    if 1 ≤ month ∧ month ≤ 12 then some ({ m with month }, cs) else none
  | .day both => do
    let (day, cs) ← twoDigits? both cs
    some ({ m with day }, cs)
  | .hour both => do
    let (hour, cs) ← twoDigits? both cs
    if hour < 24 then some ({ m with hour }, cs) else none
  | .minute both => do
    let (minute, cs) ← twoDigits? both cs
    if minute < 60 then some ({ m with minute }, cs) else none
  | .second both => do
    let (second, cs) ← twoDigits? both cs
    if second < 60 then some ({ m with second }, cs) else none
  | .fraction =>
    match cs with
    | point :: d :: rest =>
      if (point = '.' ∨ point = ',') ∧ isDigit d then
        let places := (d :: rest).takeWhile isDigit
        let nine := (places ++ List.replicate 9 '0').take 9
        some ({ m with nanosecond := Decimal.natOfDigits nine }, (d :: rest).dropWhile isDigit)
      else
        some (m, cs)
    | _ => some (m, cs)
  | .zone => do
    let (zone, cs) ← zone? cs
    some ({ m with zone }, cs)
  | .mark c =>
    match cs with
    | d :: cs => if c = d then some (m, cs) else none
    | [] => none
  | .spaces =>
    if cs.head?.all (· = ' ') then some (m, cs.dropWhile (· = ' ')) else none

def read? (m : Moment) (cs : List Char) : List Part → Option Moment
  | [] => if cs = [] ∧ 1 ≤ m.day ∧ m.day ≤ daysOf m.year m.month then some m else none
  | part :: parts =>
    match m.readPart? cs part with
    | some (m, cs) => m.read? cs parts
    | none => none

end Moment

end IdlCompiler
