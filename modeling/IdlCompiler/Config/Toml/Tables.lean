import IdlCompiler.Config.Document
import IdlCompiler.Config.Toml.Statement

/-!
This module contains the tables that the statements of a TOML document build up. A key has one value,
but tables can be added to in several ways.
-/

namespace IdlCompiler.Toml

/--
The tables built so far. Tables are `open_` that came into being on the way to others and can still be
told of once. A value that was written as an array, whose keys are `arrays`, can be replaced.
-/
structure Tables where
  root : List (String × Document) := []
  open_ : List Key := []
  arrays : List Key := []

namespace Tables

def entries? (entries : List (String × Document)) : Key → Option (List (String × Document))
  | [] => some entries
  | name :: key =>
    match entries.lookup name with
    | some (.table inner) => entries? inner key
    | some (.tables items) => items.getLast?.bind (entries? · key)
    | _ => none

def put (name : String) (d : Document) : Key → List (String × Document) → List (String × Document)
  | [], entries => Document.insert name d entries
  | first :: key, entries =>
    match entries.lookup first with
    | some (.table inner) => Document.insert first (.table (put name d key inner)) entries
    | some (.tables items) =>
      let last := put name d key (items.getLast?.getD [])
      Document.insert first (.tables (items.dropLast ++ [last])) entries
    | _ => entries

def addOpen (t : Tables) (key : Key) : Tables :=
  { t with open_ := key :: t.open_.filter (· ≠ key) }

def removeOpen (t : Tables) (key : Key) : Tables :=
  { t with open_ := t.open_.filter (· ≠ key) }

/--
The key by which it is noted whether the value of a name is an array. Without a name it is noted of
the table itself.
-/
def noted (key : Key) (name : String) : Key :=
  if name = "" ∧ key ≠ [] then key else key ++ [name]

def noteArray (t : Tables) (key : Key) (isArray : Bool) : Tables :=
  let others := t.arrays.filter (· ≠ key)
  { t with arrays := if isArray then key :: others else others }

def lookup? (t : Tables) (key : Key) (name : String) : Option (Option Document) :=
  (entries? t.root key).map (·.lookup name)

/--
Give a name in a table its value. If it has one, that is replaced if it was an array, and kept if it
is an open table, which is not open any more.
-/
def set? (t : Tables) (key : Key) (name : String) (d : Document) : Option Tables :=
  let full := key ++ [name]
  match t.lookup? key name with
  | none => none
  | some none => some { t with root := put name d key t.root }
  | some (some _) =>
    if full ∈ t.arrays then some { t.removeOpen full with root := put name d key t.root }
    else if full ∈ t.open_ then some (t.removeOpen full)
    else none

def reach? (t : Tables) (done : Key) : Key → Option Tables
  | [] => some t
  | name :: key =>
    let here := done ++ [name]
    match t.lookup? done name with
    | some none => reach? { t.addOpen here with root := put name (.table []) done t.root } here key
    | some (some (.table _)) => reach? t here key
    | some (some (.tables _)) => reach? t here key
    | _ => none

def enter? (t : Tables) (key : Key) (isItem : Bool) : Option Tables :=
  let above := key.dropLast
  match t.reach? [] above, key.getLast? with
  | some t, some name =>
    if isItem then
      match t.lookup? above name with
      | some none => some { t with root := put name (.tables [[]]) above t.root }
      | some (some (.tables items)) =>
        some { t with root := put name (.tables (items ++ [[]])) above t.root }
      | _ => none
    else
      t.set? above name (.table [])
  | _, _ => none

def enterAll? (t : Tables) (done : Key) : Key → Option Tables
  | [] => some t
  | name :: key =>
    match (t.addOpen (done ++ [name])).enter? (done ++ [name]) false with
    | some t => enterAll? t (done ++ [name]) key
    | none => none

def insert? (d : Document) : Key → List (String × Document) → Option (List (String × Document))
  | [], _ => none
  | [name], entries => some (Document.insert name d entries)
  | name :: key, entries =>
    match entries.lookup name with
    | none => (insert? d key []).map fun inner => Document.insert name (.table inner) entries
    | some (.table inner) =>
      (insert? d key inner).map fun inner => Document.insert name (.table inner) entries
    | some _ => none

def isArray : Literal → Bool
  | .array _ => true
  | _ => false

mutual

def document? (t : Tables) (key : Key) (name : String) (inArray : Bool) :
    Literal → Option (Document × Tables)
  | .scalar s => some (.scalar s, t)
  | .array items => documents? (t.noteArray (noted key name) true) key name [] items
  | .table entries =>
    let here := key ++ [name]
    match (t.addOpen here).enter? here inArray with
    | some t => table? t here [] entries
    | none => none

def documents? (t : Tables) (key : Key) (name : String) (acc : List Document) :
    List Literal → Option (Document × Tables)
  | [] => some (.list acc.reverse, t)
  | v :: vs =>
    match document? t key name true v with
    | some (d, t) => documents? t key name (d :: acc) vs
    | none => none

def table? (t : Tables) (key : Key) (acc : List (String × Document)) :
    List (Key × Literal) → Option (Document × Tables)
  | [] => some (.table acc, t)
  | (path, v) :: rest =>
    let name := path.getLast?.getD ""
    let inner := key ++ path.dropLast
    match t.enterAll? key path.dropLast with
    | none => none
    | some t =>
      match document? t inner name false v with
      | none => none
      | some (d, t) =>
        match t.set? inner name d, insert? d path acc with
        | some t, some acc => table? (t.noteArray (noted inner name) (isArray v)) key acc rest
        | _, _ => none

end

def step? (t : Tables) (key : Key) : Statement → Option (Tables × Key)
  | .table header =>
    (t.enter? header false).map fun t => (t.noteArray header false, header)
  | .tableItem header =>
    (t.enter? header true).map fun t => (t.noteArray header false, header)
  | .entry path v =>
    let name := path.getLast?.getD ""
    let inner := key ++ path.dropLast
    match t.enterAll? key path.dropLast with
    | none => none
    | some t =>
      match document? t inner name false v with
      | none => none
      | some (d, t) =>
        (t.set? inner name d).map fun t => (t.noteArray (noted inner name) (isArray v), key)

def run? (t : Tables) (key : Key) : List Statement → Option Tables
  | [] => some t
  | s :: ss =>
    match t.step? key s with
    | some (t, key) => run? t key ss
    | none => none

end Tables

end IdlCompiler.Toml
