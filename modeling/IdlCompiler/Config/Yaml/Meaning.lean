import IdlCompiler.Config.Yaml.Node
import IdlCompiler.Config.Yaml.Tag

/-!
This module contains what the nodes of YAML stand for. Aliases stand for their nodes, so that a short
document can stand for a long one; how much of it may come from aliases is limited.
-/

namespace IdlCompiler.Yaml

structure Tally where
  all : Nat := 0
  aliased : Nat := 0

namespace Tally

def isExcessive (t : Tally) : Bool :=
  let low := 400000
  let range := 3600000
  let part := min (t.all - low) range
  100 < t.aliased && 1000 < t.all && t.all * (99 * range - 89 * part) < t.aliased * 100 * range

def next? (t : Tally) (aliased : Bool) : Option Tally :=
  let t : Tally := ⟨t.all + 1, t.aliased + if aliased then 1 else 0⟩
  if t.isExcessive then none else some t

end Tally

abbrev Meaning (α : Type) : Type :=
  StateT Tally Option α

namespace Node

def look (aliased : Bool) : Meaning Unit := fun t =>
  (t.next? aliased).map fun t => ((), t)

def kind : Node → String
  | .scalar tag plain s => kindOf tag plain s
  | .alias _ (some (.scalar tag plain s)) => kindOf tag plain s
  | _ => "!!map"

def isMerge : Node → Bool
  | .scalar tag plain s => s = mergeKey && kindOf tag plain s = "!!merge"
  | _ => false

/--
What tells keys apart before it is known what they stand for: their kind of node and their spelling.
-/
def spelling : Node → Nat × String
  | .scalar _ _ s => (0, s)
  | .sequence _ => (1, "")
  | .mapping _ => (2, "")
  | .alias name _ => (3, name)

def areDistinct : List (Nat × String) → Bool
  | [] => true
  | key :: keys => !keys.contains key && areDistinct keys

def haveTextKeys (entries : List (Node × Node)) : Bool :=
  entries.all fun (key, _) => key.kind = "!!str" || key.kind = "!!merge"

/--
The key that a node stands for, inside of an alias or not. If keys are texts, any key is the text it is
spelled with, and there is none for null.
-/
def key (asText aliased : Bool) : Node → Meaning (Option Scalar)
  | .scalar tag plain s => do
    look aliased
    match scalar? tag plain s with
    | none => failure
    | some .null => return if asText then none else some .null
    | some (.text s) => return some (.text s)
    | some value => return some (if asText then .text s else value)
  | .alias _ (some (.scalar tag plain s)) => do
    look aliased
    key asText true (.scalar tag plain s)
  | _ => failure

def put (key : Scalar) (value : Document) (entries : List (Scalar × Document)) :
    List (Scalar × Document) :=
  if entries.any (·.1.isSame key) then
    entries.map fun entry => if entry.1.isSame key then (key, value) else entry
  else
    (key, value) :: entries

def keys (aliased : Bool) (entries : List (Node × Node)) : Meaning (List Scalar) :=
  entries.filterMapM fun (k, _) => key false aliased k

def tableOf (asText : Bool) (entries : List (Scalar × Document)) : Document :=
  if asText then
    .table (entries.reverse.filterMap fun (k, v) =>
      match k with
      | .text s => some (s, v)
      | _ => none)
  else
    .keyed entries.reverse

/--
What was read of a mapping: its entries, the last of which is first, and if other mappings are merged
into it, the keys that they do not give a value any more.
-/
structure Entries where
  entries : List (Scalar × Document) := []
  taken : Option (List Scalar) := none

def complete (aliased : Bool) (entries : List (Node × Node))
    (own : Meaning (Entries × Option (Entries → Meaning Entries))) : Meaning Entries := do
  if !areDistinct (entries.map (·.1.spelling)) then
    failure
  match ← own with
  | (all, none) => return all
  | (all, some merge) =>
    match all.taken with
    | some _ => merge all
    | none => merge { all with taken := some (← keys aliased entries) }

mutual

def document (aliased : Bool) : Node → Meaning Document
  | .scalar tag plain s => do
    look aliased
    match scalar? tag plain s with
    | some value => return .scalar value
    | none => failure
  | .sequence items => do
    look aliased
    return .list (← documents aliased [] items)
  | .mapping entries => do
    look aliased
    let asText := haveTextKeys entries
    let all ← complete aliased entries (ownEntries asText aliased {} entries)
    return tableOf asText all.entries
  | .alias _ target => do
    look aliased
    targetDocument target

def targetDocument : Option Node → Meaning Document
  | some n => document true n
  | none => failure

def documents (aliased : Bool) (acc : List Document) : List Node → Meaning (List Document)
  | [] => return acc.reverse
  | n :: ns => do
    let d ← document aliased n
    documents aliased (d :: acc) ns

/--
Read the entries of a mapping. What is to be merged into it is given back, to be read after all keys
of the mapping are known.
-/
def ownEntries (asText aliased : Bool) (all : Entries) :
    List (Node × Node) → Meaning (Entries × Option (Entries → Meaning Entries))
  | [] => return (all, none)
  | (k, v) :: rest => do
    if k.isMerge then
      let (all, _) ← ownEntries asText aliased all rest
      return (all, some (merge asText aliased false v))
    else
      match ← key asText aliased k with
      | none => ownEntries asText aliased all rest
      | some key =>
        if (all.taken.getD []).any (·.isSame key) then
          ownEntries asText aliased all rest
        else
          let value ← document aliased v
          let all : Entries := ⟨put key value all.entries, all.taken.map (key :: ·)⟩
          ownEntries asText aliased all rest

def merge (asText aliased inSequence : Bool) : Node → Entries → Meaning Entries
  | .scalar _ _ _, _ => failure
  | .sequence items, all => if inSequence then failure else mergeAll asText aliased items all
  | .mapping entries, all => do
    look aliased
    complete aliased entries (ownEntries asText aliased all entries)
  | .alias _ target, all => do
    look aliased
    mergeTarget asText target all

def mergeAll (asText aliased : Bool) : List Node → Entries → Meaning Entries
  | [], all => return all
  | n :: ns, all => do
    let all ← merge asText aliased true n all
    mergeAll asText aliased ns all

def mergeTarget (asText : Bool) : Option Node → Entries → Meaning Entries
  | some (.mapping entries), all => do
    look true
    complete true entries (ownEntries asText true all entries)
  | _, _ => failure

end

def root? (n : Node) : Option Document :=
  (read.run { all := 1 }).map (·.1)
where
  read : Meaning Document := do
    look false
    match n with
    | .scalar tag plain s => if (scalar? tag plain s).any isNull then return .scalar .null else failure
    | .mapping entries =>
      let all ← complete false entries (ownEntries true false {} entries)
      return tableOf true all.entries
    | _ => failure
  isNull : Scalar → Bool
    | .null => true
    | _ => false

end Node

end IdlCompiler.Yaml
