import IdlCompiler.Config.Yaml
import IdlCompiler.Proofs.Config.WellKeyed

/-!
This module contains that YAML documents have no table with a key twice, be its entries its own or
those of other mappings that are merged into it.
-/

namespace IdlCompiler.Yaml

namespace Meaning

variable {α β : Type} {P : α → Prop} {Q : β → Prop}

def Gives (P : α → Prop) (m : Meaning α) : Prop :=
  ∀ t a t', m t = some (a, t') → P a

theorem gives_pure {a : α} (h : P a) : Gives P (pure a) := by
  intro t b t' hb
  cases hb
  exact h

theorem gives_failure : Gives P failure := by
  intro t b t' hb
  cases hb

theorem gives_bind {x : Meaning α} {f : α → Meaning β} (hx : Gives P x)
    (hf : ∀ a, P a → Gives Q (f a)) : Gives Q (x >>= f) := by
  intro t b t' h
  obtain ⟨⟨a, s⟩, ha, hb⟩ := Option.bind_eq_some_iff.1 h
  exact hf a (hx t a s ha) s b t' hb

theorem gives_bind_any {x : Meaning α} {f : α → Meaning β} (hf : ∀ a, Gives Q (f a)) :
    Gives Q (x >>= f) :=
  gives_bind (P := fun _ => True) (fun _ _ _ _ => trivial) fun a _ => hf a

end Meaning

open Meaning

namespace Node

def text? : Scalar → Option String
  | .text s => some s
  | _ => none

structure WellKeyedEntries (entries : List (Scalar × Document)) : Prop where
  nodup : (entries.filterMap fun entry => text? entry.1).Nodup
  values : ∀ entry ∈ entries, entry.2.WellKeyed

variable {entries : List (Scalar × Document)} {value : Document}

theorem text?_eq_some_iff {key : Scalar} {s : String} : text? key = some s ↔ key = .text s := by
  cases key <;> simp [text?]

theorem text?_eq_of_isSame {a b : Scalar} (h : a.isSame b = true) : text? a = text? b := by
  cases a <;> cases b <;> simp_all [Scalar.isSame, text?]

theorem wellKeyedEntries_nil : WellKeyedEntries [] :=
  ⟨List.nodup_nil, by simp⟩

theorem WellKeyedEntries.put (h : WellKeyedEntries entries) (key : Scalar)
    (hvalue : value.WellKeyed) : WellKeyedEntries (put key value entries) := by
  unfold Node.put
  split
  . constructor
    . have hkeys : ((entries.map fun entry =>
            if entry.1.isSame key then (key, value) else entry).filterMap
              fun entry => text? entry.1) = entries.filterMap fun entry => text? entry.1 := by
        rw [List.filterMap_map]
        apply List.filterMap_congr
        intro entry _
        rw [Function.comp_apply]
        split
        . next hsame => exact (text?_eq_of_isSame hsame).symm
        . rfl
      rw [hkeys]
      exact h.nodup
    . rw [List.forall_mem_map]
      intro entry hentry
      split
      . exact hvalue
      . exact h.values entry hentry
  . next hnone =>
    constructor
    . rw [List.filterMap_cons]
      split
      . exact h.nodup
      . next s hs =>
        rw [List.nodup_cons, List.mem_filterMap]
        refine ⟨?_, h.nodup⟩
        rintro ⟨entry, hentry, hsame⟩
        apply hnone
        have hkey : key = .text s := text?_eq_some_iff.1 hs
        rw [text?_eq_some_iff] at hsame
        rw [List.any_eq_true]
        exact ⟨entry, hentry, by simp [hkey, hsame, Scalar.isSame]⟩
    . rw [List.forall_mem_cons]
      exact ⟨hvalue, h.values⟩

theorem tableOf_true (entries : List (Scalar × Document)) :
    tableOf true entries =
      .table (entries.reverse.filterMap fun entry => (text? entry.1).map (·, entry.2)) := by
  unfold tableOf
  rw [if_pos rfl]
  congr 2
  funext ⟨key, d⟩
  cases key <;> rfl

theorem WellKeyedEntries.wellKeyed_tableOf (h : WellKeyedEntries entries) (asText : Bool) :
    (tableOf asText entries).WellKeyed := by
  cases asText with
  | false =>
    apply Document.WellKeyed.keyed
    intro entry hentry
    exact h.values entry (List.mem_reverse.1 hentry)
  | true =>
    rw [tableOf_true]
    apply Document.WellKeyed.table
    . rw [List.map_filterMap]
      simp only [Option.map_map, Function.comp_def, Option.map_id']
      rw [List.filterMap_reverse, List.nodup_reverse]
      exact h.nodup
    . intro found hmem
      obtain ⟨entry, hentry, hfound⟩ := List.mem_filterMap.1 hmem
      obtain ⟨s, -, rfl⟩ := Option.map_eq_some_iff.1 hfound
      exact h.values entry (List.mem_reverse.1 hentry)

def Extends (own : Entries × Option (Entries → Meaning Entries)) : Prop :=
  WellKeyedEntries own.1.entries ∧ ∀ merge ∈ own.2, ∀ all : Entries,
    WellKeyedEntries all.entries → Gives (fun all => WellKeyedEntries all.entries) (merge all)

theorem gives_complete {aliased : Bool} {nodes : List (Node × Node)}
    {own : Meaning (Entries × Option (Entries → Meaning Entries))} (h : Gives Extends own) :
    Gives (fun all => WellKeyedEntries all.entries) (complete aliased nodes own) := by
  unfold complete
  dsimp only
  split
  . exact gives_bind gives_failure fun _ => False.elim
  . refine gives_bind h ?_
    rintro ⟨all, merge⟩ ⟨hall, hmerge⟩
    cases merge with
    | none => exact gives_pure hall
    | some merge =>
      dsimp only
      split
      . exact hmerge merge rfl all hall
      . refine gives_bind_any ?_
        intro taken
        exact hmerge merge rfl _ hall

mutual

theorem gives_document {aliased : Bool} (n : Node) :
    Gives Document.WellKeyed (document aliased n) := by
  match n with
  | .scalar tag plain s =>
    rw [document]
    refine gives_bind_any ?_
    intro _
    split
    . exact gives_pure (.scalar _)
    . exact gives_failure
  | .sequence items =>
    rw [document]
    refine gives_bind_any ?_
    intro _
    refine gives_bind (gives_documents (by simp) items) ?_
    intro ds hds
    exact gives_pure (.list hds)
  | .mapping entries =>
    rw [document]
    refine gives_bind_any ?_
    intro _
    refine gives_bind (gives_complete (gives_ownEntries wellKeyedEntries_nil entries)) ?_
    intro all hall
    exact gives_pure (hall.wellKeyed_tableOf _)
  | .alias name target =>
    rw [document]
    refine gives_bind_any ?_
    intro _
    exact gives_targetDocument target

theorem gives_targetDocument (target : Option Node) :
    Gives Document.WellKeyed (targetDocument target) := by
  cases target with
  | none =>
    rw [targetDocument]
    exact gives_failure
  | some n =>
    rw [targetDocument]
    exact gives_document n

theorem gives_documents {aliased : Bool} {acc : List Document} (hacc : ∀ d ∈ acc, d.WellKeyed)
    (ns : List Node) : Gives (fun ds => ∀ d ∈ ds, d.WellKeyed) (documents aliased acc ns) := by
  cases ns with
  | nil =>
    rw [documents]
    exact gives_pure (by simpa using hacc)
  | cons n ns =>
    rw [documents]
    refine gives_bind (gives_document n) ?_
    intro d hd
    exact gives_documents (List.forall_mem_cons.2 ⟨hd, hacc⟩) ns

theorem gives_ownEntries {asText aliased : Bool} {all : Entries}
    (hall : WellKeyedEntries all.entries) (nodes : List (Node × Node)) :
    Gives Extends (ownEntries asText aliased all nodes) := by
  match nodes with
  | [] =>
    rw [ownEntries]
    exact gives_pure ⟨hall, by simp⟩
  | (k, v) :: rest =>
    rw [ownEntries]
    split
    . refine gives_bind (gives_ownEntries hall rest) ?_
      rintro ⟨all', _⟩ ⟨hall', -⟩
      refine gives_pure ⟨hall', ?_⟩
      rintro _ ⟨⟩ others hothers
      exact gives_merge hothers v
    . refine gives_bind_any ?_
      intro key
      split
      . exact gives_ownEntries hall rest
      . split
        . exact gives_ownEntries hall rest
        . refine gives_bind (gives_document v) ?_
          intro value hvalue
          exact gives_ownEntries (hall.put _ hvalue) rest

theorem gives_merge {asText aliased inSequence : Bool} {all : Entries}
    (hall : WellKeyedEntries all.entries) (n : Node) :
    Gives (fun all => WellKeyedEntries all.entries) (merge asText aliased inSequence n all) := by
  match n with
  | .scalar tag plain s =>
    rw [merge]
    exact gives_failure
  | .sequence items =>
    rw [merge]
    split
    . exact gives_failure
    . exact gives_mergeAll hall items
  | .mapping entries =>
    rw [merge]
    refine gives_bind_any ?_
    intro _
    exact gives_complete (gives_ownEntries hall entries)
  | .alias name target =>
    rw [merge]
    refine gives_bind_any ?_
    intro _
    exact gives_mergeTarget hall target

theorem gives_mergeAll {asText aliased : Bool} {all : Entries}
    (hall : WellKeyedEntries all.entries) (ns : List Node) :
    Gives (fun all => WellKeyedEntries all.entries) (mergeAll asText aliased ns all) := by
  cases ns with
  | nil =>
    rw [mergeAll]
    exact gives_pure hall
  | cons n ns =>
    rw [mergeAll]
    refine gives_bind (gives_merge hall n) ?_
    intro all' hall'
    exact gives_mergeAll hall' ns

theorem gives_mergeTarget {asText : Bool} {all : Entries}
    (hall : WellKeyedEntries all.entries) (target : Option Node) :
    Gives (fun all => WellKeyedEntries all.entries) (mergeTarget asText target all) := by
  match target with
  | some (.mapping entries) =>
    rw [mergeTarget]
    refine gives_bind_any ?_
    intro _
    exact gives_complete (gives_ownEntries hall entries)
  | none | some (.scalar _ _ _) | some (.sequence _) | some (.alias _ _) =>
    rw [mergeTarget]
    . exact gives_failure
    . simp

end

theorem wellKeyed_of_root? {n : Node} {d : Document} (h : n.root? = some d) : d.WellKeyed := by
  have hread : Gives Document.WellKeyed (root?.read n) := by
    unfold root?.read
    refine gives_bind_any ?_
    intro _
    split
    . split
      . exact gives_pure (.scalar _)
      . exact gives_failure
    . next entries =>
      refine gives_bind (gives_complete (gives_ownEntries wellKeyedEntries_nil entries)) ?_
      intro all hall
      exact gives_pure (hall.wellKeyed_tableOf _)
    . exact gives_failure
  obtain ⟨⟨d, t⟩, hrun, rfl⟩ := Option.map_eq_some_iff.1 h
  exact hread _ d t hrun

end Node

theorem wellKeyed_of_parse? {text : String} {d : Document} (h : parse? text = some d) :
    d.WellKeyed := by
  unfold parse? at h
  extract_lets source cs at h
  clear_value cs
  split at h
  . split at h
    . exact Node.wellKeyed_of_root? h
    . cases h
      exact .scalar _
    . cases h
  . cases h

end IdlCompiler.Yaml
