import IdlCompiler.Config.Document
import Mathlib.Data.List.Nodup

/-!
This module contains documents in which no table has a key twice. Putting an entry into a table keeps
it that way, and so all JSON values give such documents.
-/

namespace IdlCompiler

namespace Document

/--
No table with texts as keys has a key twice, however deep it is in a document.
-/
inductive WellKeyed : Document → Prop
  | scalar (value : Scalar) : WellKeyed (.scalar value)
  | list {items : List Document} : (∀ d ∈ items, WellKeyed d) → WellKeyed (.list items)
  | table {entries : List (String × Document)} : (entries.map (·.1)).Nodup →
      (∀ entry ∈ entries, WellKeyed entry.2) → WellKeyed (.table entries)
  | tables {items : List (List (String × Document))} :
      (∀ entries ∈ items, WellKeyed (.table entries)) → WellKeyed (.tables items)
  | keyed {entries : List (Scalar × Document)} : (∀ entry ∈ entries, WellKeyed entry.2) →
      WellKeyed (.keyed entries)

@[simp]
theorem wellKeyed_scalar (value : Scalar) : (Document.scalar value).WellKeyed :=
  .scalar value

@[simp]
theorem wellKeyed_list_iff {items : List Document} :
    (Document.list items).WellKeyed ↔ ∀ d ∈ items, d.WellKeyed := by
  constructor
  . rintro (_ | hitems)
    exact hitems
  . exact .list

@[simp]
theorem wellKeyed_table_iff {entries : List (String × Document)} :
    (Document.table entries).WellKeyed ↔
      (entries.map (·.1)).Nodup ∧ ∀ entry ∈ entries, entry.2.WellKeyed := by
  constructor
  . rintro (_ | _ | ⟨hkeys, hvalues⟩)
    exact ⟨hkeys, hvalues⟩
  . rintro ⟨hkeys, hvalues⟩
    exact .table hkeys hvalues

namespace WellKeyed

variable {entries : List (String × Document)}

theorem nil : WellKeyed (.table []) := by simp

theorem nodup_keys (h : WellKeyed (.table entries)) : (entries.map (·.1)).Nodup :=
  (wellKeyed_table_iff.1 h).1

theorem of_mem (h : WellKeyed (.table entries)) {entry : String × Document}
    (hentry : entry ∈ entries) : entry.2.WellKeyed :=
  (wellKeyed_table_iff.1 h).2 entry hentry

theorem of_mem_tables {items : List (List (String × Document))} (h : WellKeyed (.tables items))
    (hentries : entries ∈ items) : WellKeyed (.table entries) := by
  cases h with
  | tables hall => exact hall entries hentries

theorem of_lookup (h : WellKeyed (.table entries)) {key : String} {d : Document}
    (hd : entries.lookup key = some d) : d.WellKeyed := by
  rw [List.lookup_eq_some_iff] at hd
  obtain ⟨front, back, rfl, -⟩ := hd
  have hentry : (key, d) ∈ front ++ (key, d) :: back := by simp
  exact h.of_mem hentry

theorem lookup_eq_some_iff (h : WellKeyed (.table entries)) {key : String} {d : Document} :
    entries.lookup key = some d ↔ (key, d) ∈ entries := by
  rw [List.lookup_eq_some_iff]
  constructor
  . rintro ⟨front, back, rfl, -⟩
    simp
  . intro hmem
    obtain ⟨front, back, rfl⟩ := List.append_of_mem hmem
    refine ⟨front, back, rfl, ?_⟩
    have hkeys := h.nodup_keys
    rw [List.map_append, List.map_cons, List.nodup_append] at hkeys
    intro other hother
    rw [bne_iff_ne]
    exact (hkeys.2.2 _ (List.mem_map_of_mem hother) _ List.mem_cons_self).symm

theorem insert (h : WellKeyed (.table entries)) (key : String) {d : Document} (hd : d.WellKeyed) :
    WellKeyed (.table (insert key d entries)) := by
  have hothers : (entries.filter (·.1 ≠ key)).Sublist entries := List.filter_sublist
  unfold Document.insert
  apply WellKeyed.table
  . rw [List.map_append, List.map_singleton, List.nodup_append]
    refine ⟨h.nodup_keys.sublist (hothers.map _), List.nodup_singleton key, ?_⟩
    intro other hother _ hkey
    obtain ⟨entry, hentry, rfl⟩ := List.mem_map.1 hother
    rw [List.mem_singleton.1 hkey]
    simpa using (List.mem_filter.1 hentry).2
  . intro entry hentry
    rw [List.mem_append, List.mem_singleton] at hentry
    rcases hentry with hother | rfl
    . exact h.of_mem (hothers.subset hother)
    . exact hd

end WellKeyed

mutual

theorem wellKeyed_of_ofJson? {value : Json} {d : Document} (h : ofJson? value = some d) :
    d.WellKeyed := by
  cases value with
  | null =>
    cases h
    exact .scalar _
  | bool b =>
    cases h
    exact .scalar _
  | number n =>
    obtain ⟨x, -, rfl⟩ := Option.map_eq_some_iff.1 h
    exact .scalar _
  | string s =>
    cases h
    exact .scalar _
  | array items =>
    obtain ⟨ds, hds, rfl⟩ := Option.map_eq_some_iff.1 h
    exact .list (wellKeyed_of_ofItems? hds)
  | object members =>
    obtain ⟨entries, hentries, rfl⟩ := Option.map_eq_some_iff.1 h
    exact wellKeyed_of_ofMembers? .nil hentries

theorem wellKeyed_of_ofItems? {values : List Json} {ds : List Document}
    (h : ofItems? values = some ds) : ∀ d ∈ ds, d.WellKeyed := by
  cases values with
  | nil =>
    cases h
    simp
  | cons v vs =>
    rw [ofItems?] at h
    split at h
    . next d ds hd hds =>
      cases h
      rw [List.forall_mem_cons]
      exact ⟨wellKeyed_of_ofJson? hd, wellKeyed_of_ofItems? hds⟩
    . cases h

theorem wellKeyed_of_ofMembers? {entries entries' : List (String × Document)}
    {members : List (String × Json)} (hentries : WellKeyed (.table entries))
    (h : ofMembers? entries members = some entries') : WellKeyed (.table entries') := by
  cases members with
  | nil =>
    cases h
    exact hentries
  | cons m ms =>
    obtain ⟨key, v⟩ := m
    rw [ofMembers?] at h
    split at h
    . next d hd => exact wellKeyed_of_ofMembers? (hentries.insert key (wellKeyed_of_ofJson? hd)) h
    . cases h

end

theorem wellKeyed_of_parseJson? {text : String} {d : Document} (h : parseJson? text = some d) :
    d.WellKeyed := by
  unfold parseJson? at h
  split at h
  . split at h
    . exact wellKeyed_of_ofJson? h
    . cases h
  . cases h

end Document

end IdlCompiler
