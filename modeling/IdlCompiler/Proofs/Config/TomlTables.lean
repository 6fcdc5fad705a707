import IdlCompiler.Config.Toml
import IdlCompiler.Proofs.Config.WellKeyed

/-!
This module contains that TOML documents have no table with a key twice. Every statement keeps the
tables that are built up that way, and so do the values in it.
-/

namespace IdlCompiler.Toml

namespace Tables

variable {t t' : Tables} {key path : Key} {name : String} {d : Document}
  {entries entries' : List (String × Document)}

theorem wellKeyed_put (hd : d.WellKeyed) (h : (Document.table entries).WellKeyed) :
    (Document.table (put name d key entries)).WellKeyed := by
  induction key generalizing entries with
  | nil => exact h.insert name hd
  | cons first key ih =>
    rw [put]
    split
    . next inner hinner =>
      exact h.insert first (ih (h.of_lookup hinner))
    . next items hitems =>
      have htables := h.of_lookup hitems
      have hlast : (Document.table (items.getLast?.getD [])).WellKeyed := by
        cases hgetLast : items.getLast? with
        | none => exact .nil
        | some last => exact htables.of_mem_tables (List.mem_of_getLast? hgetLast)
      apply h.insert first
      apply Document.WellKeyed.tables
      intro inner hinner
      rw [List.mem_append, List.mem_singleton] at hinner
      rcases hinner with hfront | rfl
      . exact htables.of_mem_tables (List.dropLast_subset items hfront)
      . exact ih hlast
    . exact h

theorem wellKeyed_entries? (h : (Document.table entries).WellKeyed)
    (hentries : entries? entries key = some entries') : (Document.table entries').WellKeyed := by
  induction key generalizing entries with
  | nil =>
    cases hentries
    exact h
  | cons first key ih =>
    rw [entries?] at hentries
    split at hentries
    . next inner hinner => exact ih (h.of_lookup hinner) hentries
    . next items hitems =>
      obtain ⟨last, hlast, hentries⟩ := Option.bind_eq_some_iff.1 hentries
      exact ih ((h.of_lookup hitems).of_mem_tables (List.mem_of_getLast? hlast)) hentries
    . cases hentries

theorem wellKeyed_insert? (hd : d.WellKeyed) (h : (Document.table entries).WellKeyed)
    (hinsert : insert? d key entries = some entries') :
    (Document.table entries').WellKeyed := by
  induction key generalizing entries entries' with
  | nil => cases hinsert
  | cons first key ih =>
    cases key with
    | nil =>
      cases hinsert
      exact h.insert first hd
    | cons second key =>
      rw [insert?] at hinsert
      . split at hinsert
        . obtain ⟨inner, hinner, rfl⟩ := Option.map_eq_some_iff.1 hinsert
          exact h.insert first (ih .nil hinner)
        . next hlookup =>
          obtain ⟨inner, hinner, rfl⟩ := Option.map_eq_some_iff.1 hinsert
          exact h.insert first (ih (h.of_lookup hlookup) hinner)
        . cases hinsert
      . simp

def WellKeyed (t : Tables) : Prop :=
  (Document.table t.root).WellKeyed

namespace WellKeyed

theorem of_lookup? (ht : t.WellKeyed) (h : t.lookup? key name = some (some d)) : d.WellKeyed := by
  obtain ⟨entries, hentries, hlookup⟩ := Option.map_eq_some_iff.1 h
  exact (wellKeyed_entries? ht hentries).of_lookup hlookup

theorem addOpen (ht : t.WellKeyed) (key : Key) : (t.addOpen key).WellKeyed := ht

theorem noteArray (ht : t.WellKeyed) (key : Key) (isArray : Bool) :
    (t.noteArray key isArray).WellKeyed := ht

theorem set? (ht : t.WellKeyed) (hd : d.WellKeyed) (h : t.set? key name d = some t') :
    t'.WellKeyed := by
  unfold Tables.set? at h
  dsimp only at h
  split at h
  . cases h
  . cases h
    exact wellKeyed_put hd ht
  . split at h
    . cases h
      exact wellKeyed_put hd ht
    . split at h
      . cases h
        exact ht
      . cases h

theorem reach? (ht : t.WellKeyed) {done : Key} (h : t.reach? done key = some t') :
    t'.WellKeyed := by
  induction key generalizing t done with
  | nil =>
    cases h
    exact ht
  | cons name key ih =>
    rw [Tables.reach?] at h
    dsimp only at h
    split at h
    . refine ih ?_ h
      exact wellKeyed_put .nil ht
    . exact ih ht h
    . exact ih ht h
    . cases h

theorem enter? (ht : t.WellKeyed) {isItem : Bool} (h : t.enter? key isItem = some t') :
    t'.WellKeyed := by
  unfold Tables.enter? at h
  dsimp only at h
  split at h
  . next t₁ name hreach _ =>
    have ht₁ : t₁.WellKeyed := ht.reach? hreach
    split at h
    . split at h
      . cases h
        apply wellKeyed_put _ ht₁
        exact .tables (by simp)
      . next items hlookup =>
        cases h
        apply wellKeyed_put _ ht₁
        apply Document.WellKeyed.tables
        intro inner hinner
        rw [List.mem_append, List.mem_singleton] at hinner
        rcases hinner with hitem | rfl
        . exact (ht₁.of_lookup? hlookup).of_mem_tables hitem
        . exact .nil
      . cases h
    . exact ht₁.set? .nil h
  . cases h

theorem enterAll? (ht : t.WellKeyed) {done : Key} (h : t.enterAll? done key = some t') :
    t'.WellKeyed := by
  induction key generalizing t done with
  | nil =>
    cases h
    exact ht
  | cons name key ih =>
    rw [Tables.enterAll?] at h
    split at h
    . next t₁ henter =>
      exact ih ((ht.addOpen _).enter? henter) h
    . cases h

mutual

theorem document? {t t' : Tables} (ht : t.WellKeyed) {key : Key} {name : String} {inArray : Bool}
    {v : Literal} {d : Document} (h : t.document? key name inArray v = some (d, t')) :
    d.WellKeyed ∧ t'.WellKeyed := by
  cases v with
  | scalar s =>
    cases h
    exact ⟨.scalar s, ht⟩
  | array items =>
    rw [Tables.document?] at h
    exact (ht.noteArray _ _).documents? (by simp) h
  | table entries =>
    rw [Tables.document?] at h
    split at h
    . next t₁ henter =>
      exact ((ht.addOpen _).enter? henter).table? .nil h
    . cases h

theorem documents? {t t' : Tables} (ht : t.WellKeyed) {key : Key} {name : String}
    {acc : List Document} (hacc : ∀ d ∈ acc, d.WellKeyed) {vs : List Literal} {d : Document}
    (h : t.documents? key name acc vs = some (d, t')) :
    d.WellKeyed ∧ t'.WellKeyed := by
  cases vs with
  | nil =>
    cases h
    exact ⟨.list (by simpa using hacc), ht⟩
  | cons v vs =>
    rw [Tables.documents?] at h
    split at h
    . next d₁ t₁ hv =>
      have hfirst := ht.document? hv
      exact hfirst.2.documents? (List.forall_mem_cons.2 ⟨hfirst.1, hacc⟩) h
    . cases h

theorem table? {t t' : Tables} (ht : t.WellKeyed) {key : Key} {acc : List (String × Document)}
    (hacc : (Document.table acc).WellKeyed) {rest : List (Key × Literal)} {d : Document}
    (h : t.table? key acc rest = some (d, t')) : d.WellKeyed ∧ t'.WellKeyed := by
  match rest with
  | [] =>
    cases h
    exact ⟨hacc, ht⟩
  | (path, v) :: rest =>
    rw [Tables.table?] at h
    split at h
    . cases h
    . next t₁ henter =>
      split at h
      . cases h
      . next d₁ t₂ hv =>
        have hvalue := (ht.enterAll? henter).document? hv
        split at h
        . next t₃ acc₁ hset hinsert =>
          have hset := (hvalue.2.set? hvalue.1 hset).noteArray
          exact (hset _ _).table? (wellKeyed_insert? hvalue.1 hacc hinsert) h
        . cases h

end

theorem step? (ht : t.WellKeyed) {s : Statement} {key' : Key}
    (h : t.step? key s = some (t', key')) : t'.WellKeyed := by
  cases s with
  | table header =>
    obtain ⟨t₁, henter, hnoted⟩ := Option.map_eq_some_iff.1 h
    cases hnoted
    exact (ht.enter? henter).noteArray _ _
  | tableItem header =>
    obtain ⟨t₁, henter, hnoted⟩ := Option.map_eq_some_iff.1 h
    cases hnoted
    exact (ht.enter? henter).noteArray _ _
  | entry path v =>
    rw [Tables.step?] at h
    split at h
    . cases h
    . next t₁ henter =>
      split at h
      . cases h
      . next d₁ t₂ hv =>
        have hvalue := (ht.enterAll? henter).document? hv
        obtain ⟨t₃, hset, hnoted⟩ := Option.map_eq_some_iff.1 h
        cases hnoted
        exact (hvalue.2.set? hvalue.1 hset).noteArray _ _

theorem run? (ht : t.WellKeyed) {ss : List Statement} (h : t.run? key ss = some t') :
    t'.WellKeyed := by
  induction ss generalizing t key with
  | nil =>
    cases h
    exact ht
  | cons s ss ih =>
    rw [Tables.run?] at h
    split at h
    . next hstep => exact ih (ht.step? hstep) h
    . cases h

end WellKeyed

end Tables

theorem wellKeyed_of_parse? {text : String} {d : Document} (h : parse? text = some d) :
    d.WellKeyed := by
  have hempty : Tables.WellKeyed {} := Document.WellKeyed.nil
  unfold parse? at h
  extract_lets source cs at h
  clear_value cs
  split at h
  . split at h
    . obtain ⟨t, hrun, rfl⟩ := Option.map_eq_some_iff.1 h
      exact hempty.run? hrun
    . cases h
  . cases h

end IdlCompiler.Toml
