import IdlCompiler.Proofs.Declaration.Load

/-!
This module contains which interfaces have members of distinct names. Merging refuses a member whose
name is already there, but nothing compares the members of the first part with each other: what was
loaded has members of distinct names exactly if the first part has.
-/

namespace IdlCompiler

namespace Member

variable {α : Type} [Member α] {known later : List α} {m : α}

def Distinct (ms : List α) : Prop :=
  (ms.map name).Nodup

theorem distinct_append_singleton_iff (h : ∀ m' ∈ known, name m' ≠ name m) :
    Distinct (known ++ [m]) ↔ Distinct known := by
  unfold Distinct
  rw [List.map_append, List.map_singleton, List.nodup_append]
  constructor
  . intro hdistinct
    exact hdistinct.1
  . intro hdistinct
    refine ⟨hdistinct, List.nodup_singleton _, ?_⟩
    intro first hfirst second hsecond
    rcases List.mem_map.1 hfirst with ⟨m', hm', rfl⟩
    rw [List.mem_singleton.1 hsecond]
    exact h m' hm'

theorem distinct_append_iff (h : Fresh known later) :
    Distinct (known ++ later) ↔ Distinct known := by
  induction later generalizing known with
  | nil => rw [List.append_nil]
  | cons m later ih =>
    rw [fresh_cons] at h
    have hsplit : known ++ m :: later = known ++ [m] ++ later := by simp
    rw [hsplit, ih h.2]
    exact distinct_append_singleton_iff h.1

end Member

namespace Declaration

variable {s : Schema} {files : FileTree} {c first : Declaration} {others ds cs : List Declaration}

theorem distinct_flatMap_iff {α : Type} [Member α] {members : Declaration → List α}
    (h : Member.Fresh (((first :: others).take 1).flatMap members)
      (((first :: others).drop 1).flatMap members)) :
    Member.Distinct ((first :: others).flatMap members) ↔ Member.Distinct (members first) := by
  rw [List.take_succ_cons, List.drop_succ_cons, List.take_zero, List.drop_zero,
    List.flatMap_singleton] at h
  rw [List.flatMap_cons]
  exact Member.distinct_append_iff h

theorem distinct_attributes_gather_iff (h : Mergeable (first :: others)) :
    Member.Distinct (gather (first :: others) first).attributes ↔
      Member.Distinct first.attributes := by
  cases first with
  | enum e => rfl
  | interface i => exact distinct_flatMap_iff h.fresh_attributes

theorem distinct_operations_gather_iff (h : Mergeable (first :: others)) :
    Member.Distinct (gather (first :: others) first).operations ↔
      Member.Distinct first.operations := by
  cases first with
  | enum e => rfl
  | interface i => exact distinct_flatMap_iff h.fresh_operations

theorem find?_eq_head?_named (name : String) (ds : List Declaration) :
    ds.find? (·.name = name) = (named name ds).head? := by
  unfold named
  rw [List.head?_filter]

/--
The members of what was loaded have distinct names exactly if those of the first declaration of its
name have.
-/
theorem distinct_members_of_load_iff {paths : List String}
    (hload : (load s files paths).result = .ok cs) :
    ∃ dss : List (List Declaration),
      paths.map (fun path => (loadFile s files path).result) = dss.map .ok ∧
        ∀ c ∈ cs, ∃ first, dss.flatten.find? (·.name = c.name) = some first ∧
          (Member.Distinct c.attributes ↔ Member.Distinct first.attributes) ∧
          (Member.Distinct c.operations ↔ Member.Distinct first.operations) := by
  rcases exists_of_load hload with ⟨dss, hfiles, hmergeable, rfl⟩
  refine ⟨dss, hfiles, ?_⟩
  intro c hc
  rcases exists_of_mem_gatherAll hc with ⟨first, others, hnamed, hgather⟩
  have hparts : Mergeable (first :: others) := by
    rw [← hnamed]
    exact hmergeable c.name
  refine ⟨first, ?_, ?_, ?_⟩
  . rw [find?_eq_head?_named, hnamed, List.head?_cons]
  . rw [hgather]
    exact distinct_attributes_gather_iff hparts
  . rw [hgather]
    exact distinct_operations_gather_iff hparts

theorem distinct_members_of_load_twoParts :
    (load ⟨fun _ => []⟩ twoParts ["a.idl", "b.idl"]).result =
        .ok (gatherAll [firstPart, secondPart]) ∧
      ∃ dss : List (List Declaration),
        ["a.idl", "b.idl"].map (fun path => (loadFile ⟨fun _ => []⟩ twoParts path).result) =
            dss.map .ok ∧
          ∀ c ∈ gatherAll [firstPart, secondPart],
            ∃ first, dss.flatten.find? (·.name = c.name) = some first ∧
              (Member.Distinct c.attributes ↔ Member.Distinct first.attributes) ∧
              (Member.Distinct c.operations ↔ Member.Distinct first.operations) := by
  have hload : (load ⟨fun _ => []⟩ twoParts ["a.idl", "b.idl"]).result =
      .ok (gatherAll [firstPart, secondPart]) := by
    cbv
  exact ⟨hload, distinct_members_of_load_iff hload⟩

def repeatedMembers : FileTree where
  entries := [
    ("a.idl", .file
      "interface A { attribute long x; attribute short x; long f(); long f(short x); };\n")]

def repeating : Declaration :=
  .interface {
    header := ⟨"A", ⟨"a.idl", 1, 11⟩, false, [], []⟩
    base := none
    attributes := [
      ⟨"x", .simple "long", ⟨"a.idl", 1, 30⟩, [], []⟩,
      ⟨"x", .simple "short", ⟨"a.idl", 1, 49⟩, [], []⟩]
    operations := [
      ⟨"f", .simple "long", [], ⟨"a.idl", 1, 57⟩, [], []⟩,
      ⟨"f", .simple "long", [⟨"x", .simple "short", ⟨"a.idl", 1, 75⟩, [], []⟩],
        ⟨"a.idl", 1, 67⟩, [], []⟩] }

theorem not_distinct_members_of_load_repeating :
    (load ⟨fun _ => []⟩ repeatedMembers ["a.idl"]).result = .ok [repeating] ∧
      ¬Member.Distinct repeating.attributes ∧ ¬Member.Distinct repeating.operations := by
  refine ⟨by cbv, ?_, ?_⟩
  . simp [Member.Distinct, repeating, attributes, Member.name]
  . simp [Member.Distinct, repeating, operations, Member.name]

end Declaration

end IdlCompiler
