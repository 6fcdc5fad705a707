import IdlCompiler.Declaration.Load
import IdlCompiler.Proofs.Declaration.Merge
import IdlCompiler.Proofs.Grammar.Files
import Mathlib

/-!
This module contains what loading several files means: their declarations are merged as if all of
them stood in one file.
-/

namespace IdlCompiler.Declaration

variable {s : Schema} {files : FileTree} {known cs : List Declaration}

theorem enumsComplete_of_valid {f : Grammar.File} (h : f.Valid s) :
    EnumsComplete (f.declarations s) := by
  intro e he
  rcases List.mem_map.1 he with ⟨i, hi, hdeclared⟩
  unfold Grammar.Item.declaration at hdeclared
  split at hdeclared
  . next items hbody =>
    simp only [enum.injEq] at hdeclared
    subst hdeclared
    exact (h i hi).not_partial ⟨items, hbody⟩
  . simp at hdeclared

theorem exists_file_of_ofSource {file : String} {src : List Text.Glyph} {ds : List Declaration}
    (h : (ofSource s file src).result = .ok ds) :
    ∃ stream f, TokenStream.ofSource file src = .ok stream ∧
      Grammar.FileDerives (TokenStream.upToEnd stream.endPos stream.tokens) f ∧ f.Valid s ∧
      f.declarations s = ds := by
  unfold ofSource at h
  split at h
  . simp [Outcome.fail] at h
  . next stream hstream =>
    rcases fileDerives_of_readAll (Except.mapError_eq_ok_iff.1 h) with
      ⟨f, hderives, hvalid, hdeclared⟩
    exact ⟨stream, f, hstream, hderives, hvalid, hdeclared⟩

theorem enumsComplete_of_loadFile {path : String} {ds : List Declaration}
    (h : (loadFile s files path).result = .ok ds) : EnumsComplete ds := by
  unfold loadFile at h
  split at h
  . simp [Outcome.fail] at h
  . rcases exists_file_of_ofSource h with ⟨_, f, _, _, hvalid, rfl⟩
    exact enumsComplete_of_valid hvalid

theorem EnumsComplete.append {ds ds' : List Declaration} (h : EnumsComplete ds)
    (h' : EnumsComplete ds') : EnumsComplete (ds ++ ds') := by
  intro e he
  rcases List.mem_append.1 he with he | he
  . exact h e he
  . exact h' e he

theorem loadMore_gatherAll_eq_ok_iff {paths : List String} {dss : List (List Declaration)}
    (hfiles : paths.map (fun path => (loadFile s files path).result) = dss.map .ok)
    (henums : EnumsComplete known) (hknown : ∀ name, Mergeable (named name known)) :
    (loadMore s files (gatherAll known) paths).result = .ok cs ↔
      (∀ name, Mergeable (named name (known ++ dss.flatten))) ∧
        cs = gatherAll (known ++ dss.flatten) := by
  -- What is there is always what the declarations in `known` mean together, to which one file after
  -- the other is added.
  induction paths generalizing known dss with
  | nil =>
    cases dss with
    | nil => simp [loadMore, hknown, eq_comm]
    | cons ds dss => simp at hfiles
  | cons path paths ih =>
    cases dss with
    | nil => simp at hfiles
    | cons ds dss =>
      simp only [List.map_cons, List.cons.injEq] at hfiles
      have henums' := henums.append (enumsComplete_of_loadFile hfiles.1)
      rw [loadMore, Outcome.result_bind_of_ok hfiles.1, Outcome.lift_bind_eq_ok_iff,
        List.flatten_cons, ← List.append_assoc]
      constructor
      . rintro ⟨next, hinsert, hrest⟩
        rw [Except.mapError_eq_ok_iff, insertAll_gatherAll_eq_ok_iff hknown henums'] at hinsert
        rcases hinsert with ⟨hmergeable, rfl⟩
        exact (ih hfiles.2 henums' hmergeable).1 hrest
      . rintro ⟨hmergeable, rfl⟩
        have hnext (name : String) : Mergeable (named name (known ++ ds)) := by
          have h := hmergeable name
          rw [named_append] at h
          exact h.of_append
        refine ⟨gatherAll (known ++ ds), ?_, (ih hfiles.2 henums' hnext).2 ⟨hmergeable, rfl⟩⟩
        rw [Except.mapError_eq_ok_iff, insertAll_gatherAll_eq_ok_iff hknown henums']
        exact ⟨hnext, rfl⟩

theorem exists_of_loadMore {paths : List String}
    (h : (loadMore s files known paths).result = .ok cs) :
    ∃ dss : List (List Declaration),
      paths.map (fun path => (loadFile s files path).result) = dss.map .ok := by
  induction paths generalizing known with
  | nil => exact ⟨[], rfl⟩
  | cons path paths ih =>
    rw [loadMore] at h
    rcases Outcome.bind_eq_ok_iff.1 h with ⟨ds, hds, h⟩
    rcases Outcome.lift_bind_eq_ok_iff.1 h with ⟨next, _, h⟩
    rcases ih h with ⟨dss, hdss⟩
    exact ⟨ds :: dss, by rw [List.map_cons, List.map_cons, hds, hdss]⟩

theorem mem_of_map_loadFile_eq {paths : List String} {dss : List (List Declaration)}
    (hfiles : paths.map (fun path => (loadFile s files path).result) = dss.map .ok)
    {ds : List Declaration} (hds : ds ∈ dss) : ∃ path, (loadFile s files path).result = .ok ds := by
  have hmem : .ok ds ∈ paths.map (fun path => (loadFile s files path).result) := by
    rw [hfiles]
    exact List.mem_map_of_mem hds
  rcases List.mem_map.1 hmem with ⟨path, _, hpath⟩
  exact ⟨path, hpath⟩

theorem exists_of_load {paths : List String} (h : (load s files paths).result = .ok cs) :
    ∃ dss : List (List Declaration),
      paths.map (fun path => (loadFile s files path).result) = dss.map .ok ∧
        (∀ name, Mergeable (named name dss.flatten)) ∧ cs = gatherAll dss.flatten := by
  have hnone : EnumsComplete [] := fun e he => absurd he List.not_mem_nil
  have hempty : gatherAll [] = [] := by rw [gatherAll]
  rcases exists_of_loadMore h with ⟨dss, hfiles⟩
  rw [load, ← hempty] at h
  exact ⟨dss, hfiles, (loadMore_gatherAll_eq_ok_iff hfiles hnone fun _ => mergeable_nil).1 h⟩

/--
Files that can be read on their own, with the declarations `dss`, can be loaded together exactly if
the declarations of each name can be merged, and loading gives what all declarations mean together.
-/
theorem result_load_eq_ok_iff {paths : List String} {dss : List (List Declaration)}
    (hfiles : paths.map (fun path => (loadFile s files path).result) = dss.map .ok)
    (cs : List Declaration) :
    (load s files paths).result = .ok cs ↔
      (∀ name, Mergeable (named name dss.flatten)) ∧ cs = gatherAll dss.flatten := by
  have hnone : EnumsComplete [] := fun e he => absurd he List.not_mem_nil
  have h := @loadMore_gatherAll_eq_ok_iff s files [] cs paths dss hfiles hnone
    fun _ => mergeable_nil
  rwa [gatherAll, List.nil_append] at h

def twoParts : FileTree where
  entries := [
    ("a.idl", .file "partial interface A : B \x7b attribute long x; \x7d;\n"),
    ("b.idl", .file "interface A \x7b attribute long y; \x7d;\n")]

def firstPart : Declaration :=
  .interface {
    header := ⟨"A", ⟨"a.idl", 1, 19⟩, true, [], []⟩
    base := some "B"
    attributes := [⟨"x", .simple "long", ⟨"a.idl", 1, 42⟩, [], []⟩]
    operations := [] }

def secondPart : Declaration :=
  .interface {
    header := ⟨"A", ⟨"b.idl", 1, 11⟩, false, [], []⟩
    base := none
    attributes := [⟨"y", .simple "long", ⟨"b.idl", 1, 30⟩, [], []⟩]
    operations := [] }

theorem mergeable_twoParts (name : String) : Mergeable (named name [firstPart, secondPart]) := by
  have hname : firstPart.name = "A" := rfl
  have hname' : secondPart.name = "A" := rfl
  by_cases h : "A" = name
  . have hnamed : named name [firstPart, secondPart] = [firstPart] ++ [secondPart] := by
      simp [named, hname, hname', h]
    rw [hnamed]
    refine mergeable_append_singleton_iff.2
      ⟨mergeable_singleton _, rfl, by decide, ?_, Member.fresh_nil⟩
    exact Member.fresh_cons.2 ⟨by simp [firstPart, attributes, Member.name], Member.fresh_nil⟩
  . have hnamed : named name [firstPart, secondPart] = [] := by
      simp [named, hname, hname', h]
    rw [hnamed]
    exact mergeable_nil

theorem result_load_twoParts :
    ["a.idl", "b.idl"].map (fun path => (loadFile ⟨fun _ => []⟩ twoParts path).result) =
        [[firstPart], [secondPart]].map .ok ∧
      (load ⟨fun _ => []⟩ twoParts ["a.idl", "b.idl"]).result =
        .ok (gatherAll [firstPart, secondPart]) := by
  have hfiles : ["a.idl", "b.idl"].map (fun path => (loadFile ⟨fun _ => []⟩ twoParts path).result) =
      [[firstPart], [secondPart]].map .ok := by
    cbv
  exact ⟨hfiles, (result_load_eq_ok_iff hfiles _).2 ⟨mergeable_twoParts, rfl⟩⟩

end IdlCompiler.Declaration
