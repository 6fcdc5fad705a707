import IdlCompiler.Proofs.Declaration.Load

/-!
This module contains what is reported about declarations that cannot be merged: the first one that
does not fit to those in front of it, or the first of its members that is already there. The one note
points to the declaration or to the member that it does not fit to.
-/

namespace IdlCompiler

namespace Member

variable {α : Type} [Member α] {owner : String} {known later members ms : List α} {m p : α}
  {e : Diagnostic}

/--
The member `m` is the first one of `later` whose name is already there, and `p` is the last member of
this name in front of it.
-/
def Repeats (known later : List α) (m p : α) : Prop :=
  ∃ before after front back, later = before ++ m :: after ∧ Fresh known before ∧
    known ++ before = front ++ p :: back ∧ name p = name m ∧ ∀ q ∈ back, name q ≠ name m

def duplicate (owner : String) (m p : α) : Diagnostic where
  pos := pos m
  cause := .duplicateMember owner (name m)
  notes := [.previous (pos p)]

theorem repeats_cons (hnew : ∀ m' ∈ known, name m' ≠ name m) {m' : α}
    (h : Repeats (known ++ [m]) later m' p) : Repeats known (m :: later) m' p := by
  rcases h with ⟨before, after, front, back, rfl, hfresh, hsplit, hname, hlast⟩
  refine ⟨m :: before, after, front, back, rfl, fresh_cons.2 ⟨hnew, hfresh⟩, ?_, hname, hlast⟩
  rw [List.append_cons]
  exact hsplit

theorem exists_repeats_of_append (h : append owner members ms = .error e) :
    ∃ m p, Repeats members ms m p ∧ e = duplicate owner m p := by
  induction ms generalizing members with
  | nil => cases h
  | cons m ms ih =>
    rw [append] at h
    split at h
    . next p hfind =>
      cases h
      rcases List.find?_eq_some_iff_append.1 hfind with ⟨hname, back, front, hsplit, hlast⟩
      refine ⟨m, p, ⟨[], ms, front.reverse, back.reverse, rfl, fresh_nil, ?_, ?_, ?_⟩, rfl⟩
      . rw [List.append_nil, ← List.reverse_inj, hsplit]
        simp
      . simpa using hname
      . simpa using hlast
    . next hfind =>
      have hnew : ∀ m' ∈ members, name m' ≠ name m := by
        simpa using hfind
      rcases ih h with ⟨m', p, hrepeats, rfl⟩
      exact ⟨m', p, repeats_cons hnew hrepeats, rfl⟩

end Member

namespace Declaration

def NeitherPartial (parts : List Declaration) (d : Declaration) : Prop :=
  (∃ part ∈ parts, part.header.isPartial = false) ∧ d.header.isPartial = false

/--
What is reported about a declaration `d` that cannot be merged with the declarations of its name in
front of it, of which `first` is the first one. The cases come in the order of their preference.
-/
inductive Refusal (first : Declaration) (others : List Declaration) (d : Declaration) :
    Diagnostic → Prop
  | kind :
    first.keyword ≠ d.keyword →
      Refusal first others d {
        pos := d.header.pos
        cause := .kindChanged d.name first.keyword d.keyword
        notes := [.previous first.header.pos] }
  | complete :
    first.keyword = d.keyword → NeitherPartial (first :: others) d →
      Refusal first others d {
        pos := d.header.pos
        cause := .notPartial d.name
        notes := [.previous first.header.pos] }
  | attribute {a p : Attribute} :
    first.keyword = d.keyword → ¬NeitherPartial (first :: others) d →
      Member.Repeats ((first :: others).flatMap attributes) d.attributes a p →
      Refusal first others d (Member.duplicate first.name a p)
  | operation {o p : Operation} :
    first.keyword = d.keyword → ¬NeitherPartial (first :: others) d →
      Member.Fresh ((first :: others).flatMap attributes) d.attributes →
      Member.Repeats ((first :: others).flatMap operations) d.operations o p →
      Refusal first others d (Member.duplicate first.name o p)

variable {first d : Declaration} {others parts known ds : List Declaration} {e : Diagnostic}

theorem neitherPartial_iff :
    NeitherPartial parts d ↔ (!parts.all (·.header.isPartial) && !d.header.isPartial) := by
  unfold NeitherPartial
  simp

theorem refusal_of_merge {i j : Interface} {isPartial : Bool}
    (hneither : ¬NeitherPartial (.interface i :: others) (.interface j))
    (h : Interface.merge {
      header := { i.header with isPartial }
      base := i.base
      attributes := (.interface i :: others).flatMap attributes
      operations := (.interface i :: others).flatMap operations } j = .error e) :
    Refusal (.interface i) others (.interface j) e := by
  unfold Interface.merge at h
  rcases Except.bind_eq_error_iff.1 h with hattributes | ⟨as, hattributes, h⟩
  . rcases Member.exists_repeats_of_append hattributes with ⟨a, p, hrepeats, rfl⟩
    exact .attribute rfl hneither hrepeats
  . have hfresh := (Member.append_eq_ok_iff.1 hattributes).1
    rcases Except.bind_eq_error_iff.1 h with hoperations | ⟨os, -, h⟩
    . rcases Member.exists_repeats_of_append hoperations with ⟨o, p, hrepeats, rfl⟩
      exact .operation rfl hneither hfresh hrepeats
    . cases h

theorem refusal_of_merge_gather (henums : EnumsComplete (first :: others ++ [d]))
    (h : merge (gather (first :: others) first) d = .error e) : Refusal first others d e := by
  have hpos : (gather (first :: others) first).header.pos = first.header.pos := by
    cases first <;> rfl
  unfold merge at h
  dsimp only at h
  rw [keyword_gather, isPartial_gather, hpos] at h
  split at h
  . next hkind =>
    cases h
    exact .kind hkind
  . next hkind =>
    rw [Decidable.not_not] at hkind
    split at h
    . next hneither =>
      cases h
      exact .complete hkind (neitherPartial_iff.2 hneither)
    . next hneither =>
      rw [← neitherPartial_iff] at hneither
      cases first with
      | enum i =>
        -- An enumeration is complete, and so is another one of its name.
        have hi := henums i (by simp)
        cases d with
        | enum j => exact absurd ⟨⟨.enum i, by simp, hi⟩, henums j (by simp)⟩ hneither
        | interface j => simp [keyword] at hkind
      | interface i =>
        cases d with
        | enum j => simp [keyword] at hkind
        | interface j => exact refusal_of_merge hneither (Except.map_eq_error_iff.1 h)

theorem exists_merge_of_insert {cs : List Declaration} (h : insert d cs = .error e) :
    ∃ c ∈ cs, c.name = d.name ∧ merge c d = .error e := by
  induction cs with
  | nil => cases h
  | cons c cs ih =>
    rw [insert] at h
    split at h
    . next hname =>
      exact ⟨c, List.mem_cons_self, hname, Except.map_eq_error_iff.1 h⟩
    . rcases ih (Except.map_eq_error_iff.1 h) with ⟨c', hc', hname, hmerge⟩
      exact ⟨c', List.mem_cons_of_mem c hc', hname, hmerge⟩

theorem exists_refusal_of_insert (henums : EnumsComplete (known ++ [d]))
    (h : insert d (gatherAll known) = .error e) :
    ∃ first others, named d.name known = first :: others ∧ Refusal first others d e := by
  rcases exists_merge_of_insert h with ⟨c, hc, hname, hmerge⟩
  rcases exists_of_mem_gatherAll hc with ⟨first, others, hnamed, rfl⟩
  rw [hname] at hnamed
  refine ⟨first, others, hnamed, refusal_of_merge_gather (henums.sublist ?_) hmerge⟩
  rw [← hnamed]
  exact List.filter_sublist.append_right [d]

/--
The declarations `ds` behind `known` are merged up to the first one that cannot be merged with those
in front of it, and `e` is reported about this one.
-/
def Stops (known ds : List Declaration) (e : Diagnostic) : Prop :=
  ∃ before d after, ds = before ++ d :: after ∧
    (∀ name, Mergeable (named name (known ++ before))) ∧
    ¬Mergeable (named d.name (known ++ before ++ [d])) ∧
    ∃ first others, named d.name (known ++ before) = first :: others ∧ Refusal first others d e

theorem Stops.append_right (h : Stops known ds e) (more : List Declaration) :
    Stops known (ds ++ more) e := by
  rcases h with ⟨before, d, after, rfl, hstop⟩
  exact ⟨before, d, after ++ more, by simp, hstop⟩

theorem Stops.append_left {more : List Declaration} (h : Stops (known ++ more) ds e) :
    Stops known (more ++ ds) e := by
  rcases h with ⟨before, d, after, rfl, hstop⟩
  rw [List.append_assoc] at hstop
  exact ⟨more ++ before, d, after, by simp, hstop⟩

theorem stops_of_insertAll (hknown : ∀ name, Mergeable (named name known))
    (henums : EnumsComplete (known ++ ds)) (h : insertAll (gatherAll known) ds = .error e) :
    Stops known ds e := by
  induction ds generalizing known with
  | nil => cases h
  | cons d ds ih =>
    rw [List.append_cons] at henums
    have henums' := henums.sublist (List.sublist_append_left (known ++ [d]) ds)
    unfold insertAll at h ih
    rw [List.foldlM_cons] at h
    rcases Except.bind_eq_error_iff.1 h with hinsert | ⟨next, hinsert, h⟩
    . refine ⟨[], d, ds, rfl, ?_, ?_, ?_⟩
      . rw [List.append_nil]
        exact hknown
      . rw [List.append_nil]
        intro hmergeable
        have hok := (insert_gatherAll_eq_ok_iff hknown henums').2 ⟨hmergeable, rfl⟩
        rw [hinsert] at hok
        cases hok
      . rw [List.append_nil]
        exact exists_refusal_of_insert henums' hinsert
    . rcases (insert_gatherAll_eq_ok_iff hknown henums').1 hinsert with ⟨hmergeable, rfl⟩
      exact (ih (mergeable_named_append_singleton hknown hmergeable) henums h).append_left

variable {s : Schema} {files : FileTree}

theorem exists_stops_of_loadMore {paths : List String} {dss : List (List Declaration)}
    (hfiles : paths.map (fun path => (loadFile s files path).result) = dss.map .ok)
    (henums : EnumsComplete known) (hknown : ∀ name, Mergeable (named name known))
    (hmerge : ¬∀ name, Mergeable (named name (known ++ dss.flatten))) :
    ∃ e, Stops known dss.flatten e ∧ ∀ more,
      (loadMore s files (gatherAll known) (paths ++ more)).result = .error (.source e) := by
  -- The declarations of files that were merged go over to `known`.
  induction paths generalizing known dss with
  | nil =>
    cases dss with
    | nil =>
      rw [List.flatten_nil, List.append_nil] at hmerge
      exact absurd hknown hmerge
    | cons ds dss => simp at hfiles
  | cons path paths ih =>
    cases dss with
    | nil => simp at hfiles
    | cons ds dss =>
      simp only [List.map_cons, List.cons.injEq] at hfiles
      rw [List.flatten_cons] at hmerge ⊢
      have henums' := henums.append (enumsComplete_of_loadFile hfiles.1)
      have hload (more : List String) :
          (loadMore s files (gatherAll known) (path :: paths ++ more)).result =
            ((insertAll (gatherAll known) ds).mapError Error.source >>= fun next =>
              (loadMore s files next (paths ++ more)).result) := by
        rw [List.cons_append, loadMore, Outcome.result_bind_of_ok hfiles.1, Outcome.result_bind]
        rfl
      simp only [hload]
      cases hinsert : insertAll (gatherAll known) ds with
      | error e =>
        exact ⟨e, (stops_of_insertAll hknown henums' hinsert).append_right _, fun _ => rfl⟩
      | ok next =>
        rcases (insertAll_gatherAll_eq_ok_iff hknown henums').1 hinsert with ⟨hmergeable, rfl⟩
        rw [← List.append_assoc] at hmerge
        rcases ih hfiles.2 henums' hmergeable hmerge with ⟨e, hstops, hrest⟩
        exact ⟨e, hstops.append_left, hrest⟩

/--
If files can be read on their own, with the declarations `dss`, but not together, then this is the
error about the first declaration that cannot be merged with those in front of it. It is the same
whatever files come behind, and it says where the declaration or its first repeated member stands,
and where the one does that it does not fit to.
-/
theorem exists_refusal_of_load {paths : List String} {dss : List (List Declaration)} {error : Error}
    (hfiles : paths.map (fun path => (loadFile s files path).result) = dss.map .ok)
    (hload : (load s files paths).result = .error error) :
    ∃ before d after first others e, dss.flatten = before ++ d :: after ∧
      (∀ name, Mergeable (named name before)) ∧ ¬Mergeable (named d.name (before ++ [d])) ∧
      named d.name before = first :: others ∧ Refusal first others d e ∧
      error = .source e ∧
      ∀ more, (load s files (paths ++ more)).result = .error (.source e) := by
  have hnone : EnumsComplete [] := fun e he => absurd he List.not_mem_nil
  have hempty : gatherAll [] = [] := by rw [gatherAll]
  have hmerge : ¬∀ name, Mergeable (named name ([] ++ dss.flatten)) := by
    intro hmergeable
    rw [(result_load_eq_ok_iff hfiles _).2 ⟨hmergeable, rfl⟩] at hload
    cases hload
  rcases exists_stops_of_loadMore hfiles hnone (fun _ => mergeable_nil) hmerge with
    ⟨e, ⟨before, d, after, hsplit, hbefore, hd, first, others, hnamed, hrefusal⟩, hstop⟩
  rw [hempty] at hstop
  refine ⟨before, d, after, first, others, e, hsplit, hbefore, hd, hnamed, hrefusal, ?_, hstop⟩
  have hwhole := hstop []
  rw [List.append_nil] at hwhole
  exact Except.error.inj (hload.symm.trans hwhole)

def repeatedParts : FileTree where
  entries := [
    ("a.idl", .file "partial interface A \x7b attribute long x; attribute long x; \x7d;\n"),
    ("b.idl", .file "interface A \x7b attribute long y; attribute short x; \x7d;\n")]

def doubledPart : Declaration :=
  .interface {
    header := ⟨"A", ⟨"a.idl", 1, 19⟩, true, [], []⟩
    base := none
    attributes := [
      ⟨"x", .simple "long", ⟨"a.idl", 1, 38⟩, [], []⟩,
      ⟨"x", .simple "long", ⟨"a.idl", 1, 56⟩, [], []⟩]
    operations := [] }

def repeatingPart : Declaration :=
  .interface {
    header := ⟨"A", ⟨"b.idl", 1, 11⟩, false, [], []⟩
    base := none
    attributes := [
      ⟨"y", .simple "long", ⟨"b.idl", 1, 30⟩, [], []⟩,
      ⟨"x", .simple "short", ⟨"b.idl", 1, 49⟩, [], []⟩]
    operations := [] }

theorem exists_refusal_of_load_repeatedParts :
    ["a.idl", "b.idl"].map (fun path => (loadFile ⟨fun _ => []⟩ repeatedParts path).result) =
        [[doubledPart], [repeatingPart]].map .ok ∧
      (load ⟨fun _ => []⟩ repeatedParts ["a.idl", "b.idl"]).result = .error (.source {
        pos := ⟨"b.idl", 1, 49⟩
        cause := .duplicateMember "A" "x"
        notes := [.previous ⟨"a.idl", 1, 56⟩] }) ∧
      ∃ before d after first others e, [doubledPart, repeatingPart] = before ++ d :: after ∧
        named d.name before = first :: others ∧ Refusal first others d e ∧
        e.pos = ⟨"b.idl", 1, 49⟩ := by
  have hfiles : ["a.idl", "b.idl"].map
      (fun path => (loadFile ⟨fun _ => []⟩ repeatedParts path).result) =
        [[doubledPart], [repeatingPart]].map .ok := by
    cbv
  have hload : (load ⟨fun _ => []⟩ repeatedParts ["a.idl", "b.idl"]).result = .error (.source {
      pos := ⟨"b.idl", 1, 49⟩
      cause := .duplicateMember "A" "x"
      notes := [.previous ⟨"a.idl", 1, 56⟩] }) := by
    cbv
  rcases exists_refusal_of_load hfiles hload with
    ⟨before, d, after, first, others, e, hsplit, -, -, hnamed, hrefusal, herror, -⟩
  cases herror
  exact ⟨hfiles, hload, before, d, after, first, others, _, hsplit, hnamed, hrefusal, rfl⟩

end Declaration

end IdlCompiler
