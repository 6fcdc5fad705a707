import IdlCompiler.Declaration.Merge
import IdlCompiler.Proofs.Grammar.Cursor

/-!
This module contains what merging declarations means: which declarations can be merged, and what
they are merged into. Declarations are merged one after the other, and what has been merged so far
is always what the declarations so far mean together.
-/

namespace IdlCompiler

namespace Member

variable {α : Type} [Member α] {owner : String} {known later members ms : List α}

/--
No member of `later` has the name of one in front of it, be it in `known` or in `later`.
-/
def Fresh (known later : List α) : Prop :=
  ∀ before m after, later = before ++ m :: after → ∀ m' ∈ known ++ before, name m' ≠ name m

theorem fresh_nil : Fresh known [] := by
  intro before m after h
  simp at h

theorem fresh_cons {m : α} :
    Fresh known (m :: later) ↔ (∀ m' ∈ known, name m' ≠ name m) ∧ Fresh (known ++ [m]) later := by
  constructor
  . intro h
    refine ⟨fun m' hm' => h [] m later rfl m' (by simpa using hm'), ?_⟩
    intro before m' after hsplit m'' hm''
    exact h (m :: before) m' after (by rw [hsplit, List.cons_append]) m'' (by simpa using hm'')
  . rintro ⟨hfirst, hlater⟩ before m' after hsplit m'' hm''
    cases before with
    | nil =>
      simp only [List.nil_append, List.cons.injEq] at hsplit
      rw [← hsplit.1]
      exact hfirst m'' (by simpa using hm'')
    | cons b before =>
      simp only [List.cons_append, List.cons.injEq] at hsplit
      rcases hsplit with ⟨rfl, rfl⟩
      exact hlater before m' after rfl m'' (by simpa using hm'')

theorem fresh_append :
    Fresh known (later ++ ms) ↔ Fresh known later ∧ Fresh (known ++ later) ms := by
  induction later generalizing known with
  | nil => simp [fresh_nil]
  | cons m later ih =>
    rw [List.cons_append, fresh_cons, fresh_cons, ih, List.append_assoc, List.singleton_append,
      and_assoc]

theorem append_eq_ok_iff :
    append owner members ms = .ok later ↔ Fresh members ms ∧ later = members ++ ms := by
  induction ms generalizing members with
  | nil => simp [append, fresh_nil, eq_comm]
  | cons m ms ih =>
    rw [append, fresh_cons]
    split
    . next p hfind =>
      have hp : p ∈ members := by simpa using List.mem_of_find?_eq_some hfind
      have hname : name p = name m := by simpa using List.find?_some hfind
      simp only [reduceCtorEq, false_iff, not_and]
      intro hfresh
      exact absurd hname (hfresh.1 p hp)
    . next hfind =>
      have hfresh : ∀ m' ∈ members, name m' ≠ name m := by
        simpa using hfind
      rw [ih, List.append_assoc, List.singleton_append]
      exact ⟨fun h => ⟨⟨hfresh, h.1⟩, h.2⟩, fun h => ⟨h.1.2, h.2⟩⟩

end Member

namespace Declaration

def attributes : Declaration → List Attribute
  | .enum _ => []
  | .interface i => i.attributes

def operations : Declaration → List Operation
  | .enum _ => []
  | .interface i => i.operations

def named (name : String) (ds : List Declaration) : List Declaration :=
  ds.filter (·.name = name)

def notNamed (name : String) (ds : List Declaration) : List Declaration :=
  ds.filter (·.name ≠ name)

structure Mergeable (parts : List Declaration) : Prop where
  same_kind : ∀ d ∈ parts, ∀ d' ∈ parts, d.keyword = d'.keyword
  one_complete : parts.countP (!·.header.isPartial) ≤ 1
  fresh_attributes :
    Member.Fresh ((parts.take 1).flatMap attributes) ((parts.drop 1).flatMap attributes)
  fresh_operations :
    Member.Fresh ((parts.take 1).flatMap operations) ((parts.drop 1).flatMap operations)

def gather (parts : List Declaration) (first : Declaration) : Declaration :=
  let isPartial := parts.all (·.header.isPartial)
  match first with
  | .enum e => .enum { e with header := { e.header with isPartial } }
  | .interface i =>
    .interface {
      header := { i.header with isPartial }
      base := i.base
      attributes := parts.flatMap attributes
      operations := parts.flatMap operations }

def gatherAll : List Declaration → List Declaration
  | [] => []
  | d :: ds =>
    gather (d :: named d.name ds) d :: gatherAll (notNamed d.name ds)
termination_by ds => ds.length
decreasing_by exact Nat.lt_succ_of_le (List.length_filter_le _ _)

def EnumsComplete (ds : List Declaration) : Prop :=
  ∀ e, .enum e ∈ ds → e.header.isPartial = false

variable {first d c : Declaration} {parts others ds known cs : List Declaration} {name : String}

@[simp]
theorem name_gather : (gather parts first).name = first.name := by
  cases first <;> rfl

@[simp]
theorem keyword_gather : (gather parts first).keyword = first.keyword := by
  cases first <;> rfl

@[simp]
theorem isPartial_gather :
    (gather parts first).header.isPartial = parts.all (·.header.isPartial) := by
  cases first <;> rfl

theorem gather_singleton (d : Declaration) : gather [d] d = d := by
  cases d <;> simp [gather, header, attributes, operations]

theorem mergeable_singleton (d : Declaration) : Mergeable [d] where
  same_kind := by simp
  one_complete := List.countP_le_length
  fresh_attributes := Member.fresh_nil
  fresh_operations := Member.fresh_nil

theorem countP_append_singleton_le_one_iff {p : Declaration → Bool} :
    (parts ++ [d]).countP (!p ·) ≤ 1 ↔
      parts.countP (!p ·) ≤ 1 ∧ ¬(!parts.all p && !p d) := by
  have hall : parts.all p ↔ parts.countP (!p ·) = 0 := by
    simp [List.countP_eq_zero]
  rw [List.countP_append, List.countP_singleton]
  cases hd : p d with
  | true => simp
  | false =>
    simp only [Bool.not_false, ↓reduceIte, Bool.and_true, Bool.not_eq_true', Bool.not_eq_false,
      hall]
    omega

theorem mergeable_append_singleton_iff :
    Mergeable (first :: others ++ [d]) ↔
      Mergeable (first :: others) ∧ first.keyword = d.keyword ∧
      ¬(!(first :: others).all (·.header.isPartial) && !d.header.isPartial) ∧
      Member.Fresh ((first :: others).flatMap attributes) d.attributes ∧
      Member.Fresh ((first :: others).flatMap operations) d.operations := by
  have hfresh {α : Type} [Member α] (members : Declaration → List α) :
      Member.Fresh (((first :: others ++ [d]).take 1).flatMap members)
          (((first :: others ++ [d]).drop 1).flatMap members) ↔
        Member.Fresh (((first :: others).take 1).flatMap members)
          (((first :: others).drop 1).flatMap members) ∧
        Member.Fresh ((first :: others).flatMap members) (members d) := by
    simp [Member.fresh_append]
  constructor
  . intro h
    have hcomplete := countP_append_singleton_le_one_iff.1 h.one_complete
    have hattributes := (hfresh attributes).1 h.fresh_attributes
    have hoperations := (hfresh operations).1 h.fresh_operations
    refine ⟨⟨?_, hcomplete.1, hattributes.1, hoperations.1⟩, ?_, hcomplete.2, hattributes.2,
      hoperations.2⟩
    . intro d' hd' d'' hd''
      exact h.same_kind d' (List.mem_append_left _ hd') d'' (List.mem_append_left _ hd'')
    . exact h.same_kind first (by simp) d (by simp)
  . rintro ⟨h, hkind, hcomplete, hattributes, hoperations⟩
    have hsame : ∀ d' ∈ first :: others ++ [d], d'.keyword = first.keyword := by
      intro d' hd'
      rcases List.mem_append.1 hd' with hd' | hd'
      . exact h.same_kind d' hd' first List.mem_cons_self
      . rw [List.mem_singleton.1 hd', hkind]
    refine ⟨?_, ?_, ?_, ?_⟩
    . intro d' hd' d'' hd''
      rw [hsame d' hd', hsame d'' hd'']
    . exact countP_append_singleton_le_one_iff.2 ⟨h.one_complete, hcomplete⟩
    . exact (hfresh attributes).2 ⟨h.fresh_attributes, hattributes⟩
    . exact (hfresh operations).2 ⟨h.fresh_operations, hoperations⟩

theorem interface_merge_eq_ok_iff {i j k : Interface} :
    i.merge j = .ok k ↔
      Member.Fresh i.attributes j.attributes ∧ Member.Fresh i.operations j.operations ∧
      k = { i with
        attributes := i.attributes ++ j.attributes
        operations := i.operations ++ j.operations
        header := { i.header with isPartial := i.header.isPartial && j.header.isPartial } } := by
  unfold Interface.merge
  rw [Except.bind_eq_ok_iff]
  constructor
  . rintro ⟨attributes, hattributes, h⟩
    rcases Except.bind_eq_ok_iff.1 h with ⟨operations, hoperations, h⟩
    rcases Member.append_eq_ok_iff.1 hattributes with ⟨hfresh, rfl⟩
    rcases Member.append_eq_ok_iff.1 hoperations with ⟨hfresh', rfl⟩
    simp only [pure, Except.pure, Except.ok.injEq] at h
    exact ⟨hfresh, hfresh', h.symm⟩
  . rintro ⟨hfresh, hfresh', rfl⟩
    refine ⟨_, Member.append_eq_ok_iff.2 ⟨hfresh, rfl⟩, ?_⟩
    rw [Member.append_eq_ok_iff.2 ⟨hfresh', rfl⟩]
    rfl

theorem merge_gather_eq_ok_iff (hparts : Mergeable (first :: others))
    (henums : EnumsComplete (first :: others ++ [d])) :
    merge (gather (first :: others) first) d = .ok c ↔
      Mergeable (first :: others ++ [d]) ∧ c = gather (first :: others ++ [d]) first := by
  rw [mergeable_append_singleton_iff]
  unfold merge
  split
  . next hkind =>
    rw [keyword_gather] at hkind
    simp [hkind]
  . next hkind =>
    rw [keyword_gather, Decidable.not_not] at hkind
    split
    . next hcomplete =>
      rw [isPartial_gather] at hcomplete
      simp only [reduceCtorEq, false_iff]
      rintro ⟨⟨-, -, hpartial, -, -⟩, -⟩
      exact hpartial hcomplete
    . next hcomplete =>
      rw [isPartial_gather] at hcomplete
      cases first with
      | enum e =>
        cases d with
        -- Two enumerations are both complete, and that was refused above.
        | enum e' =>
          have he := henums e (by simp)
          have he' := henums e' (by simp)
          simp [header, he, he'] at hcomplete
        | interface j => simp [keyword] at hkind
      | interface i =>
        cases d with
        | enum e' => simp [keyword] at hkind
        | interface j =>
          simp only [gather, Except.map_eq_ok_iff, interface_merge_eq_ok_iff]
          constructor
          . rintro ⟨k, ⟨hattributes, hoperations, rfl⟩, rfl⟩
            refine ⟨⟨hparts, hkind, hcomplete, hattributes, hoperations⟩, ?_⟩
            simp [attributes, operations, header, Bool.and_assoc]
          . rintro ⟨⟨-, -, -, hattributes, hoperations⟩, rfl⟩
            refine ⟨_, ⟨hattributes, hoperations, rfl⟩, ?_⟩
            simp [attributes, operations, header, Bool.and_assoc]

theorem EnumsComplete.sublist {ds' : List Declaration} (h : EnumsComplete ds)
    (hsub : ds'.Sublist ds) : EnumsComplete ds' :=
  fun e he => h e (hsub.subset he)

theorem named_append (known ds : List Declaration) :
    named name (known ++ ds) = named name known ++ named name ds :=
  List.filter_append _ _

theorem named_singleton_of_ne (h : d.name ≠ name) : named name [d] = [] := by
  simp [named, h]

theorem named_notNamed (h : d.name ≠ name) : named d.name (notNamed name ds) = named d.name ds := by
  unfold named notNamed
  rw [List.filter_filter]
  apply List.filter_congr
  intro d' _
  by_cases hd' : d'.name = d.name <;> simp [hd', h]

theorem mergeable_nil : Mergeable [] where
  same_kind := by simp
  one_complete := by simp
  fresh_attributes := Member.fresh_nil
  fresh_operations := Member.fresh_nil

theorem mergeable_named_notNamed {m : String} (h : Mergeable (named m ds)) :
    Mergeable (named m (notNamed name ds)) := by
  unfold named notNamed at *
  rw [List.filter_filter]
  by_cases hm : m = name
  . have hnone : ds.filter (fun d => decide (d.name = m) && decide (d.name ≠ name)) = [] := by
      simp [hm]
    rw [hnone]
    exact mergeable_nil
  . have hall : ds.filter (fun d => decide (d.name = m) && decide (d.name ≠ name)) =
        ds.filter (fun d => decide (d.name = m)) := by
      apply List.filter_congr
      intro d _
      by_cases hd : d.name = m <;> simp [hd, hm]
    rw [hall]
    exact h

theorem Mergeable.of_append {more : List Declaration} (h : Mergeable (parts ++ more)) :
    Mergeable parts := by
  induction more generalizing parts with
  | nil => rwa [List.append_nil] at h
  | cons d more ih =>
    rw [← List.singleton_append, ← List.append_assoc] at h
    cases parts with
    | nil => exact mergeable_nil
    | cons first others => exact (mergeable_append_singleton_iff.1 (ih h)).1

theorem insert_gatherAll_eq_ok_iff (hknown : ∀ name, Mergeable (named name known))
    (henums : EnumsComplete (known ++ [d])) :
    insert d (gatherAll known) = .ok cs ↔
      Mergeable (named d.name (known ++ [d])) ∧ cs = gatherAll (known ++ [d]) := by
  -- What is behind the first name means the same without the declarations of that name.
  induction hn : known.length using Nat.strongRecOn generalizing known cs with
  | ind n ih =>
    cases known with
    | nil =>
      have hall : gatherAll [d] = [d] := by
        simp [gatherAll, named, notNamed, gather_singleton]
      have hnamed : named d.name [d] = [d] := by simp [named]
      rw [gatherAll, List.nil_append, hall, hnamed]
      simp [insert, mergeable_singleton, eq_comm]
    | cons first rest =>
      rw [gatherAll, insert, name_gather, List.cons_append, gatherAll]
      split
      . next hname =>
        have hnamed : named first.name (rest ++ [d]) = named first.name rest ++ [d] := by
          simp [named, hname]
        have hnot : notNamed first.name (rest ++ [d]) = notNamed first.name rest := by
          simp [notNamed, hname]
        have hparts : named d.name (first :: (rest ++ [d])) =
            first :: named first.name rest ++ [d] := by
          simp [named, hname]
        have hfirst : Mergeable (first :: named first.name rest) := by
          have := hknown first.name
          simpa [named] using this
        have henums' : EnumsComplete (first :: named first.name rest ++ [d]) :=
          henums.sublist ((List.filter_sublist.cons_cons first).append_right [d])
        rw [Except.map_eq_ok_iff, hnamed, hnot, hparts]
        simp only [merge_gather_eq_ok_iff hfirst henums']
        constructor
        . rintro ⟨c, ⟨hmergeable, rfl⟩, rfl⟩
          exact ⟨hmergeable, rfl⟩
        . rintro ⟨hmergeable, rfl⟩
          exact ⟨_, ⟨hmergeable, rfl⟩, rfl⟩
      . next hname =>
        have hnamed : named first.name (rest ++ [d]) = named first.name rest := by
          simp [named, Ne.symm hname]
        have hnot : notNamed first.name (rest ++ [d]) = notNamed first.name rest ++ [d] := by
          simp [notNamed, Ne.symm hname]
        have hparts : named d.name (first :: (rest ++ [d])) =
            named d.name (notNamed first.name rest ++ [d]) := by
          rw [named_append, named_notNamed (Ne.symm hname)]
          simp [named, hname]
        have hrest (name : String) : Mergeable (named name (notNamed first.name rest)) := by
          have hshorter : notNamed first.name rest = notNamed first.name (first :: rest) := by
            simp [notNamed]
          rw [hshorter]
          exact mergeable_named_notNamed (hknown name)
        have henums' : EnumsComplete (notNamed first.name rest ++ [d]) :=
          henums.sublist ((List.filter_sublist.cons first).append_right [d])
        have hlength : (notNamed first.name rest).length < n := by
          rw [← hn]
          exact Nat.lt_succ_of_le (List.length_filter_le _ _)
        rw [Except.map_eq_ok_iff, hnamed, hnot, hparts]
        simp only [ih _ hlength hrest henums' rfl]
        constructor
        . rintro ⟨_, ⟨hmergeable, rfl⟩, rfl⟩
          exact ⟨hmergeable, rfl⟩
        . rintro ⟨hmergeable, rfl⟩
          exact ⟨_, ⟨hmergeable, rfl⟩, rfl⟩

theorem mergeable_named_append_singleton (hknown : ∀ name, Mergeable (named name known))
    (h : Mergeable (named d.name (known ++ [d]))) (name : String) :
    Mergeable (named name (known ++ [d])) := by
  by_cases hname : d.name = name
  . exact hname ▸ h
  . rw [named_append, named_singleton_of_ne hname, List.append_nil]
    exact hknown name

theorem insertAll_gatherAll_eq_ok_iff (hknown : ∀ name, Mergeable (named name known))
    (henums : EnumsComplete (known ++ ds)) :
    insertAll (gatherAll known) ds = .ok cs ↔
      (∀ name, Mergeable (named name (known ++ ds))) ∧ cs = gatherAll (known ++ ds) := by
  induction ds generalizing known with
  | nil => simp [insertAll, hknown, pure, Except.pure, eq_comm]
  | cons d ds ih =>
    have hsplit : known ++ d :: ds = known ++ [d] ++ ds := by simp
    rw [hsplit] at henums ⊢
    have henums' := henums.sublist (List.sublist_append_left (known ++ [d]) ds)
    unfold insertAll at ih ⊢
    rw [List.foldlM_cons, Except.bind_eq_ok_iff]
    constructor
    . rintro ⟨next, hinsert, hrest⟩
      rcases (insert_gatherAll_eq_ok_iff hknown henums').1 hinsert with ⟨hmergeable, rfl⟩
      exact (ih (mergeable_named_append_singleton hknown hmergeable) henums).1 hrest
    . rintro ⟨hmergeable, rfl⟩
      have hnext (name : String) : Mergeable (named name (known ++ [d])) := by
        have h := hmergeable name
        rw [named_append] at h
        exact h.of_append
      exact ⟨gatherAll (known ++ [d]),
        (insert_gatherAll_eq_ok_iff hknown henums').2 ⟨hnext d.name, rfl⟩,
        (ih hnext henums).2 ⟨hmergeable, rfl⟩⟩

theorem exists_of_mem_gatherAll (hc : c ∈ gatherAll ds) :
    ∃ first others, named c.name ds = first :: others ∧ c = gather (first :: others) first := by
  induction hn : ds.length using Nat.strongRecOn generalizing ds with
  | ind n ih =>
    cases ds with
    | nil =>
      rw [gatherAll] at hc
      cases hc
    | cons d ds =>
      rw [gatherAll] at hc
      rcases List.mem_cons.1 hc with rfl | hc
      . refine ⟨d, named d.name ds, ?_, rfl⟩
        simp [named]
      . have hlength : (notNamed d.name ds).length < n := by
          rw [← hn]
          exact Nat.lt_succ_of_le (List.length_filter_le _ _)
        rcases ih _ hlength hc rfl with ⟨first, others, hnamed, hgather⟩
        -- The declaration has another name than the first one, which is therefore not looked at.
        have hfirst : first ∈ named c.name (notNamed d.name ds) := by
          rw [hnamed]
          exact List.mem_cons_self
        have hname : c.name ≠ d.name := by
          rw [hgather, name_gather]
          simpa using (List.mem_filter.1 (List.mem_filter.1 hfirst).1).2
        refine ⟨first, others, ?_, hgather⟩
        rw [← hnamed, named_notNamed hname]
        simp [named, Ne.symm hname]

end Declaration

end IdlCompiler
