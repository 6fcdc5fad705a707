import IdlCompiler.Proofs.Backend.Context
import IdlCompiler.Proofs.Backend.Headers
import IdlCompiler.Proofs.Dependency.SourceOrder
import IdlCompiler.Proofs.IdlType.Inside

/-!
This module contains which headers native code includes: those that the types inside the types of
members need by themselves, and that of variants. They are in order, and the order in which classes
and members are declared has no effect on them.
-/

namespace IdlCompiler

inductive IdlType.NeedsHeader (r : Registry) (container : String) : IdlType → String → Prop
  | simple {name : String} {p : Projection} : r.simple? Registry.cxx name = some p →
      p.requires ≠ "" → NeedsHeader r container (.simple name) p.requires
  | generic {name : String} {args : List IdlType} {p : Projection} :
      r.generic? Registry.cxx name = some p → p.requires ≠ "" →
      NeedsHeader r container (.generic name args) p.requires
  | optional {elem : IdlType} : NeedsHeader r container (.optional elem) "<optional>"
  | sequence {elem : IdlType} : NeedsHeader r container (.sequence elem) container
  | union {members : List IdlType} : NeedsHeader r container (.union members) "<variant>"
  | record {key value : IdlType} : NeedsHeader r container (.record key value) "<map>"

namespace AttrValues

def container (values : AttrValues) : String :=
  if values.flag "span" then "<span>" else if values.flag "unique" then "<set>" else "<vector>"

/--
The values that count for an argument of an operation. Those of the operation do alone if they tell
of both flags, and otherwise those of the argument hide them.
-/
def within (inner outer : AttrValues) : AttrValues :=
  if outer.isSet "span" ∧ outer.isSet "unique" then outer else inner ++ outer

theorem getD_absent_eq_iff (values : AttrValues) (name : String) :
    (values.get? name).getD .absent = .flag true ↔ values.flag name := by
  unfold flag
  cases values.get? name <;> simp

theorem getD_absent_ne_iff (values : AttrValues) (name : String) :
    (values.get? name).getD .absent ≠ .absent ↔ values.isSet name := by
  unfold isSet
  rcases values.get? name with _ | _ | _ | _ | _ <;> simp

theorem get?_append (inner outer : AttrValues) (name : String) :
    get? (inner ++ outer) name = (inner.get? name).or (outer.get? name) :=
  List.lookup_append

end AttrValues

namespace Requirement

theorem containerHeader_singleton (values : AttrValues) :
    containerHeader [values] = values.container := by
  simp only [containerHeader, enclosingFlags, ite_self, AttrValues.getD_absent_eq_iff,
    AttrValues.container]

theorem containerHeader_pair (outer inner : AttrValues) :
    containerHeader [outer, inner] = (inner.within outer).container := by
  have hhidden (name : String) : (inner.get? name).getD ((outer.get? name).getD .absent) =
      (AttrValues.get? (inner ++ outer) name).getD .absent := by
    rw [AttrValues.get?_append, Option.getD_or]
  unfold AttrValues.within
  simp only [containerHeader, enclosingFlags, ite_self, AttrValues.getD_absent_ne_iff]
  split
  . simp only [AttrValues.getD_absent_eq_iff, AttrValues.container]
  . simp only [hhidden, AttrValues.getD_absent_eq_iff, AttrValues.container]

end Requirement

namespace Interface

inductive MemberType (i : Interface) : String → IdlType → Prop
  | ofAttribute {a : Attribute} : a ∈ i.attributes → MemberType i a.values.container a.type
  | ofResult {o : Operation} : o ∈ i.operations → MemberType i o.values.container o.result
  | ofArgument {o : Operation} {a : Argument} : o ∈ i.operations → a ∈ o.args →
      MemberType i (a.values.within o.values).container a.type

def NeedsHeader (r : Registry) (i : Interface) (header : String) : Prop :=
  (∃ container t, i.MemberType container t ∧
      ∃ part : IdlType, part.Inside t ∧ part.NeedsHeader r container header) ∨
    i.variants ≠ [] ∧ header = "<variant>"

theorem mem_placedTypes_iff {i : Interface} {place : List AttrValues × IdlType} :
    place ∈ i.placedTypes ↔
      (∃ a ∈ i.attributes, place = ([a.values], a.type)) ∨
        ∃ o ∈ i.operations, place = ([o.values], o.result) ∨
          ∃ a ∈ o.args, place = ([o.values, a.values], a.type) := by
  simp [placedTypes, eq_comm]

theorem memberType_iff {i : Interface} {container : String} {t : IdlType} :
    i.MemberType container t ↔
      ∃ place ∈ i.placedTypes, Requirement.containerHeader place.1 = container ∧ place.2 = t := by
  simp only [mem_placedTypes_iff]
  constructor
  . intro h
    cases h with
    | @ofAttribute a ha =>
      refine ⟨([a.values], a.type), Or.inl ⟨a, ha, rfl⟩, ?_, rfl⟩
      exact Requirement.containerHeader_singleton _
    | @ofResult o ho =>
      refine ⟨([o.values], o.result), Or.inr ⟨o, ho, Or.inl rfl⟩, ?_, rfl⟩
      exact Requirement.containerHeader_singleton _
    | @ofArgument o a ho ha =>
      refine ⟨([o.values, a.values], a.type), Or.inr ⟨o, ho, Or.inr ⟨a, ha, rfl⟩⟩, ?_, rfl⟩
      exact Requirement.containerHeader_pair _ _
  . rintro ⟨place, ⟨a, ha, rfl⟩ | ⟨o, ho, rfl | ⟨a, ha, rfl⟩⟩, rfl, rfl⟩
    . rw [Requirement.containerHeader_singleton]
      exact .ofAttribute ha
    . rw [Requirement.containerHeader_singleton]
      exact .ofResult ho
    . rw [Requirement.containerHeader_pair]
      exact .ofArgument ho ha

theorem variants_ne_nil_iff {i : Interface} :
    i.variants ≠ [] ↔ ∃ a ∈ i.attributes, a.condition ≠ "" := by
  have hconditions : i.variants.map (·.condition) = Variant.conditions i.attributes :=
    Variant.conditions_group _ _ _
  rw [ne_eq, ← List.map_eq_nil_iff, hconditions, List.eq_nil_iff_forall_not_mem]
  simp only [Variant.mem_conditions_iff, not_forall, not_not]
  constructor
  . rintro ⟨_, hc, a, ha, rfl⟩
    exact ⟨a, ha, hc⟩
  . rintro ⟨a, ha, hc⟩
    exact ⟨_, hc, a, ha, rfl⟩

end Interface

namespace SpellingContext

variable {r : Registry} {container header : String}

theorem header_mem_ofProjection_iff {p : Projection} :
    .header header ∈ Requirement.ofProjection p ↔ p.requires ≠ "" ∧ header = p.requires := by
  unfold Requirement.ofProjection
  split
  . next h => simp [h]
  . next h => simp [h]

theorem header_mem_ownRequirements_iff (declared : List String) {part : IdlType} :
    .header header ∈ ownRequirements ⟨.cxx, r, declared⟩ container part ↔
      part.NeedsHeader r container header := by
  have hnative {name : String} :
      .header header ∈ nativeHeader ⟨.cxx, r, declared⟩ name ↔ header = name := by
    simp [nativeHeader, Dialect.cxx]
  cases part with
  | simple name =>
    dsimp only [ownRequirements, Dialect.cxx]
    constructor
    . intro h
      split at h
      . next p hp =>
        obtain ⟨hrequires, rfl⟩ := header_mem_ofProjection_iff.1 h
        exact .simple hp hrequires
      . split at h <;> simp at h
    . intro h
      cases h with
      | simple hp hrequires =>
        rw [hp]
        exact header_mem_ofProjection_iff.2 ⟨hrequires, rfl⟩
  | generic name args =>
    dsimp only [ownRequirements, Dialect.cxx]
    constructor
    . intro h
      split at h
      . next p hp =>
        obtain ⟨hrequires, rfl⟩ := header_mem_ofProjection_iff.1 h
        exact .generic hp hrequires
      . simp at h
    . intro h
      cases h with
      | generic hp hrequires =>
        rw [hp]
        exact header_mem_ofProjection_iff.2 ⟨hrequires, rfl⟩
  | _ =>
    rw [ownRequirements, hnative]
    constructor
    . rintro rfl
      constructor
    . intro h
      cases h
      rfl

theorem header_mem_ofInterface_iff (declared : List String) {i : Interface} :
    .header header ∈ ofInterface ⟨.cxx, r, declared⟩ i ↔ i.NeedsHeader r header := by
  rw [mem_ofInterface_iff, Requirement.header.injEq, Interface.NeedsHeader]
  apply or_congr_left
  unfold ofPlaced
  simp only [mem_requirements_iff, header_mem_ownRequirements_iff, IdlType.mem_parts_iff,
    Interface.memberType_iff]
  constructor
  . rintro ⟨place, hplace, part, hpart, hneeds⟩
    exact ⟨_, _, ⟨place, hplace, rfl, rfl⟩, part, hpart, hneeds⟩
  . rintro ⟨_, _, ⟨place, hplace, rfl, rfl⟩, part, hpart, hneeds⟩
    exact ⟨place, hplace, part, hpart, hneeds⟩

end SpellingContext

namespace Interface

theorem memberType_of_perm {i i' : Interface} (hattributes : i.attributes.Perm i'.attributes)
    (hoperations : i.operations.Perm i'.operations) {container : String} {t : IdlType}
    (h : i.MemberType container t) : i'.MemberType container t := by
  cases h with
  | ofAttribute ha => exact .ofAttribute (hattributes.mem_iff.1 ha)
  | ofResult ho => exact .ofResult (hoperations.mem_iff.1 ho)
  | ofArgument ho ha => exact .ofArgument (hoperations.mem_iff.1 ho) ha

theorem needsHeader_of_perm {i i' : Interface} (hattributes : i.attributes.Perm i'.attributes)
    (hoperations : i.operations.Perm i'.operations) {r : Registry} {header : String}
    (h : i.NeedsHeader r header) : i'.NeedsHeader r header := by
  rcases h with ⟨container, t, ht, hpart⟩ | ⟨hvariants, hheader⟩
  . exact Or.inl ⟨container, t, memberType_of_perm hattributes hoperations ht, hpart⟩
  . refine Or.inr ⟨?_, hheader⟩
    rw [variants_ne_nil_iff] at hvariants ⊢
    rcases hvariants with ⟨a, ha, hcondition⟩
    exact ⟨a, hattributes.mem_iff.1 ha, hcondition⟩

end Interface

namespace Declaration

variable {r : Registry} {header : String} {d d' : Declaration} {ds ds' : List Declaration}

def NeedsHeader (r : Registry) (header : String) (d : Declaration) : Prop :=
  ∃ i, d = .interface i ∧ i.NeedsHeader r header

theorem Rearranged.needsHeader_iff (h : Rearranged d d') :
    d.NeedsHeader r header ↔ d'.NeedsHeader r header := by
  cases h with
  | enum e => exact Iff.rfl
  | @interface i i' _ _ hattributes hoperations =>
    constructor
    . rintro ⟨_, ⟨⟩, hneeds⟩
      exact ⟨i', rfl, Interface.needsHeader_of_perm hattributes hoperations hneeds⟩
    . rintro ⟨_, ⟨⟩, hneeds⟩
      exact ⟨i, rfl, Interface.needsHeader_of_perm hattributes.symm hoperations.symm hneeds⟩

theorem Reordered.needsHeader_iff (h : Reordered ds ds') :
    (∃ d ∈ ds, d.NeedsHeader r header) ↔ ∃ d ∈ ds', d.NeedsHeader r header := by
  rcases h with ⟨middle, hperm, hall⟩
  simp only [hperm.mem_iff]
  clear hperm
  induction hall with
  | nil => exact Iff.rfl
  | cons h _ ih => simp only [List.exists_mem_cons_iff, h.needsHeader_iff, ih]

end Declaration

namespace ClassView

variable {r : Registry} {ds ds' : List Declaration}

def native (r : Registry) (ds : List Declaration) : ClassView :=
  ofDeclarations ⟨.cxx, r, ds.map (·.name)⟩ ds

theorem mem_headers_native_iff {header : String} :
    header ∈ (native r ds).headers ↔ ∃ d ∈ ds, d.NeedsHeader r header := by
  unfold native
  simp only [mem_headers_iff, SpellingContext.header_mem_ofInterface_iff]
  constructor
  . rintro ⟨i, hi, hneeds⟩
    exact ⟨_, hi, i, rfl, hneeds⟩
  . rintro ⟨_, hd, i, rfl, hneeds⟩
    exact ⟨i, hd, hneeds⟩

theorem pairwise_headers (c : SpellingContext) (ds : List Declaration) :
    (ofDeclarations c ds).headers.Pairwise (· < ·) := by
  apply Text.pairwise_lt_mergeSort
  apply Text.nodup_eraseDups

theorem headers_native_eq_of_reordered (h : Declaration.Reordered ds ds') :
    (native r ds').headers = (native r ds).headers := by
  apply (pairwise_headers _ ds').eq_of_mem_iff (pairwise_headers _ ds)
  intro header
  rw [← native, ← native, mem_headers_native_iff, mem_headers_native_iff, h.needsHeader_iff]

end ClassView

namespace OutputInfo

theorem provides_includes (info : OutputInfo) (ds : List Declaration) :
    info.Provides Registry.cxx ds "includes"
      (.list ((ClassView.native info.registry ds).headers.map .text)) := by
  obtain ⟨entries, hentries, hincludes, -⟩ := shows_view (d := .cxx) info ds List.mem_cons_self
  exact ⟨entries, hentries, hincludes⟩

/--
Templates for native code see the headers that interfaces need, each of them once and in the order of
their octets. These are the headers that the types inside the types of members need by themselves, and
that of variants. They are the same if the declarations and their members are in another order.
-/
theorem mem_includes_iff_needsHeader (info : OutputInfo) (ds : List Declaration) :
    ∃ headers : List String, info.Provides Registry.cxx ds "includes" (.list (headers.map .text)) ∧
      (headers.map Text.bytes).Pairwise (· < ·) ∧
      (∀ header, header ∈ headers ↔
        ∃ i, .interface i ∈ ds ∧ i.NeedsHeader info.registry header) ∧
      ∀ ds', Declaration.Reordered ds ds' →
        info.Provides Registry.cxx ds' "includes" (.list (headers.map .text)) := by
  refine ⟨(ClassView.native info.registry ds).headers, provides_includes info ds, ?_, ?_, ?_⟩
  . rw [List.pairwise_map]
    exact (ClassView.pairwise_headers _ ds).imp Text.bytes_lt_bytes
  . intro header
    rw [ClassView.mem_headers_native_iff]
    constructor
    . rintro ⟨_, hd, i, rfl, hneeds⟩
      exact ⟨i, hd, hneeds⟩
    . rintro ⟨i, hi, hneeds⟩
      exact ⟨_, hi, i, rfl, hneeds⟩
  . intro ds' h
    rw [← ClassView.headers_native_eq_of_reordered h]
    exact provides_includes info ds'

end OutputInfo

end IdlCompiler
