import IdlCompiler.Backend.ClassView
import IdlCompiler.Proofs.Declaration.Division
import IdlCompiler.Proofs.IdlType.Contains

/-!
This module contains what the headers of a class view are required by. A type requires what each of
its parts requires on its own, an interface what the types of its members require, and nothing else
but the header of its variants.
-/

namespace IdlCompiler

namespace SpellingContext

variable {c : SpellingContext} {container : String} {r : Requirement}

def ownRequirements (c : SpellingContext) (container : String) : IdlType → List Requirement
  | .simple name =>
    match c.registry.simple? c.dialect.lang name with
    | some p => Requirement.ofProjection p
    | none => if name ∈ c.declared then [] else [.unknown name]
  | .optional _ => c.nativeHeader "<optional>"
  | .sequence _ => c.nativeHeader container
  | .union _ => c.nativeHeader "<variant>"
  | .record _ _ => c.nativeHeader "<map>"
  | .generic name _ =>
    match c.registry.generic? c.dialect.lang name with
    | some p => Requirement.ofProjection p
    | none => [.unknown (name ++ c.dialect.genericMark)]

theorem requirementsAll_eq_flatMap (c : SpellingContext) (container : String) (ts : List IdlType) :
    c.requirementsAll container ts = ts.flatMap (c.requirements container) := by
  induction ts with
  | nil => rw [requirementsAll, List.flatMap_nil]
  | cons t ts ih => rw [requirementsAll, ih, List.flatMap_cons]

theorem requirements_eq (c : SpellingContext) (container : String) (t : IdlType) :
    c.requirements container t =
      t.elems.flatMap (c.requirements container) ++ c.ownRequirements container t := by
  cases t with
  | simple name =>
    rw [requirements]
    rfl
  | generic name args =>
    rw [requirements, requirementsAll_eq_flatMap]
    rfl
  | _ => simp [requirements, ownRequirements, IdlType.elems, requirementsAll_eq_flatMap]

theorem requirements_perm (c : SpellingContext) (container : String) (t : IdlType) :
    (c.requirements container t).Perm (t.parts.flatMap (c.ownRequirements container)) := by
  have helems : (t.elems.flatMap (c.requirements container)).Perm
      (t.elems.flatMap fun elem => elem.parts.flatMap (c.ownRequirements container)) := by
    apply List.Perm.flatMap_left
    intro elem helem
    have := IdlType.sizeOf_lt_of_mem_elems helem
    exact requirements_perm c container elem
  rw [requirements_eq, IdlType.parts_eq, List.flatMap_cons, List.flatMap_assoc]
  exact (helems.append_right _).trans List.perm_append_comm
termination_by sizeOf t

theorem mem_requirements_iff {t : IdlType} :
    r ∈ c.requirements container t ↔ ∃ part ∈ t.parts, r ∈ c.ownRequirements container part := by
  rw [(c.requirements_perm container t).mem_iff, List.mem_flatMap]

end SpellingContext

namespace Interface

/--
The types of the members of an interface, each behind the extended attributes of the members around
it, the outermost first.
-/
def placedTypes (i : Interface) : List (List AttrValues × IdlType) :=
  (i.attributes.map fun a => ([a.values], a.type)) ++
    i.operations.flatMap fun o =>
      ([o.values], o.result) :: o.args.map fun a => ([o.values, a.values], a.type)

theorem map_snd_placedTypes (i : Interface) : i.placedTypes.map (·.2) = i.memberTypes := by
  unfold placedTypes memberTypes Operation.types
  simp [List.map_flatMap, Function.comp_def]

end Interface

namespace SpellingContext

variable {c : SpellingContext} {r : Requirement} {i : Interface}

def ofPlaced (c : SpellingContext) (place : List AttrValues × IdlType) : List Requirement :=
  c.requirements (Requirement.containerHeader place.1) place.2

theorem ofOperation_eq (c : SpellingContext) (o : Operation) :
    c.ofOperation o =
      (([o.values], o.result) ::
        o.args.map fun a => ([o.values, a.values], a.type)).flatMap c.ofPlaced := by
  unfold ofOperation ofPlaced
  rw [List.flatMap_cons, List.flatMap_map]

theorem ofInterface_perm (c : SpellingContext) (i : Interface) :
    (c.ofInterface i).Perm (i.placedTypes.flatMap c.ofPlaced ++
      if i.variants.isEmpty then [] else [.header "<variant>"]) := by
  have hattributes : (i.freeAttributes.flatMap c.ofAttribute ++
        i.variants.flatMap fun v => v.attributes.flatMap c.ofAttribute).Perm
      ((i.attributes.map fun a => ([a.values], a.type)).flatMap c.ofPlaced) := by
    have hdivided := i.perm_free_append_variants.flatMap_right c.ofAttribute
    rw [List.flatMap_append, List.flatMap_assoc] at hdivided
    rw [List.flatMap_map]
    exact hdivided
  have hoperations : i.operations.flatMap c.ofOperation =
      (i.operations.flatMap fun o => ([o.values], o.result) ::
        o.args.map fun a => ([o.values, a.values], a.type)).flatMap c.ofPlaced := by
    rw [List.flatMap_assoc, funext (ofOperation_eq c)]
  rw [ofInterface, hoperations, Interface.placedTypes, List.flatMap_append]
  refine ((hattributes.append_right _).append_right _).trans ?_
  rw [List.append_assoc, List.append_assoc]
  exact List.perm_append_comm.append_left _

theorem mem_ofInterface_iff :
    r ∈ c.ofInterface i ↔
      (∃ place ∈ i.placedTypes, r ∈ c.ofPlaced place) ∨
        i.variants ≠ [] ∧ r = .header "<variant>" := by
  rw [(c.ofInterface_perm i).mem_iff, List.mem_append, List.mem_flatMap]
  cases i.variants <;> simp

end SpellingContext

namespace ClassView

theorem mem_interfacesOf_iff {ds : List Declaration} {i : IdlCompiler.Interface} :
    i ∈ interfacesOf ds ↔ .interface i ∈ ds := by
  unfold interfacesOf
  rw [List.mem_filterMap]
  constructor
  . rintro ⟨d, hd, hi⟩
    cases d with
    | enum e => cases hi
    | interface j =>
      cases hi
      exact hd
  . intro hi
    exact ⟨_, hi, rfl⟩

theorem mem_enumsOf_iff {ds : List Declaration} {e : IdlCompiler.Enum} :
    e ∈ enumsOf ds ↔ .enum e ∈ ds := by
  unfold enumsOf
  rw [List.mem_filterMap]
  constructor
  . rintro ⟨d, hd, he⟩
    cases d with
    | interface i => cases he
    | enum e' =>
      cases he
      exact hd
  . intro he
    exact ⟨_, he, rfl⟩

theorem mem_headers_iff {c : SpellingContext} {ds : List Declaration} {header : String} :
    header ∈ (ofDeclarations c ds).headers ↔
      ∃ i, .interface i ∈ ds ∧ .header header ∈ c.ofInterface i := by
  have hheader (r : Requirement) : r.header? = some header ↔ r = .header header := by
    cases r <;> simp [Requirement.header?]
  unfold ofDeclarations
  simp only [List.mem_mergeSort, List.mem_eraseDups, List.mem_filterMap, List.mem_flatMap, hheader]
  constructor
  . rintro ⟨r, ⟨d, hd, hr⟩, rfl⟩
    cases d with
    | enum e => simp [SpellingContext.ofDeclaration] at hr
    | interface i => exact ⟨i, hd, hr⟩
  . rintro ⟨i, hi, hr⟩
    exact ⟨_, ⟨.interface i, hi, hr⟩, rfl⟩

end ClassView

end IdlCompiler
