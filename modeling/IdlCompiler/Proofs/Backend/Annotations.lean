import IdlCompiler.Proofs.Backend.BindingClasses
import IdlCompiler.Proofs.Text.Intercalated

/-!
This module contains that the names which bindings take from the typing module match the annotations
of their classes. An annotation is written piece by piece, and a name is taken from the typing module
exactly if a piece of some annotation is this name, however deep in a type that is.
-/

namespace IdlCompiler

namespace BindingView

inductive Constructor where
  | optional
  | sequence
  | union
  | record
  deriving DecidableEq, Repr

namespace Constructor

def text : Constructor → String
  | .optional => "Optional"
  | .sequence => "List"
  | .union => "Union"
  | .record => "Dict"

def ofType? : IdlType → Option Constructor
  | .optional _ => some .optional
  | .sequence _ => some .sequence
  | .union _ => some .union
  | .record _ _ => some .record
  | .simple _ => none
  | .generic _ _ => none

theorem typingName?_eq (t : IdlType) : typingName? t = (ofType? t).map text := by
  cases t <;> rfl

theorem text_injective : Function.Injective text := by
  intro c c' h
  cases c <;> cases c' <;> simp [text] at h ⊢

end Constructor

inductive Fragment where
  | constructor (c : Constructor)
  | plain (text : String)

namespace Fragment

def text : Fragment → String
  | .constructor c => c.text
  | .plain text => text

def spell (fragments : List Fragment) : String :=
  String.join (fragments.map text)

def applied (head : Fragment) (args : List (List Fragment)) : List Fragment :=
  head :: .plain "[" :: ([.plain ", "].intercalate args ++ [.plain "]"])

theorem spell_applied (head : Fragment) (args : List (List Fragment)) :
    spell (applied head args) = head.text ++ "[" ++ ", ".intercalate (args.map spell) ++ "]" := by
  unfold spell applied
  rw [List.map_cons, List.map_cons, List.map_append, String.join_cons, String.join_cons,
    String.join_append, Text.join_map_intercalate]
  simp [text, String.append_assoc]

theorem constructor_mem_applied_iff {c : Constructor} {head : Fragment}
    {args : List (List Fragment)} :
    .constructor c ∈ applied head args ↔
      .constructor c = head ∨ ∃ arg ∈ args, .constructor c ∈ arg := by
  unfold applied
  rw [List.mem_cons, List.mem_cons, List.mem_append, Text.mem_intercalate_iff (by simp)]
  simp

end Fragment

namespace Scope

def head (s : Scope) : IdlType → Fragment
  | .simple name => .plain (s.pythonName name)
  | .optional _ => .constructor .optional
  | .sequence _ => .constructor .sequence
  | .union _ => .constructor .union
  | .record _ _ => .constructor .record
  | .generic name _ => .plain (if name = translatable then "Translatable" else name)

mutual

def fragments (s : Scope) : IdlType → List Fragment
  | .simple name => [s.head (.simple name)]
  | .optional elem => Fragment.applied (s.head (.optional elem)) [s.fragments elem]
  | .sequence elem => Fragment.applied (s.head (.sequence elem)) [s.fragments elem]
  | .union members => Fragment.applied (s.head (.union members)) (s.fragmentsAll members)
  | .record key value =>
    Fragment.applied (s.head (.record key value)) [s.fragments key, s.fragments value]
  | .generic name args => Fragment.applied (s.head (.generic name args)) (s.fragmentsAll args)

def fragmentsAll (s : Scope) : List IdlType → List (List Fragment)
  | [] => []
  | t :: ts => s.fragments t :: s.fragmentsAll ts

end

theorem fragmentsAll_eq_map (s : Scope) (ts : List IdlType) :
    s.fragmentsAll ts = ts.map s.fragments := by
  induction ts with
  | nil => rfl
  | cons t ts ih => rw [fragmentsAll, ih, List.map_cons]

theorem pythonTypes_eq_map (s : Scope) (ts : List IdlType) :
    s.pythonTypes ts = ts.map s.pythonType := by
  induction ts with
  | nil => rfl
  | cons t ts ih => rw [pythonTypes, ih, List.map_cons]

theorem fragments_eq (s : Scope) {t : IdlType} (h : ∀ name, t ≠ .simple name) :
    s.fragments t = Fragment.applied (s.head t) (t.elems.map s.fragments) := by
  cases t with
  | simple name => exact absurd rfl (h name)
  | _ => simp [fragments, fragmentsAll_eq_map, IdlType.elems]

theorem pythonType_eq (s : Scope) {t : IdlType} (h : ∀ name, t ≠ .simple name) :
    s.pythonType t =
      (s.head t).text ++ "[" ++ ", ".intercalate (t.elems.map s.pythonType) ++ "]" := by
  cases t with
  | simple name => exact absurd rfl (h name)
  | _ => simp [pythonType, pythonTypes_eq_map, IdlType.elems, head, Fragment.text, Constructor.text,
      String.append_assoc]

theorem spell_fragments (s : Scope) (t : IdlType) :
    Fragment.spell (s.fragments t) = s.pythonType t := by
  by_cases hsimple : ∃ name, t = .simple name
  . obtain ⟨name, rfl⟩ := hsimple
    simp [fragments, Fragment.spell, Fragment.text, head, pythonType]
  . have helems : t.elems.map (fun elem => Fragment.spell (s.fragments elem)) =
        t.elems.map s.pythonType := by
      apply List.map_congr_left
      intro elem helem
      have := IdlType.sizeOf_lt_of_mem_elems helem
      exact spell_fragments s elem
    rw [s.fragments_eq (not_exists.1 hsimple), s.pythonType_eq (not_exists.1 hsimple),
      Fragment.spell_applied, List.map_map, ← helems]
    rfl
termination_by sizeOf t

theorem constructor_eq_head_iff (s : Scope) {c : Constructor} {t : IdlType} :
    .constructor c = s.head t ↔ Constructor.ofType? t = some c := by
  cases t <;> simp [head, Constructor.ofType?, eq_comm]

theorem constructor_mem_fragments_iff (s : Scope) {c : Constructor} (t : IdlType) :
    .constructor c ∈ s.fragments t ↔
      ∃ part : IdlType, part.Inside t ∧ Constructor.ofType? part = some c := by
  by_cases hsimple : ∃ name, t = .simple name
  . obtain ⟨name, rfl⟩ := hsimple
    simp [fragments, head, IdlType.inside_simple_iff, Constructor.ofType?]
  . rw [s.fragments_eq (not_exists.1 hsimple), Fragment.constructor_mem_applied_iff,
      constructor_eq_head_iff]
    simp only [List.mem_map, exists_exists_and_eq_and]
    constructor
    . rintro (hself | ⟨elem, helem, hc⟩)
      . exact ⟨t, .self, hself⟩
      . have := IdlType.sizeOf_lt_of_mem_elems helem
        rw [constructor_mem_fragments_iff s elem] at hc
        obtain ⟨part, hpart, hmade⟩ := hc
        exact ⟨part, .elem helem hpart, hmade⟩
    . rintro ⟨part, hpart, hmade⟩
      cases hpart with
      | self => exact Or.inl hmade
      | @elem _ elem helem hpart =>
        have := IdlType.sizeOf_lt_of_mem_elems helem
        refine Or.inr ⟨elem, helem, ?_⟩
        rw [constructor_mem_fragments_iff s elem]
        exact ⟨part, hpart, hmade⟩
termination_by sizeOf t

end Scope

variable {ds : List Declaration}

theorem mem_typingNames_iff {name : String} :
    name ∈ typingNames ds ↔
      name ∈ ["Iterator", "Generic", "TypeVar"] ∨ (name = "ClassVar" ∧ ∃ e, .enum e ∈ ds) ∨
        ∃ c : Constructor, name = c.text ∧ ∃ t part : IdlType,
          IsMemberType ds t ∧ part.Inside t ∧ Constructor.ofType? part = some c := by
  have henums : name ∈ (if (ClassView.enumsOf ds).isEmpty then [] else ["ClassVar"]) ↔
      name = "ClassVar" ∧ ∃ e, .enum e ∈ ds := by
    simp only [← ClassView.mem_enumsOf_iff]
    cases ClassView.enumsOf ds <;> simp
  have hmade : name ∈ (((ClassView.interfacesOf ds).flatMap (·.memberTypes)).flatMap
        IdlType.parts).filterMap typingName? ↔
      ∃ c : Constructor, name = c.text ∧ ∃ t part : IdlType,
        IsMemberType ds t ∧ part.Inside t ∧ Constructor.ofType? part = some c := by
    simp only [List.mem_filterMap, List.mem_flatMap (f := IdlType.parts), IdlType.mem_parts_iff,
      mem_memberTypes_interfacesOf_iff, Constructor.typingName?_eq, Option.map_eq_some_iff]
    constructor
    . rintro ⟨part, ⟨t, ht, hpart⟩, c, hc, rfl⟩
      exact ⟨c, rfl, t, part, ht, hpart, hc⟩
    . rintro ⟨c, rfl, t, part, ht, hpart, hc⟩
      exact ⟨part, ⟨t, ht, hpart⟩, c, hc, rfl⟩
  unfold typingNames
  rw [List.mem_mergeSort, List.mem_eraseDups, List.mem_append, List.mem_append, henums, hmade,
    or_assoc]

theorem text_mem_typingNames_iff {c : Constructor} :
    c.text ∈ typingNames ds ↔ ∃ t part : IdlType,
      IsMemberType ds t ∧ part.Inside t ∧ Constructor.ofType? part = some c := by
  rw [mem_typingNames_iff]
  constructor
  . rintro (hbase | ⟨henum, -⟩ | ⟨c', hc, hused⟩)
    . cases c <;> simp [Constructor.text] at hbase
    . cases c <;> simp [Constructor.text] at henum
    . rwa [Constructor.text_injective hc]
  . intro hused
    exact Or.inr (Or.inr ⟨c, rfl, hused⟩)

theorem pairwise_typingNames (ds : List Declaration) : (typingNames ds).Pairwise (· < ·) := by
  apply Text.pairwise_lt_mergeSort
  apply Text.nodup_eraseDups

def Interface.annotations (i : Interface) : List String :=
  i.attributes.map (·.type) ++ i.operations.flatMap fun o =>
    o.type :: (o.args.filter fun a => !a.isSelf).map (·.type)

theorem annotations_classOf (ds : List Declaration) (i : IdlCompiler.Interface) :
    (classOf ds i).annotations = i.memberTypes.map (Scope.ofDeclarations ds).pythonType := by
  have hargs (s : Scope) (o : IdlCompiler.Operation) :
      ((Operation.ofOperation s o).args.filter fun a => !a.isSelf) =
        o.args.map (Argument.ofArgument s) := by
    have hself : ((if o.values.flag "static" then [] else [Argument.self]).filter
        fun a => !a.isSelf) = [] := by
      split <;> rfl
    have hothers : (o.args.map (Argument.ofArgument s)).filter (fun a => !a.isSelf) =
        o.args.map (Argument.ofArgument s) := by
      rw [List.filter_eq_self]
      simp [Argument.ofArgument]
    rw [Operation.ofOperation, List.filter_append, hself, hothers, List.nil_append]
  unfold Interface.annotations
  simp only [classOf, Interface.ofInterface, List.flatMap_map, hargs]
  unfold IdlCompiler.Interface.memberTypes IdlCompiler.Operation.types
  simp [List.map_flatMap, Function.comp_def, Attribute.ofAttribute, Operation.ofOperation,
    Argument.ofArgument]

theorem mem_interfaces_iff {shown : Interface} :
    shown ∈ (ofDeclarations ds).interfaces ∧ shown.isSynthetic = false ↔
      ∃ i, .interface i ∈ ds ∧ shown = classOf ds i := by
  have hsynthetic {name : String} (h : shown ∈ translatableClasses name) :
      shown.isSynthetic = true := by
    simp only [translatableClasses, mapClasses, List.cons_append, List.nil_append, List.mem_cons,
      List.not_mem_nil, or_false] at h
    rcases h with rfl | rfl | rfl <;> rfl
  rw [interfaces_ofDeclarations, List.mem_append, List.mem_flatMap]
  simp only [List.mem_map, exists_exists_and_eq_and, ClassView.mem_interfacesOf_iff]
  constructor
  . rintro ⟨hstr | ⟨i, hi, hmem⟩, hown⟩
    . rw [hsynthetic hstr] at hown
      cases hown
    . rcases List.mem_cons.1 hmem with rfl | hbehind
      . exact ⟨i, hi, rfl⟩
      . split at hbehind
        . rw [hsynthetic hbehind] at hown
          cases hown
        . cases hbehind
  . rintro ⟨i, hi, rfl⟩
    exact ⟨Or.inr ⟨i, hi, List.mem_cons_self⟩, rfl⟩

theorem exists_annotation_iff {spelling : String} :
    (∃ shown ∈ (ofDeclarations ds).interfaces, shown.isSynthetic = false ∧
        spelling ∈ shown.annotations) ↔
      ∃ t, IsMemberType ds t ∧
        spelling = Fragment.spell ((Scope.ofDeclarations ds).fragments t) := by
  simp only [← and_assoc, mem_interfaces_iff, Scope.spell_fragments]
  constructor
  . rintro ⟨_, ⟨i, hi, rfl⟩, hspelling⟩
    rw [annotations_classOf, List.mem_map] at hspelling
    obtain ⟨t, ht, rfl⟩ := hspelling
    exact ⟨t, ⟨i, hi, ht⟩, rfl⟩
  . rintro ⟨t, ⟨i, hi, ht⟩, rfl⟩
    refine ⟨_, ⟨i, hi, rfl⟩, ?_⟩
    rw [annotations_classOf]
    exact List.mem_map_of_mem ht

end BindingView

namespace OutputInfo

open BindingView

theorem provides_typing (info : OutputInfo) (ds : List Declaration) :
    info.Provides "python" ds "typing" (.text (", ".intercalate (typingNames ds))) :=
  info.provides_bindings ds rfl

/--
Templates for bindings see the names that are taken from the typing module, each of them once and in
the order of their octets. Some are always there, one is there for enumerations, and the others are
there for the types inside the types of members that are made in their way. These are exactly those
that are pieces of the annotations of the classes of interfaces.
-/
theorem typing_mem_iff_annotated (info : OutputInfo) (ds : List Declaration) :
    ∃ (names : List String) (shown : List BindingView.Interface),
      info.Provides "python" ds "typing" (.text (", ".intercalate names)) ∧
      info.Provides "python" ds "interfaces" (.list (shown.map BindingView.Interface.toValue)) ∧
      (∀ i ∈ shown, i.IsShownBy i.toValue) ∧
      (names.map Text.bytes).Pairwise (· < ·) ∧
      (∀ name, name ∈ names ↔
        name ∈ ["Iterator", "Generic", "TypeVar"] ∨ (name = "ClassVar" ∧ ∃ e, .enum e ∈ ds) ∨
          ∃ c : Constructor, name = c.text ∧ ∃ t part : IdlType,
            IsMemberType ds t ∧ part.Inside t ∧ Constructor.ofType? part = some c) ∧
      (∀ spelling,
        (∃ i ∈ shown, i.isSynthetic = false ∧ spelling ∈ i.annotations) ↔
          ∃ t, IsMemberType ds t ∧
            spelling = Fragment.spell ((Scope.ofDeclarations ds).fragments t)) ∧
      ∀ c : Constructor, c.text ∈ names ↔
        ∃ t, IsMemberType ds t ∧ .constructor c ∈ (Scope.ofDeclarations ds).fragments t := by
  refine ⟨typingNames ds, (BindingView.ofDeclarations ds).interfaces, provides_typing info ds,
    provides_interfaces info ds, fun i _ => i.isShownBy_toValue, ?_, fun _ => mem_typingNames_iff,
    fun _ => exists_annotation_iff, ?_⟩
  . rw [List.pairwise_map]
    exact (pairwise_typingNames ds).imp Text.bytes_lt_bytes
  . intro c
    rw [text_mem_typingNames_iff]
    simp only [Scope.constructor_mem_fragments_iff]
    constructor
    . rintro ⟨t, part, ht, hpart⟩
      exact ⟨t, ht, part, hpart⟩
    . rintro ⟨t, ht, part, hpart⟩
      exact ⟨t, part, ht, hpart⟩

end OutputInfo

end IdlCompiler
