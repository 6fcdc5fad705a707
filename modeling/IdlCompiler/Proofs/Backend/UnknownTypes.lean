import IdlCompiler.Proofs.Backend.Context
import IdlCompiler.Proofs.Backend.Headers

/-!
This module contains which names a class view warns about: those that nothing is known about, as
often as they occur in the types of members. Such names are no error, and they are spelled as they
are written.
-/

namespace IdlCompiler

namespace IdlType

def genericName? : IdlType → Option String
  | .generic name _ => some name
  | _ => none

def genericNames (t : IdlType) : List String :=
  t.parts.filterMap genericName?

mutual

def mapNames (f g : String → String) : IdlType → IdlType
  | .simple name => .simple (f name)
  | .optional elem => .optional (elem.mapNames f g)
  | .sequence elem => .sequence (elem.mapNames f g)
  | .union members => .union (mapNamesAll f g members)
  | .record key value => .record (key.mapNames f g) (value.mapNames f g)
  | .generic name args => .generic (g name) (mapNamesAll f g args)

def mapNamesAll (f g : String → String) : List IdlType → List IdlType
  | [] => []
  | t :: ts => t.mapNames f g :: mapNamesAll f g ts

end

end IdlType

namespace Registry

def simpleTarget (r : Registry) (lang name : String) : String :=
  match r.simple? lang name with
  | some p => p.target
  | none => name

def genericTarget (r : Registry) (lang name : String) : String :=
  match r.generic? lang name with
  | some p => p.target
  | none => name

def empty : Registry where
  simple := []
  generic := []

theorem simpleTarget_eq (r : Registry) (lang name : String) :
    ((r.simple? lang name).map (·.target)).getD name = r.simpleTarget lang name := by
  unfold simpleTarget
  cases r.simple? lang name <;> rfl

theorem genericTarget_eq (r : Registry) (lang name : String) :
    ((r.generic? lang name).map (·.target)).getD name = r.genericTarget lang name := by
  unfold genericTarget
  cases r.generic? lang name <;> rfl

end Registry

namespace IdlType

mutual

theorem spelled_mapNames (d : Dialect) (r : Registry) (t : IdlType) :
    (t.mapNames (r.simpleTarget d.lang) (r.genericTarget d.lang)).spelled d .empty =
      t.spelled d r := by
  cases t with
  | simple name =>
    rw [mapNames, spelled, spelled, r.simpleTarget_eq]
    rfl
  | optional elem => rw [mapNames, spelled, spelled, spelled_mapNames d r elem]
  | sequence elem => rw [mapNames, spelled, spelled, spelled_mapNames d r elem]
  | union members => rw [mapNames, spelled, spelled, spelledAll_mapNamesAll d r members]
  | record key value =>
    rw [mapNames, spelled, spelled, spelled_mapNames d r key, spelled_mapNames d r value]
  | generic name args =>
    rw [mapNames, spelled, spelled, spelledAll_mapNamesAll d r args, r.genericTarget_eq]
    rfl

theorem spelledAll_mapNamesAll (d : Dialect) (r : Registry) (ts : List IdlType) :
    spelledAll d .empty (mapNamesAll (r.simpleTarget d.lang) (r.genericTarget d.lang) ts) =
      spelledAll d r ts := by
  cases ts with
  | nil => rfl
  | cons t ts =>
    rw [mapNamesAll, spelledAll, spelledAll, spelled_mapNames d r t, spelledAll_mapNamesAll d r ts]

end

end IdlType

namespace SpellingContext

/--
The names in a type that nothing is known about, as often as they occur: those of simple types that
have no projection and are not declared, and those of generic types that have no projection, which
are marked.
-/
def unknownNames (c : SpellingContext) (t : IdlType) : List String :=
  (t.simpleNames.filter fun name =>
      c.registry.simple? c.dialect.lang name = none ∧ name ∉ c.declared) ++
    (t.genericNames.filter fun name => c.registry.generic? c.dialect.lang name = none).map
      (· ++ c.dialect.genericMark)

variable {c : SpellingContext} {container : String}

theorem filterMap_unknown?_ofProjection (p : Projection) :
    (Requirement.ofProjection p).filterMap (·.unknown?) = [] := by
  unfold Requirement.ofProjection
  split <;> rfl

theorem filterMap_unknown?_nativeHeader (header : String) :
    (c.nativeHeader header).filterMap (·.unknown?) = [] := by
  unfold nativeHeader
  split <;> rfl

theorem filterMap_unknown?_ownRequirements (c : SpellingContext) (container : String)
    (part : IdlType) :
    (c.ownRequirements container part).filterMap (·.unknown?) =
      (part.simpleName?.toList.filter fun name =>
          c.registry.simple? c.dialect.lang name = none ∧ name ∉ c.declared) ++
        (part.genericName?.toList.filter fun name =>
          c.registry.generic? c.dialect.lang name = none).map (· ++ c.dialect.genericMark) := by
  cases part with
  | simple name =>
    unfold ownRequirements
    cases hprojection : c.registry.simple? c.dialect.lang name with
    | some p => simp [filterMap_unknown?_ofProjection, IdlType.simpleName?, IdlType.genericName?,
        hprojection]
    | none =>
      by_cases hdeclared : name ∈ c.declared <;>
        simp [Requirement.unknown?, IdlType.simpleName?, IdlType.genericName?, hprojection,
          hdeclared]
  | generic name args =>
    unfold ownRequirements
    cases hprojection : c.registry.generic? c.dialect.lang name with
    | some p => simp [filterMap_unknown?_ofProjection, IdlType.simpleName?, IdlType.genericName?,
        hprojection]
    | none => simp [Requirement.unknown?, IdlType.simpleName?, IdlType.genericName?, hprojection]
  | _ => exact filterMap_unknown?_nativeHeader _

theorem unknownNames_perm (c : SpellingContext) (container : String) (t : IdlType) :
    ((c.requirements container t).filterMap (·.unknown?)).Perm (c.unknownNames t) := by
  have hparts := (c.requirements_perm container t).filterMap (·.unknown?)
  simp only [List.filterMap_flatMap, filterMap_unknown?_ownRequirements] at hparts
  refine hparts.trans ?_
  -- The parts give simple and generic names in turn, which are gathered apart.
  unfold unknownNames IdlType.simpleNames IdlType.genericNames
  rw [List.filterMap_eq_flatMap_toList, List.filterMap_eq_flatMap_toList, List.filter_flatMap,
    List.filter_flatMap, List.map_flatMap]
  exact (List.flatMap_append_perm _ _ _).symm

theorem filterMap_unknown?_ofInterface_perm (c : SpellingContext) (i : Interface) :
    ((c.ofInterface i).filterMap (·.unknown?)).Perm (i.memberTypes.flatMap c.unknownNames) := by
  have hmembers := (c.ofInterface_perm i).filterMap (·.unknown?)
  have hvariants : (if i.variants.isEmpty then [] else
      [Requirement.header "<variant>"]).filterMap (·.unknown?) = [] := by
    split <;> rfl
  rw [List.filterMap_append, hvariants, List.append_nil, List.filterMap_flatMap] at hmembers
  refine hmembers.trans ?_
  rw [← i.map_snd_placedTypes, List.flatMap_map]
  apply List.Perm.flatMap_left
  intro place _
  exact c.unknownNames_perm _ _

end SpellingContext

def unknownTypes (owner : String) (ws : List Warning) : List String :=
  ws.filterMap fun
    | .unknownType name other => if other = owner then some name else none
    | .unknownAttribute _ _ => none

namespace ClassView

variable {c : SpellingContext} {ds : List Declaration} {owner : String}

theorem unknownTypes_warnings_cons (d : Declaration) :
    unknownTypes owner (warnings c (d :: ds)) =
      (if d.name = owner then (c.ofDeclaration d).filterMap (·.unknown?) else []) ++
        unknownTypes owner (warnings c ds) := by
  unfold unknownTypes warnings
  rw [List.flatMap_cons, List.filterMap_append, List.filterMap_filterMap]
  congr 1
  by_cases howner : d.name = owner
  . rw [if_pos howner]
    apply List.filterMap_congr
    intro r _
    cases r <;> simp [Requirement.unknown?, howner]
  . rw [if_neg howner, List.filterMap_eq_nil_iff]
    intro r _
    cases r <;> simp [Requirement.unknown?, howner]

theorem unknownTypes_warnings_of_not_mem (h : owner ∉ ds.map (·.name)) :
    unknownTypes owner (warnings c ds) = [] := by
  induction ds with
  | nil => rfl
  | cons d ds ih =>
    rw [List.map_cons, List.mem_cons, not_or] at h
    rw [unknownTypes_warnings_cons, if_neg (Ne.symm h.1), ih h.2, List.nil_append]

theorem unknownTypes_warnings {d : Declaration} (hnames : (ds.map (·.name)).Nodup) (hd : d ∈ ds) :
    unknownTypes d.name (warnings c ds) = (c.ofDeclaration d).filterMap (·.unknown?) := by
  induction ds with
  | nil => cases hd
  | cons other ds ih =>
    rw [List.map_cons, List.nodup_cons] at hnames
    rw [unknownTypes_warnings_cons]
    rcases List.mem_cons.1 hd with rfl | hd
    . rw [if_pos rfl, unknownTypes_warnings_of_not_mem hnames.1, List.append_nil]
    . have hother : other.name ≠ d.name := by
        intro hname
        exact hnames.1 (hname ▸ List.mem_map_of_mem hd)
      rw [if_neg hother, ih hnames.2 hd, List.nil_append]

/--
The spellings of the types of members that are shown of an interface: all but the type of the
attribute that holds the variants, and those of the comparison, which comes first.
-/
def Interface.memberSpellings (i : Interface) : List String :=
  (i.attributes.filter fun a => !a.forVariant).map (·.type) ++
    (i.subtypes.flatMap (·.attributes)).map (·.type) ++
    i.operations.tail.flatMap fun o => o.type :: o.args.map (·.type)

theorem map_type_withCommas (args : List (String × String × AttrValues)) :
    (withCommas args).map (·.type) = args.map (·.2.1) := by
  induction args with
  | nil => rfl
  | cons arg rest ih =>
    cases rest with
    | nil => rfl
    | cons next rest => exact congrArg (arg.2.1 :: ·) ih

theorem memberSpellings_ofInterface_perm (c : SpellingContext) (i : IdlCompiler.Interface) :
    (Interface.ofInterface c i).memberSpellings.Perm
      (i.memberTypes.map (·.spelled c.dialect c.registry)) := by
  have hfree : ((Interface.ofInterface c i).attributes.filter fun a => !a.forVariant) =
      i.freeAttributes.map (Attribute.ofAttribute c) := by
    have hkept : ∀ a ∈ i.freeAttributes.map (Attribute.ofAttribute c), !a.forVariant := by
      simp [Attribute.ofAttribute]
    have hdropped : (if i.variants.isEmpty then [] else [Attribute.ofVariants i.variants]).filter
        (fun a => !a.forVariant) = [] := by
      split <;> rfl
    rw [Interface.ofInterface, List.filter_append, hdropped, List.append_nil,
      List.filter_eq_self.2 hkept]
  have hsubtypes : (Interface.ofInterface c i).subtypes.flatMap (·.attributes) =
      (i.variants.flatMap (·.attributes)).map (Attribute.ofAttribute c) := by
    rw [Interface.ofInterface, List.flatMap_map, List.map_flatMap]
    rfl
  have hoperation (o : IdlCompiler.Operation) :
      (Operation.ofOperation c o).type :: (Operation.ofOperation c o).args.map (·.type) =
        o.types.map (·.spelled c.dialect c.registry) := by
    rw [Operation.ofOperation, map_type_withCommas, List.map_map, IdlCompiler.Operation.types,
      List.map_cons, List.map_map]
    rfl
  have hoperations : ((Interface.ofInterface c i).operations.tail.flatMap fun o =>
      o.type :: o.args.map (·.type)) =
        (i.operations.flatMap (·.types)).map (·.spelled c.dialect c.registry) := by
    rw [Interface.ofInterface, List.tail_cons, List.flatMap_map, List.map_flatMap,
      funext hoperation]
  have hmembers : i.memberTypes.map (·.spelled c.dialect c.registry) =
      i.attributes.map (fun a => a.type.spelled c.dialect c.registry) ++
        (i.operations.flatMap (·.types)).map (·.spelled c.dialect c.registry) := by
    rw [IdlCompiler.Interface.memberTypes, List.map_append, List.map_map]
    rfl
  rw [Interface.memberSpellings, hfree, hsubtypes, hoperations, hmembers, ← List.map_append,
    ← List.map_append, List.map_map]
  exact (i.perm_free_append_variants.map _).append_right _

end ClassView

namespace OutputInfo

variable {d : Dialect} {ds : List Declaration} {i : Interface}

theorem warnings_context (info : OutputInfo) (ds : List Declaration)
    (hd : d ∈ [Dialect.cxx, Dialect.py3]) :
    (info.context d.lang ds).warnings =
      ClassView.warnings ⟨d, info.registry, ds.map (·.name)⟩ ds := by
  unfold context
  rw [ofLang?_lang hd]

/--
The warnings about an interface are about the unknown names in the types of its members, as often as
they occur and however its attributes are divided. The data of templates is there all the same, and
it shows the types of the members with all names that have no projection as they are written.
-/
theorem unknownTypes_perm (info : OutputInfo) (hd : d ∈ [Dialect.cxx, Dialect.py3])
    (hnames : (ds.map (·.name)).Nodup) (hi : .interface i ∈ ds) :
    (unknownTypes i.header.name (info.context d.lang ds).warnings).Perm
        (i.memberTypes.flatMap
          (SpellingContext.unknownNames ⟨d, info.registry, ds.map (·.name)⟩)) ∧
      ∃ view, info.Shows d.lang ds view ∧
        ∃ shown ∈ view.interfaces, shown.name = i.header.name ∧
          shown.memberSpellings.Perm (i.memberTypes.map fun t =>
            (t.mapNames (info.registry.simpleTarget d.lang)
              (info.registry.genericTarget d.lang)).spelled d .empty) := by
  constructor
  . rw [warnings_context info ds hd]
    have hwarned := ClassView.unknownTypes_warnings (c := ⟨d, info.registry, ds.map (·.name)⟩)
      hnames hi
    have hname : (Declaration.interface i).name = i.header.name := rfl
    rw [hname] at hwarned
    rw [hwarned]
    exact SpellingContext.filterMap_unknown?_ofInterface_perm _ i
  . refine ⟨info.view d ds, shows_view info ds hd, _,
      List.mem_map_of_mem (ClassView.mem_interfacesOf_iff.2 hi), rfl, ?_⟩
    simp only [IdlType.spelled_mapNames]
    exact ClassView.memberSpellings_ofInterface_perm _ i

def scattered : Interface where
  header := ⟨"I", ⟨"a.idl", 2, 11⟩, false, [], []⟩
  base := none
  attributes := [
    ⟨"x", .optional (.generic "Lost" [.simple "Missing", .simple "string"]), ⟨"a.idl", 3, 47⟩, [],
      [("if", .text "b"), ("var", .absent)]⟩,
    ⟨"y", .sequence (.simple "Missing"), ⟨"a.idl", 4, 32⟩, [], [("if", .absent), ("var", .absent)]⟩,
    ⟨"z", .simple "E", ⟨"a.idl", 5, 24⟩, [], [("if", .text "a"), ("var", .absent)]⟩]
  operations := [
    ⟨"f", .simple "void",
      [⟨"w", .union [.simple "int", .simple "Missing"], ⟨"a.idl", 6, 31⟩, [], []⟩],
      ⟨"a.idl", 6, 10⟩, [], []⟩]

def scatteredDeclarations : List Declaration :=
  [.enum ⟨⟨"E", ⟨"a.idl", 1, 6⟩, false, [], []⟩, []⟩, .interface scattered]

def scatteredInfo : OutputInfo where
  path := "a.hpp"
  version := 1
  initial := []
  registry := .builtin

theorem unknownTypes_perm_scattered :
    (scatteredDeclarations.map (·.name)).Nodup ∧ .interface scattered ∈ scatteredDeclarations ∧
      (unknownTypes "I" (scatteredInfo.context Registry.cxx scatteredDeclarations).warnings).Perm
        ["Missing", "Lost<>", "Missing", "Missing"] ∧
      ∃ view, scatteredInfo.Shows Registry.cxx scatteredDeclarations view ∧
        ∃ shown ∈ view.interfaces, shown.name = "I" ∧
          shown.memberSpellings.Perm
            ["std::optional<Lost<Missing, std::string>>", "std::vector<Missing>", "E", "void",
              "std::variant<int, Missing>"] := by
  have hnames : (scatteredDeclarations.map (·.name)).Nodup := by decide
  have hi : .interface scattered ∈ scatteredDeclarations :=
    List.mem_cons_of_mem _ List.mem_cons_self
  have hunknown : scattered.memberTypes.flatMap
      (SpellingContext.unknownNames ⟨.cxx, .builtin, scatteredDeclarations.map (·.name)⟩) =
        ["Missing", "Lost<>", "Missing", "Missing"] := by
    cbv
  have hspelled : (scattered.memberTypes.map fun t =>
      (t.mapNames (Registry.builtin.simpleTarget Registry.cxx)
        (Registry.builtin.genericTarget Registry.cxx)).spelled .cxx .empty) =
        ["std::optional<Lost<Missing, std::string>>", "std::vector<Missing>", "E", "void",
          "std::variant<int, Missing>"] := by
    cbv
  have h := unknownTypes_perm scatteredInfo (d := .cxx) List.mem_cons_self hnames hi
  rw [← hunknown, ← hspelled]
  exact ⟨hnames, hi, h⟩

end OutputInfo

end IdlCompiler
