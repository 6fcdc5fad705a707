import IdlCompiler.Backend.Context
import IdlCompiler.Proofs.Backend.Shown

/-!
This module contains what templates see of declarations: the data of a template has the entries of
the class view or of the binding view of the declarations, whatever its initial entries are.
-/

namespace IdlCompiler.OutputInfo

variable {info : OutputInfo} {d : Dialect} {ds : List Declaration}

theorem lookup_overlay {entries others : List (String × Value)} {key : String} {value : Value}
    (h : others.lookup key = some value) : (overlay entries others).lookup key = some value := by
  unfold overlay
  rw [List.lookup_append, List.lookup_eq_none_iff.2, h, Option.none_or]
  intro entry hentry
  have hhidden := (List.mem_filter.1 hentry).2
  rw [List.all_eq_true] at hhidden
  -- The key is one of those that are put over the entries, so no entry that is left has it.
  rcases List.lookup_isSome_iff.1 (h ▸ rfl : (others.lookup key).isSome) with ⟨other, hother, hkey⟩
  have hne := hhidden other hother
  rw [← eq_of_beq hkey] at hne
  simpa using hne

def view (info : OutputInfo) (d : Dialect) (ds : List Declaration) : ClassView :=
  ClassView.ofDeclarations ⟨d, info.registry, ds.map (·.name)⟩ ds

def Shows (info : OutputInfo) (lang : String) (ds : List Declaration) (view : ClassView) : Prop :=
  ∃ entries, (info.context lang ds).result = .ok entries ∧
    entries.lookup "includes" = some (.list (view.headers.map .text)) ∧
    entries.lookup "enums" = some (.list (view.enums.map ClassView.Enum.toValue)) ∧
    entries.lookup "interfaces" = some (.list (view.interfaces.map ClassView.Interface.toValue)) ∧
    ∀ i ∈ view.interfaces, i.IsShownBy i.toValue

theorem ofLang?_lang (hd : d ∈ [Dialect.cxx, Dialect.py3]) : Dialect.ofLang? d.lang = some d := by
  rcases List.mem_cons.1 hd with rfl | hd
  . rfl
  . rw [List.mem_singleton.1 hd]
    rfl

theorem shows_view (info : OutputInfo) (ds : List Declaration)
    (hd : d ∈ [Dialect.cxx, Dialect.py3]) : info.Shows d.lang ds (info.view d ds) := by
  refine ⟨overlay info.entries (info.view d ds).toEntries, ?_, lookup_overlay rfl,
    lookup_overlay rfl, lookup_overlay rfl, fun i _ => i.isShownBy_toValue⟩
  unfold context
  rw [ofLang?_lang hd]
  rfl

def Provides (info : OutputInfo) (lang : String) (ds : List Declaration) (key : String)
    (value : Value) : Prop :=
  ∃ entries, (info.context lang ds).result = .ok entries ∧ entries.lookup key = some value

theorem provides_bindings (info : OutputInfo) (ds : List Declaration) {key : String} {value : Value}
    (h : (BindingView.ofDeclarations ds).toEntries.lookup key = some value) :
    info.Provides "python" ds key value :=
  ⟨_, rfl, lookup_overlay h⟩

end IdlCompiler.OutputInfo
