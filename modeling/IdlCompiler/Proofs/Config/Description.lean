import IdlCompiler.Config.Basic
import IdlCompiler.Proofs.Config.WellKeyed
import IdlCompiler.Proofs.Except
import IdlCompiler.Proofs.ExtAttr.Installation

/-!
This module contains what a configuration document says about attribute rules and type bindings, by
the paths of keys at which it says it, and that the rules and bindings of the configuration are
exactly these.
-/

namespace IdlCompiler

namespace Document

def under? (key : String) : Document → Option Document
  | .table entries => entries.lookup key
  | _ => none

def at? : List String → Document → Option Document
  | [], d => some d
  | key :: keys, d => (d.under? key).bind (at? keys)

def inLanguage? (lang : String) : Document → Option Document
  | .list pair => if lang = Output.defaultLanguage then some (.list pair) else none
  | d => d.under? lang

def binding? (d : Document) (table lang name : String) : Option Document :=
  (d.at? [table, name]).bind (·.inLanguage? lang)

inductive DescribesRule (name : String) : Document → Rule → Prop
  | flag : DescribesRule name (.scalar (.text "bool")) ⟨name, .flag, []⟩
  | string : DescribesRule name (.scalar (.text "str")) ⟨name, .string, []⟩
  | choice {values : List String} : values ≠ [] →
      DescribesRule name (.list (values.map fun value => .scalar (.text value)))
        ⟨name, .choice, values⟩

inductive DescribesProjection : Document → Projection → Prop
  | bare (target : String) :
      DescribesProjection (.list [.scalar .null, .scalar (.text target)]) ⟨"", target⟩
  | requiring (requires target : String) :
      DescribesProjection (.list [.scalar (.text requires), .scalar (.text target)])
        ⟨requires, target⟩

structure DescribesRules (d : Document) (rules : List AttrRule) : Prop where
  of_mem : ∀ r ∈ rules, ∃ e, d.at? ["ext-attributes", r.domain.text, r.rule.name] = some e ∧
    DescribesRule r.rule.name e r.rule
  exists_mem : ∀ domain name e, d.at? ["ext-attributes", domain, name] = some e →
    ∃ r ∈ rules, r.domain.text = domain ∧ r.rule.name = name

structure DescribesBindings (d : Document) (table : String) (bindings : List TypeBinding) :
    Prop where
  of_mem : ∀ b ∈ bindings, ∃ pair, d.binding? table b.lang b.name = some pair ∧
    DescribesProjection pair b.projection
  exists_mem : ∀ lang name pair, d.binding? table lang name = some pair →
    ∃ b ∈ bindings, b.lang = lang ∧ b.name = name

theorem at?_nil (d : Document) : d.at? [] = some d := rfl

theorem at?_cons (key : String) (keys : List String) (d : Document) :
    d.at? (key :: keys) = (d.under? key).bind (·.at? keys) := rfl

theorem mem_of_under? {entries : List (String × Document)} {key : String} {d : Document}
    (h : (Document.table entries).under? key = some d) : (key, d) ∈ entries := by
  obtain ⟨front, back, rfl, -⟩ := List.lookup_eq_some_iff.1 h
  simp

namespace WellKeyed

theorem under?_eq_some_iff {entries : List (String × Document)} (h : WellKeyed (.table entries))
    {key : String} {d : Document} :
    (Document.table entries).under? key = some d ↔ (key, d) ∈ entries :=
  h.lookup_eq_some_iff

end WellKeyed

theorem DescribesRule.offers {name : String} {d : Document} {rule : Rule}
    (h : DescribesRule name d rule) : rule.kind = .choice → rule.values ≠ [] := by
  cases h with
  | flag =>
    intro hkind
    cases hkind
  | string =>
    intro hkind
    cases hkind
  | choice hvalues =>
    intro
    exact hvalues

theorem DescribesRule.name_eq {name : String} {d : Document} {rule : Rule}
    (h : DescribesRule name d rule) : rule.name = name := by
  cases h <;> rfl

theorem DescribesProjection.unique {d : Document} {p p' : Projection}
    (h : DescribesProjection d p) (h' : DescribesProjection d p') : p = p' := by
  cases h with
  | bare target =>
    cases h'
    rfl
  | requiring requires target =>
    cases h'
    rfl

end Document

namespace Config

open Document

variable {format : Format} {root entries : List (String × Document)} {d : Document}

theorem mem_sorted {entry : String × Document} : entry ∈ sorted entries ↔ entry ∈ entries :=
  List.mem_mergeSort

theorem texts?_eq_some_iff {items : List Document} {values : List String} :
    texts? items = some values ↔ items = values.map fun value => .scalar (.text value) := by
  fun_induction texts? items generalizing values with
  | case1 => cases values <;> simp
  | case2 s ds ih =>
    rw [Option.map_eq_some_iff]
    cases values with
    | nil => simp
    | cons value values => simp [ih, and_comm, eq_comm (a := s)]
  | case3 d ds hnot =>
    cases values with
    | nil => simp
    | cons value values =>
      have hd : d ≠ .scalar (.text value) := hnot value
      simp [hd]

theorem ruleOf_eq_ok_iff {domain name : String} {rule : Rule} :
    ruleOf format domain name d = .ok rule ↔ DescribesRule name d rule := by
  constructor
  . intro h
    unfold ruleOf at h
    split at h
    . split at h
      . next hkind =>
        cases h
        rw [hkind]
        exact .flag
      . split at h
        . next hkind =>
          cases h
          rw [hkind]
          exact .string
        . cases h
    . split at h
      . next value values hvalues =>
        cases h
        rw [texts?_eq_some_iff.1 hvalues]
        exact .choice (List.cons_ne_nil value values)
      . cases h
    . cases h
  . intro h
    cases h with
    | flag => rfl
    | string => rfl
    | @choice values hvalues =>
      cases values with
      | nil => contradiction
      | cons value values =>
        unfold ruleOf
        dsimp only
        rw [texts?_eq_some_iff.2 rfl]

theorem describesRule_unique {name : String} {rule rule' : Rule} (h : DescribesRule name d rule)
    (h' : DescribesRule name d rule') : rule = rule' := by
  have hrule : ruleOf .json "" name d = .ok rule := ruleOf_eq_ok_iff.2 h
  rw [ruleOf_eq_ok_iff.2 h'] at hrule
  exact (Except.ok.inj hrule).symm

theorem lookup_of_table {key : String} (h : table format root key = .ok entries) :
    root.lookup key = some (.table entries) ∨
      entries = [] ∧ (root.lookup key = none ∨ root.lookup key = some (.scalar .null)) := by
  unfold table at h
  split at h
  . next hlookup =>
    cases h
    exact Or.inr ⟨rfl, Or.inl hlookup⟩
  . next hlookup =>
    cases h
    exact Or.inr ⟨rfl, Or.inr hlookup⟩
  . next hlookup =>
    cases h
    exact Or.inl hlookup
  . cases h

theorem at?_table {key : String} (h : table format root key = .ok entries) (next : String)
    (keys : List String) :
    (Document.table root).at? (key :: next :: keys) =
      (Document.table entries).at? (next :: keys) := by
  rw [at?_cons, under?]
  rcases lookup_of_table h with hlookup | ⟨rfl, hlookup | hlookup⟩
  . rw [hlookup, Option.bind_some]
  . rw [hlookup]
    rfl
  . rw [hlookup]
    rfl

theorem wellKeyed_table {key : String} (hroot : WellKeyed (.table root))
    (h : table format root key = .ok entries) : WellKeyed (.table entries) := by
  rcases lookup_of_table h with hlookup | ⟨rfl, -⟩
  . exact hroot.of_lookup hlookup
  . exact .nil

section Rules

variable {domain name : String} {rules : List AttrRule}

theorem domainRules_eq_ok_iff :
    domainRules format domain d = .ok rules ↔
      ∃ kind entries, Domain.ofText? domain = some kind ∧ d = .table entries ∧
        (sorted entries).mapM
          (fun (name, d) => (ruleOf format domain name d).map (AttrRule.mk kind)) = .ok rules := by
  unfold domainRules
  cases Domain.ofText? domain with
  | none => simp
  | some kind => cases d <;> simp

theorem of_mem_domainRules (hd : d.WellKeyed) (h : domainRules format domain d = .ok rules)
    {r : AttrRule} (hr : r ∈ rules) :
    r.domain.text = domain ∧ ∃ e, d.under? r.rule.name = some e ∧
      DescribesRule r.rule.name e r.rule := by
  obtain ⟨kind, entries, hkind, rfl, hrules⟩ := domainRules_eq_ok_iff.1 h
  obtain ⟨⟨name, e⟩, hentry, hmade⟩ := (Except.mem_iff_of_mapM_eq_ok hrules).1 hr
  obtain ⟨rule, hrule, rfl⟩ := Except.map_eq_ok_iff.1 hmade
  have hdescribes := ruleOf_eq_ok_iff.1 hrule
  refine ⟨Schema.text_of_ofText? hkind, e, ?_, ?_⟩
  . rw [hdescribes.name_eq, hd.under?_eq_some_iff, ← mem_sorted]
    exact hentry
  . rw [hdescribes.name_eq]
    exact hdescribes

theorem exists_mem_domainRules (h : domainRules format domain d = .ok rules) {e : Document}
    (he : d.under? name = some e) :
    ∃ r ∈ rules, r.domain.text = domain ∧ r.rule.name = name := by
  obtain ⟨kind, entries, hkind, rfl, hrules⟩ := domainRules_eq_ok_iff.1 h
  have hentry := mem_sorted.2 (mem_of_under? he)
  obtain ⟨r, hr, hmade⟩ := Except.exists_of_mapM_eq_ok hrules hentry
  obtain ⟨rule, hrule, rfl⟩ := Except.map_eq_ok_iff.1 hmade
  exact ⟨_, hr, Schema.text_of_ofText? hkind, (ruleOf_eq_ok_iff.1 hrule).name_eq⟩

theorem of_mem_attrRulesOf (hentries : WellKeyed (.table entries))
    (h : attrRulesOf format entries = .ok rules) {r : AttrRule} (hr : r ∈ rules) :
    ∃ e, (Document.table entries).at? [r.domain.text, r.rule.name] = some e ∧
      DescribesRule r.rule.name e r.rule := by
  obtain ⟨⟨domain, d⟩, hentry, part, hrules, hr⟩ := (Except.mem_iff_of_flatten_mapM h).1 hr
  rw [mem_sorted] at hentry
  obtain ⟨rfl, e, he, hdescribes⟩ := of_mem_domainRules (hentries.of_mem hentry) hrules hr
  refine ⟨e, ?_, hdescribes⟩
  rw [at?_cons, hentries.under?_eq_some_iff.2 hentry, Option.bind_some, at?_cons, he]
  rfl

theorem exists_mem_attrRulesOf (h : attrRulesOf format entries = .ok rules) {e : Document}
    (he : (Document.table entries).at? [domain, name] = some e) :
    ∃ r ∈ rules, r.domain.text = domain ∧ r.rule.name = name := by
  simp only [at?_cons, at?_nil, Option.bind_eq_some_iff] at he
  obtain ⟨d, hd, e, he, -⟩ := he
  have hentry := mem_sorted.2 (mem_of_under? hd)
  obtain ⟨part, hrules, hsubset⟩ := Except.exists_of_flatten_mapM h hentry
  obtain ⟨r, hr, hdomain, hname⟩ := exists_mem_domainRules hrules he
  exact ⟨r, hsubset r hr, hdomain, hname⟩

end Rules

section Bindings

variable {key name lang : String} {bindings : List TypeBinding}

theorem binding_eq_ok_iff {pair : List Document} {b : TypeBinding} :
    binding format name lang pair = .ok b ↔
      b.name = name ∧ b.lang = lang ∧ DescribesProjection (.list pair) b.projection := by
  constructor
  . intro h
    unfold binding at h
    split at h
    . next requires target =>
      dsimp only at h
      split at h
      . split at h
        . cases h
          exact ⟨rfl, rfl, .bare _⟩
        . cases h
      . split at h
        . cases h
          exact ⟨rfl, rfl, .requiring _ _⟩
        . cases h
      . cases h
    . cases h
  . rintro ⟨rfl, rfl, h⟩
    obtain ⟨lang, name, projection⟩ := b
    cases h with
    | bare target => rfl
    | requiring requires target => rfl

theorem of_mem_nameBindings (hd : d.WellKeyed)
    (h : nameBindings format key name d = .ok bindings) {b : TypeBinding} (hb : b ∈ bindings) :
    b.name = name ∧ ∃ pair, d.inLanguage? b.lang = some pair ∧
      DescribesProjection pair b.projection := by
  unfold nameBindings at h
  split at h
  . next pair =>
    split at h
    . next native hnative =>
      cases h
      rw [List.mem_singleton] at hb
      obtain ⟨hname, hlang, hdescribes⟩ := binding_eq_ok_iff.1 hnative
      rw [hb]
      refine ⟨hname, .list pair, ?_, hdescribes⟩
      rw [inLanguage?, if_pos hlang]
    . cases h
  . next entries =>
    obtain ⟨⟨lang, e⟩, hentry, hmade⟩ := (Except.mem_iff_of_mapM_eq_ok h).1 hb
    dsimp only at hmade
    split at hmade
    . next pair =>
      obtain ⟨hname, rfl, hdescribes⟩ := binding_eq_ok_iff.1 (Except.mapError_eq_ok_iff.1 hmade)
      refine ⟨hname, .list pair, ?_, hdescribes⟩
      exact hd.under?_eq_some_iff.2 (mem_sorted.1 hentry)
    . cases hmade
  . cases h

theorem exists_mem_nameBindings (h : nameBindings format key name d = .ok bindings)
    {pair : Document} (hpair : d.inLanguage? lang = some pair) :
    ∃ b ∈ bindings, b.name = name ∧ b.lang = lang := by
  unfold nameBindings at h
  split at h
  . next items =>
    split at h
    . next native hnative =>
      cases h
      obtain ⟨hname, hlang, -⟩ := binding_eq_ok_iff.1 hnative
      refine ⟨native, List.mem_singleton_self native, hname, ?_⟩
      rw [inLanguage?, Option.ite_none_right_eq_some] at hpair
      rw [hlang, hpair.1]
    . cases h
  . next entries =>
    have hentry := mem_sorted.2 (mem_of_under? hpair)
    obtain ⟨b, hb, hmade⟩ := Except.exists_of_mapM_eq_ok h hentry
    dsimp only at hmade
    split at hmade
    . obtain ⟨hname, hlang, -⟩ := binding_eq_ok_iff.1 (Except.mapError_eq_ok_iff.1 hmade)
      exact ⟨b, hb, hname, hlang⟩
    . cases hmade
  . cases h

theorem of_mem_bindingsOf (hentries : WellKeyed (.table entries))
    (h : bindingsOf format key entries = .ok bindings) {b : TypeBinding} (hb : b ∈ bindings) :
    ∃ pair, ((Document.table entries).at? [b.name]).bind (·.inLanguage? b.lang) = some pair ∧
      DescribesProjection pair b.projection := by
  obtain ⟨⟨name, d⟩, hentry, part, hbindings, hb⟩ := (Except.mem_iff_of_flatten_mapM h).1 hb
  rw [mem_sorted] at hentry
  obtain ⟨rfl, pair, hpair, hdescribes⟩ :=
    of_mem_nameBindings (hentries.of_mem hentry) hbindings hb
  refine ⟨pair, ?_, hdescribes⟩
  rw [at?_cons, hentries.under?_eq_some_iff.2 hentry, Option.bind_some, at?_nil, Option.bind_some]
  exact hpair

theorem exists_mem_bindingsOf (h : bindingsOf format key entries = .ok bindings) {pair : Document}
    (hpair : ((Document.table entries).at? [name]).bind (·.inLanguage? lang) = some pair) :
    ∃ b ∈ bindings, b.name = name ∧ b.lang = lang := by
  simp only [at?_cons, at?_nil, Option.bind_fun_some, Option.bind_eq_some_iff] at hpair
  obtain ⟨d, hd, hpair⟩ := hpair
  have hentry := mem_sorted.2 (mem_of_under? hd)
  obtain ⟨part, hbindings, hsubset⟩ := Except.exists_of_flatten_mapM h hentry
  obtain ⟨b, hb, hname, hlang⟩ := exists_mem_nameBindings hbindings hpair
  exact ⟨b, hsubset b hb, hname, hlang⟩

end Bindings

section Documents

variable {config : Config} {rules : List AttrRule} {key : String} {bindings : List TypeBinding}

theorem describesRules (hroot : WellKeyed (.table root))
    (hentries : table format root "ext-attributes" = .ok entries)
    (h : attrRulesOf format entries = .ok rules) : (Document.table root).DescribesRules rules where
  of_mem r hr := by
    rw [at?_table hentries]
    exact of_mem_attrRulesOf (wellKeyed_table hroot hentries) h hr
  exists_mem domain name e he := by
    rw [at?_table hentries] at he
    exact exists_mem_attrRulesOf h he

theorem describesBindings (hroot : WellKeyed (.table root))
    (hentries : table format root key = .ok entries)
    (h : bindingsOf format key entries = .ok bindings) :
    (Document.table root).DescribesBindings key bindings where
  of_mem b hb := by
    rw [binding?, at?_table hentries]
    exact of_mem_bindingsOf (wellKeyed_table hroot hentries) h hb
  exists_mem lang name pair hpair := by
    rw [binding?, at?_table hentries] at hpair
    obtain ⟨b, hb, hname, hlang⟩ := exists_mem_bindingsOf h hpair
    exact ⟨b, hb, hlang, hname⟩

theorem describes_of_ofTable (hroot : WellKeyed (.table root))
    (h : ofTable format root = .ok config) :
    (Document.table root).DescribesRules config.attrRules ∧
      (Document.table root).DescribesBindings "simple_types" config.simpleTypes ∧
      (Document.table root).DescribesBindings "generic_types" config.genericTypes := by
  unfold ofTable at h
  simp only [Except.bind_eq_ok_iff] at h
  obtain ⟨_, -, outputs, -, attrs, hattrs, rules, hrules, simple, hsimple, simpleTypes,
    hsimpleTypes, generic, hgeneric, genericTypes, hgenericTypes, h⟩ := h
  cases h
  exact ⟨describesRules hroot hattrs hrules, describesBindings hroot hsimple hsimpleTypes,
    describesBindings hroot hgeneric hgenericTypes⟩

theorem describes_of_ofDocument? (hd : d.WellKeyed)
    (h : ofDocument? format (some d) = .ok config) :
    d.DescribesRules config.attrRules ∧
      d.DescribesBindings "simple_types" config.simpleTypes ∧
      d.DescribesBindings "generic_types" config.genericTypes := by
  unfold ofDocument? at h
  split at h
  . next root hroot =>
    cases hroot
    exact describes_of_ofTable hd h
  . next hnull =>
    -- No document at all has as little at its paths as the empty table.
    cases hnull
    obtain ⟨hrules, hsimple, hgeneric⟩ := describes_of_ofTable .nil h
    exact ⟨⟨hrules.of_mem, hrules.exists_mem⟩, ⟨hsimple.of_mem, hsimple.exists_mem⟩,
      ⟨hgeneric.of_mem, hgeneric.exists_mem⟩⟩
  . cases h

end Documents

end Config

end IdlCompiler
