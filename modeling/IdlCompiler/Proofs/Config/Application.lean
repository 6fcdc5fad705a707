import IdlCompiler.Proofs.Config.Description
import IdlCompiler.Proofs.Config.TomlTables
import IdlCompiler.Proofs.Config.YamlMappings
import Mathlib

/-!
This module contains what becomes of the rules and bindings that are always there when a configuration
is added to them. Adding succeeds, what the document of the configuration describes is found
afterwards, and what it does not name is found as before.
-/

namespace IdlCompiler

namespace Schema

variable {s : Schema} {rules : List AttrRule} {domain name : String}

def rule? (s : Schema) (domain name : String) : Option Rule :=
  (s.rulesNamed domain).find? (·.name = name)

def withRule (s : Schema) (r : AttrRule) : Schema where
  rules d := if d = r.domain then insertRule r.rule (s.rules d) else s.rules d

theorem install_eq_ok {r : AttrRule} (h : Offers r.rule) :
    s.install r.domain r.rule = .ok (s.withRule r) :=
  install_eq_ok_iff.2 ⟨h, rfl⟩

theorem find?_insertRule (rule : Rule) (rules : List Rule) (name : String) :
    (insertRule rule rules).find? (·.name = name) =
      if rule.name = name then some rule else rules.find? (·.name = name) := by
  induction rules with
  | nil =>
    rw [insertRule, List.find?_singleton]
    simp
  | cons r rs ih =>
    rw [insertRule]
    split
    . next hname => by_cases h : rule.name = name <;> simp [h, hname]
    . next hname =>
      by_cases h : r.name = name
      . have hne : rule.name ≠ name := by
          intro hrule
          exact hname (h.trans hrule.symm)
        simp [h, hne]
      . simp [h, ih]

theorem ofText?_text (d : Domain) : Domain.ofText? d.text = some d := by
  cases d <;> rfl

theorem rule?_withRule (s : Schema) (r : AttrRule) (domain name : String) :
    (s.withRule r).rule? domain name =
      if r.domain.text = domain ∧ r.rule.name = name then some r.rule else s.rule? domain name := by
  unfold rule? rulesNamed
  cases hd : Domain.ofText? domain with
  | none =>
    have hne : r.domain.text ≠ domain := by
      rintro rfl
      simp [ofText?_text] at hd
    simp [hne]
  | some d =>
    obtain rfl := text_of_ofText? hd
    by_cases hr : d = r.domain
    . simp [withRule, hr, find?_insertRule]
    . have hne : r.domain.text ≠ d.text := by
        intro htext
        have := ofText?_text d
        rw [← htext, ofText?_text, Option.some.injEq] at this
        exact hr this.symm
      simp [withRule, hr, hne]

theorem rule?_foldl_of_forall_ne
    (h : ∀ r ∈ rules, ¬(r.domain.text = domain ∧ r.rule.name = name)) :
    (rules.foldl withRule s).rule? domain name = s.rule? domain name := by
  induction rules generalizing s with
  | nil => rfl
  | cons r rs ih =>
    obtain ⟨hr, hrs⟩ := List.forall_mem_cons.1 h
    rw [List.foldl_cons, ih hrs, rule?_withRule, if_neg hr]

theorem rule?_foldl_of_mem {rule : Rule}
    (hmem : ∃ r ∈ rules, r.domain.text = domain ∧ r.rule.name = name)
    (hsame : ∀ r ∈ rules, r.domain.text = domain → r.rule.name = name → r.rule = rule) :
    (rules.foldl withRule s).rule? domain name = some rule := by
  induction rules using List.reverseRecOn with
  | nil => simp at hmem
  | append_singleton rs r ih =>
    rw [List.foldl_concat, rule?_withRule]
    split
    . next hr => rw [hsame r (by simp) hr.1 hr.2]
    . next hr =>
      apply ih
      . obtain ⟨r', hr', hkey⟩ := hmem
        rw [List.mem_append, List.mem_singleton] at hr'
        rcases hr' with hr' | rfl
        . exact ⟨r', hr', hkey⟩
        . contradiction
      . intro r' hr'
        exact hsame r' (List.mem_append_left _ hr')

end Schema

namespace Registry

variable {r : Registry} {bindings old : List TypeBinding} {lang name : String}

theorem foldl_defineSimple (bindings : List TypeBinding) (r : Registry) :
    bindings.foldl defineSimple r = { r with simple := bindings.reverse ++ r.simple } := by
  induction bindings generalizing r with
  | nil => rfl
  | cons b bs ih => simp [ih, defineSimple]

theorem foldl_defineGeneric (bindings : List TypeBinding) (r : Registry) :
    bindings.foldl defineGeneric r = { r with generic := bindings.reverse ++ r.generic } := by
  induction bindings generalizing r with
  | nil => rfl
  | cons b bs ih => simp [ih, defineGeneric]

theorem lookup_append_of_forall_ne (h : ∀ b ∈ bindings, ¬(b.lang = lang ∧ b.name = name)) :
    lookup (bindings ++ old) lang name = lookup old lang name := by
  have hnone : bindings.find? (fun b => b.lang = lang ∧ b.name = name) = none := by
    rw [List.find?_eq_none]
    simpa using h
  rw [lookup, List.find?_append, hnone, Option.none_or, lookup]

theorem lookup_append_of_mem {p : Projection}
    (hmem : ∃ b ∈ bindings, b.lang = lang ∧ b.name = name)
    (hsame : ∀ b ∈ bindings, b.lang = lang → b.name = name → b.projection = p) :
    lookup (bindings ++ old) lang name = some p := by
  have hfound : (bindings.find? fun b => b.lang = lang ∧ b.name = name).isSome := by
    simpa using hmem
  obtain ⟨b, hb⟩ := Option.isSome_iff_exists.1 hfound
  have hkey : b.lang = lang ∧ b.name = name := by simpa using List.find?_some hb
  rw [lookup, List.find?_append, hb, Option.some_or, Option.map_some,
    hsame b (List.mem_of_find?_eq_some hb) hkey.1 hkey.2]

end Registry

namespace Document

structure OverridesRules (d : Document) (before after : String → String → Option Rule) : Prop where
  described : ∀ domain name e, d.at? ["ext-attributes", domain, name] = some e →
    ∃ rule, DescribesRule name e rule ∧ after domain name = some rule
  other : ∀ domain name, d.at? ["ext-attributes", domain, name] = none →
    after domain name = before domain name

structure OverridesProjections (d : Document) (table : String)
    (before after : String → String → Option Projection) : Prop where
  described : ∀ lang name pair, d.binding? table lang name = some pair →
    ∃ p, DescribesProjection pair p ∧ after lang name = some p
  other : ∀ lang name, d.binding? table lang name = none → after lang name = before lang name

structure AppliedIn (d : Document) (schema : Schema) (registry : Registry) : Prop where
  rules : d.OverridesRules Schema.builtin.rule? schema.rule?
  simple : d.OverridesProjections "simple_types" Registry.builtin.simple? registry.simple?
  generic : d.OverridesProjections "generic_types" Registry.builtin.generic? registry.generic?
  isSimple : ∀ name, registry.isSimple name ↔
    Registry.builtin.isSimple name ∨ ∃ lang, (d.binding? "simple_types" lang name).isSome

variable {d : Document}

theorem DescribesRules.offers {rules : List AttrRule} (h : d.DescribesRules rules) :
    ∀ r ∈ rules, Schema.Offers r.rule := by
  intro r hr
  obtain ⟨e, -, hdescribes⟩ := h.of_mem r hr
  exact hdescribes.offers

theorem DescribesRules.overrides {rules : List AttrRule} (h : d.DescribesRules rules) (s : Schema) :
    d.OverridesRules s.rule? (rules.foldl Schema.withRule s).rule? where
  described domain name e he := by
    obtain ⟨r, hr, rfl, rfl⟩ := h.exists_mem domain name e he
    -- All rules of this domain and this name are described at the same place.
    have hdescribed : ∀ r' ∈ rules, r'.domain.text = r.domain.text → r'.rule.name = r.rule.name →
        DescribesRule r.rule.name e r'.rule := by
      intro r' hr' hdomain hname
      obtain ⟨e', he', hdescribes⟩ := h.of_mem r' hr'
      rw [hdomain, hname, he, Option.some.injEq] at he'
      rw [he', ← hname]
      exact hdescribes
    have hrule := hdescribed r hr rfl rfl
    refine ⟨r.rule, hrule, Schema.rule?_foldl_of_mem ⟨r, hr, rfl, rfl⟩ ?_⟩
    intro r' hr' hdomain hname
    exact Config.describesRule_unique (hdescribed r' hr' hdomain hname) hrule
  other domain name hnone := by
    apply Schema.rule?_foldl_of_forall_ne
    rintro r hr ⟨rfl, rfl⟩
    obtain ⟨e, he, -⟩ := h.of_mem r hr
    rw [hnone] at he
    cases he

theorem DescribesBindings.overrides {table : String} {bindings : List TypeBinding}
    (h : d.DescribesBindings table bindings) (old : List TypeBinding) :
    d.OverridesProjections table (Registry.lookup old)
      (Registry.lookup (bindings.reverse ++ old)) where
  described lang name pair hpair := by
    obtain ⟨b, hb, rfl, rfl⟩ := h.exists_mem lang name pair hpair
    have hdescribed : ∀ b' ∈ bindings, b'.lang = b.lang → b'.name = b.name →
        DescribesProjection pair b'.projection := by
      intro b' hb' hlang hname
      obtain ⟨pair', hpair', hdescribes⟩ := h.of_mem b' hb'
      rw [hlang, hname, hpair, Option.some.injEq] at hpair'
      rw [hpair']
      exact hdescribes
    have hprojection := hdescribed b hb rfl rfl
    refine ⟨b.projection, hprojection, ?_⟩
    apply Registry.lookup_append_of_mem
    . exact ⟨b, List.mem_reverse.2 hb, rfl, rfl⟩
    . intro b' hb' hlang hname
      exact (hdescribed b' (List.mem_reverse.1 hb') hlang hname).unique hprojection
  other lang name hnone := by
    apply Registry.lookup_append_of_forall_ne
    rintro b hb ⟨rfl, rfl⟩
    obtain ⟨pair, hpair, -⟩ := h.of_mem b (List.mem_reverse.1 hb)
    rw [hnone] at hpair
    cases hpair

theorem DescribesBindings.exists_name_iff {table : String} {bindings : List TypeBinding}
    (h : d.DescribesBindings table bindings) (name : String) :
    (∃ b ∈ bindings, b.name = name) ↔ ∃ lang, (d.binding? table lang name).isSome := by
  constructor
  . rintro ⟨b, hb, rfl⟩
    obtain ⟨pair, hpair, -⟩ := h.of_mem b hb
    exact ⟨b.lang, Option.isSome_of_eq_some hpair⟩
  . rintro ⟨lang, hsome⟩
    obtain ⟨pair, hpair⟩ := Option.isSome_iff_exists.1 hsome
    obtain ⟨b, hb, -, hname⟩ := h.exists_mem lang name pair hpair
    exact ⟨b, hb, hname⟩

end Document

namespace Config

open Document

variable {format : Format} {config : Config}

theorem extendRegistry_eq (config : Config) (r : Registry) :
    config.extendRegistry r =
      { simple := config.simpleTypes.reverse ++ r.simple
        generic := config.genericTypes.reverse ++ r.generic } := by
  rw [extendRegistry, Registry.foldl_defineSimple, Registry.foldl_defineGeneric]

theorem extendSchema_eq_ok (h : ∀ r ∈ config.attrRules, Schema.Offers r.rule) (s : Schema) :
    config.extendSchema s = .ok (config.attrRules.foldl Schema.withRule s) := by
  unfold extendSchema
  apply Except.foldlM_eq_ok_foldl
  intro r hr s
  rw [Schema.install_eq_ok (h r hr)]
  rfl

theorem wellKeyed_of_document? {text : String} {d : Document}
    (h : document? format text = some d) : d.WellKeyed := by
  cases format with
  | json => exact wellKeyed_of_parseJson? h
  | yaml => exact Yaml.wellKeyed_of_parse? h
  | toml => exact Toml.wellKeyed_of_parse? h

/--
A configuration can be added to what is always there. What its document describes is found afterwards,
and everything that the document does not name is found as before.
-/
theorem exists_extendSchema_appliedIn (format : Format) :
    (∀ text d, document? format text = some d → d.WellKeyed) ∧
      ∀ d config, d.WellKeyed → ofDocument? format (some d) = .ok config →
        ∃ schema, config.extendSchema .builtin = .ok schema ∧
          d.AppliedIn schema (config.extendRegistry .builtin) := by
  refine ⟨fun text d => wellKeyed_of_document?, ?_⟩
  intro d config hd hconfig
  obtain ⟨hrules, hsimple, hgeneric⟩ := describes_of_ofDocument? hd hconfig
  refine ⟨_, extendSchema_eq_ok hrules.offers .builtin, ?_⟩
  rw [extendRegistry_eq]
  exact {
    rules := hrules.overrides .builtin
    simple := hsimple.overrides Registry.builtin.simple
    generic := hgeneric.overrides Registry.builtin.generic
    isSimple := by
      intro name
      rw [← hsimple.exists_name_iff]
      simp [Registry.isSimple, or_comm] }

def overridingDocument : Document :=
  .table [
    ("ext-attributes", .table [("attribute", .table [("default", .scalar (.text "bool"))])]),
    ("simple_types", .table [("string", .list [.scalar .null, .scalar (.text "Text")])]),
    ("generic_types", .table [
      ("vector", .table [("py3", .list [.scalar (.text "typing"), .scalar (.text "List")])])])]

theorem wellKeyed_overridingDocument : overridingDocument.WellKeyed := by
  simp [overridingDocument]

theorem exists_extendSchema_appliedIn_overriding :
    (Document.list [.scalar .null]).WellKeyed ∧ ∃ config schema,
      ofDocument? .json (some overridingDocument) = .ok config ∧
      config.extendSchema .builtin = .ok schema ∧
      schema.rule? "attribute" "default" = some ⟨"default", .flag, []⟩ ∧
      schema.rule? "argument" "default" = some ⟨"default", .default, []⟩ ∧
      (config.extendRegistry .builtin).simple? "cxx" "string" = some ⟨"", "Text"⟩ ∧
      (config.extendRegistry .builtin).simple? "py3" "string" = some ⟨"", "str"⟩ ∧
      (config.extendRegistry .builtin).generic? "py3" "vector" = some ⟨"typing", "List"⟩ ∧
      (config.extendRegistry .builtin).isSimple "string" := by
  obtain ⟨hkeyed, happlies⟩ := exists_extendSchema_appliedIn .json
  refine ⟨hkeyed "[null]" _ (by cbv), ?_⟩
  have hconfig : ofDocument? .json (some overridingDocument) = .ok {
      attrRules := [⟨.attribute, ⟨"default", .flag, []⟩⟩]
      simpleTypes := [⟨"cxx", "string", ⟨"", "Text"⟩⟩]
      genericTypes := [⟨"py3", "vector", ⟨"typing", "List"⟩⟩] } := by
    cbv
  obtain ⟨schema, hschema, happlied⟩ := happlies _ _ wellKeyed_overridingDocument hconfig
  refine ⟨_, schema, hconfig, hschema, ?_, ?_, ?_, ?_, ?_, ?_⟩
  . obtain ⟨rule, hrule, hfound⟩ := happlied.rules.described "attribute" "default" _ rfl
    rw [hfound, describesRule_unique hrule .flag]
  . exact happlied.rules.other "argument" "default" rfl
  . obtain ⟨p, hp, hfound⟩ := happlied.simple.described "cxx" "string" _ rfl
    rw [hfound, hp.unique (.bare "Text")]
  . exact happlied.simple.other "py3" "string" rfl
  . obtain ⟨p, hp, hfound⟩ := happlied.generic.described "py3" "vector" _ rfl
    rw [hfound, hp.unique (.requiring "typing" "List")]
  . exact (happlied.isSimple "string").2 (.inr ⟨"cxx", rfl⟩)

end Config

end IdlCompiler
