import IdlCompiler.Proofs.Except
import IdlCompiler.Proofs.ExtAttr.Installation

/-!
This module contains which values extended attributes can have. Under rules of different names there
is a value for every rule and for nothing else, and it is of the form that the kind of the rule
promises, however the rules came to be.
-/

namespace IdlCompiler

def Rule.Fits (r : Rule) (value : AttrValue) : Prop :=
  match r.kind with
  | .flag => ∃ isSet, value = .flag isSet
  | .choice => ∃ text ∈ r.values, value = .text text
  | .string =>
    value = .absent ∨ (∃ text, value = .text text) ∨ ∃ texts, value = .texts texts ∧ 2 ≤ texts.length
  | .guard => value = .absent ∨ ∃ text, value = .text text
  | .guards => ∃ texts, value = .texts texts
  | .default => ∃ text, value = .text text
  | .unsupported _ => value = .absent

structure AttrValues.FitAll (rules : List Rule) (values : AttrValues) : Prop where
  names : values.map (·.1) = rules.map (·.name)
  fits : ∀ entry ∈ values, ∀ r ∈ rules, r.name = entry.1 → r.Fits entry.2

namespace Rule

variable {r : Rule} {value : AttrValue}

theorem fits_defaultValue (h : Schema.Offers r) : r.Fits r.defaultValue := by
  unfold Fits defaultValue
  cases hkind : r.kind with
  | flag => exact ⟨false, rfl⟩
  | choice =>
    rcases List.exists_cons_of_ne_nil (h hkind) with ⟨first, rest, hvalues⟩
    refine ⟨first, ?_, ?_⟩
    . rw [hvalues]
      exact List.mem_cons_self
    . rw [hvalues]
      rfl
  | string => exact .inl rfl
  | guard => exact .inl rfl
  | guards => exact ⟨[], rfl⟩
  | default => exact ⟨"", rfl⟩
  | unsupported code => rfl

theorem fits_of_check {args : List String} (h : r.check args = .ok value) : r.Fits value := by
  unfold check at h
  unfold Fits
  cases hkind : r.kind with
  | flag =>
    rw [hkind] at h
    cases args with
    | nil =>
      cases h
      exact ⟨true, rfl⟩
    | cons arg args => cases h
  | choice =>
    rw [hkind] at h
    rcases args with _ | ⟨arg, _ | ⟨arg', args⟩⟩
    . cases h
    . dsimp only at h
      split at h
      . next hmem =>
        cases h
        exact ⟨arg, hmem, rfl⟩
      . cases h
    . cases h
  | string =>
    rw [hkind] at h
    rcases args with _ | ⟨arg, _ | ⟨arg', args⟩⟩
    . cases h
    . cases h
      exact .inr (.inl ⟨arg, rfl⟩)
    . cases h
      exact .inr (.inr ⟨_, rfl, by simp⟩)
  | guard =>
    rw [hkind] at h
    rcases args with _ | ⟨arg, _ | ⟨arg', args⟩⟩
    . cases h
    . cases h
      exact .inr ⟨arg, rfl⟩
    . cases h
  | guards =>
    rw [hkind] at h
    cases h
    exact ⟨args, rfl⟩
  | default =>
    rw [hkind] at h
    rcases args with _ | ⟨arg, _ | ⟨arg', args⟩⟩
    . cases h
    . cases h
      exact ⟨arg, rfl⟩
    . cases h
  | unsupported code =>
    rw [hkind] at h
    cases h

theorem fits_of_apply {a : ExtAttr} (h : r.apply a = .ok value) : r.Fits value :=
  fits_of_check (Except.mapError_eq_ok_iff.1 h)

end Rule

namespace AttrValues

variable {rules : List Rule} {values : AttrValues}

theorem mem_of_get?_eq_some {name : String} {value : AttrValue} (h : values.get? name = some value) :
    (name, value) ∈ values := by
  rcases List.lookup_eq_some_iff.1 h with ⟨front, back, rfl, -⟩
  exact List.mem_append_right _ List.mem_cons_self

namespace FitAll

theorem defaults (h : ∀ r ∈ rules, Schema.Offers r) (hdistinct : (rules.map (·.name)).Nodup) :
    FitAll rules (Schema.defaults rules) where
  names := by
    unfold Schema.defaults
    rw [List.map_map]
    rfl
  fits := by
    intro entry hentry r hr hname
    rcases List.mem_map.1 hentry with ⟨r', hr', rfl⟩
    rw [List.inj_on_of_nodup_map hdistinct hr hr' hname]
    exact Rule.fits_defaultValue (h r' hr')

theorem set (h : FitAll rules values) (hdistinct : (rules.map (·.name)).Nodup) {r : Rule}
    (hr : r ∈ rules) {value : AttrValue} (hfits : r.Fits value) :
    FitAll rules (values.set r.name value) where
  names := by
    rw [← h.names]
    unfold AttrValues.set
    rw [List.map_map]
    apply List.map_congr_left
    intro entry _
    rw [Function.comp_apply]
    split
    . next hname => exact hname.symm
    . rfl
  fits := by
    intro entry hentry r' hr' hname
    rcases List.mem_map.1 hentry with ⟨old, hold, heq⟩
    split at heq
    . rw [← heq] at hname ⊢
      rw [List.inj_on_of_nodup_map hdistinct hr' hr hname]
      exact hfits
    . rw [← heq] at hname ⊢
      exact h.fits old hold r' hr' hname

theorem exists_get?_eq_some (h : FitAll rules values) {r : Rule} (hr : r ∈ rules) :
    ∃ value, values.get? r.name = some value ∧ r.Fits value := by
  have hname : r.name ∈ values.map (·.1) := by
    rw [h.names]
    exact List.mem_map_of_mem hr
  rcases List.mem_map.1 hname with ⟨entry, hentry, heq⟩
  have hsome : (values.get? r.name).isSome := by
    unfold get?
    rw [List.lookup_isSome_iff]
    exact ⟨entry, hentry, by rw [heq, beq_self_eq_true]⟩
  rcases Option.isSome_iff_exists.1 hsome with ⟨value, hvalue⟩
  exact ⟨value, hvalue, h.fits _ (mem_of_get?_eq_some hvalue) r hr rfl⟩

end FitAll

end AttrValues

namespace Schema

open AttrValues

variable {rules : List Rule} {values values' : AttrValues} {attrs : List ExtAttr}

theorem fitAll_of_applyAll (hdistinct : (rules.map (·.name)).Nodup) (hfit : FitAll rules values)
    (h : (applyAll rules values attrs).result = .ok values') : FitAll rules values' := by
  induction attrs generalizing values with
  | nil =>
    cases h
    exact hfit
  | cons a attrs ih =>
    rw [applyAll] at h
    split at h
    . rw [Outcome.result_bind] at h
      exact ih hfit h
    . next r hfind =>
      split at h
      . cases h
      . next value happly =>
        have hr := List.mem_of_find?_eq_some hfind
        exact ih (hfit.set hdistinct hr (Rule.fits_of_apply happly)) h

theorem fitAll_of_validateBy (hdistinct : (rules.map (·.name)).Nodup)
    (hoffers : ∀ r ∈ rules, Offers r) (h : (validateBy rules attrs).result = .ok values) :
    FitAll rules values :=
  fitAll_of_applyAll hdistinct (.defaults hoffers hdistinct) h

/--
Whatever rules were to be added to the schema that is always there, the rules of a domain have
different names, and choices allow something. One more attempt fails exactly if there is no such
domain or the rule is an empty choice, and then changes nothing. Otherwise the rule is inserted, and
nothing else changes. If extended attributes are valid then the names of their values are those of
the rules, and each value has the form that its rule promises.
-/
theorem ofAttempts_distinct_and_fits (calls : List (String × Rule)) :
    (∀ domain, (((ofAttempts calls).rulesNamed domain).map (·.name)).Nodup ∧
      ∀ r ∈ (ofAttempts calls).rulesNamed domain, Offers r) ∧
    (∀ domain rule,
      ((∃ e, (ofAttempts calls).installNamed domain rule = .error e) ↔
        Domain.ofText? domain = none ∨ ¬Offers rule) ∧
      (∀ e, (ofAttempts calls).installNamed domain rule = .error e →
        ofAttempts (calls ++ [(domain, rule)]) = ofAttempts calls) ∧
      (∀ s, (ofAttempts calls).installNamed domain rule = .ok s →
        ofAttempts (calls ++ [(domain, rule)]) = s ∧
        Inserted rule ((ofAttempts calls).rulesNamed domain) (s.rulesNamed domain) ∧
        ∀ other, other ≠ domain → s.rulesNamed other = (ofAttempts calls).rulesNamed other)) ∧
    (∀ domain attrs values,
      (validateBy ((ofAttempts calls).rulesNamed domain) attrs).result = .ok values →
        values.map (·.1) = ((ofAttempts calls).rulesNamed domain).map (·.name) ∧
        ∀ r ∈ (ofAttempts calls).rulesNamed domain,
          ∃ value, values.get? r.name = some value ∧ r.Fits value) := by
  have hwell := wellFormed_ofAttempts calls
  have hstep (domain : String) (rule : Rule) : ofAttempts (calls ++ [(domain, rule)]) =
      (ofAttempts calls).attempt domain rule := by
    unfold ofAttempts
    rw [List.foldl_append]
    rfl
  refine ⟨?_, ?_, ?_⟩
  . intro domain
    exact ⟨hwell.nodup_rulesNamed domain, hwell.offers_rulesNamed domain⟩
  . intro domain rule
    refine ⟨exists_installNamed_eq_error_iff, ?_, ?_⟩
    . intro e he
      rw [hstep, attempt_of_error he]
    . intro s hs
      rw [hstep, attempt_of_ok hs]
      exact ⟨rfl, rulesNamed_of_installNamed hs⟩
  . intro domain attrs values hvalid
    have hfit := fitAll_of_validateBy (hwell.nodup_rulesNamed domain)
      (hwell.offers_rulesNamed domain) hvalid
    exact ⟨hfit.names, fun r hr => hfit.exists_get?_eq_some hr⟩

def modes : List (String × Rule) :=
  [("operation", ⟨"static", .choice, ["no", "yes"]⟩), ("nowhere", ⟨"mode", .flag, []⟩),
    ("enum", ⟨"mode", .choice, []⟩), ("enum", ⟨"mode", .choice, ["narrow", "wide"]⟩)]

theorem ofAttempts_distinct_and_fits_modes :
    (∃ e, (ofAttempts modes).installNamed "enum" ⟨"size", .choice, []⟩ = .error e) ∧
    ofAttempts (modes ++ [("enum", ⟨"size", .choice, []⟩)]) = ofAttempts modes ∧
    (∃ s, (ofAttempts modes).installNamed "enum" ⟨"mode", .flag, []⟩ = .ok s ∧
      Inserted ⟨"mode", .flag, []⟩ ((ofAttempts modes).rulesNamed "enum") (s.rulesNamed "enum")) ∧
    (validateBy ((ofAttempts modes).rulesNamed "enum")
      [⟨⟨"mode", {}⟩, [.ident "wide"]⟩]).result = .ok [("mode", .text "wide")] ∧
    ∃ value, AttrValues.get? [("mode", .text "wide")] "mode" = some value ∧
      Rule.Fits ⟨"mode", .choice, ["narrow", "wide"]⟩ value := by
  have h := ofAttempts_distinct_and_fits modes
  have hmode : (ofAttempts modes).rulesNamed "enum" =
      [⟨"mode", .choice, ["narrow", "wide"]⟩] := by decide
  have hempty := h.2.1 "enum" ⟨"size", .choice, []⟩
  rcases hempty.1.2 (.inr (by simp [Offers])) with ⟨e, he⟩
  have hflag : ∃ s, (ofAttempts modes).installNamed "enum" ⟨"mode", .flag, []⟩ = .ok s :=
    ⟨_, installNamed_eq_ok_iff.2 ⟨.enum, by decide, install_eq_ok_iff.2 ⟨by simp [Offers], rfl⟩⟩⟩
  rcases hflag with ⟨s, hs⟩
  have hvalid : (validateBy ((ofAttempts modes).rulesNamed "enum")
      [⟨⟨"mode", {}⟩, [.ident "wide"]⟩]).result = .ok [("mode", .text "wide")] := by
    rw [hmode]
    rfl
  refine ⟨⟨e, he⟩, hempty.2.1 e he, ⟨s, hs, ?_⟩, hvalid, ?_⟩
  . exact ((h.2.1 "enum" ⟨"mode", .flag, []⟩).2.2 s hs).2.1
  . exact (h.2.2 "enum" _ _ hvalid).2 ⟨"mode", .choice, ["narrow", "wide"]⟩ (by simp [hmode])

end Schema

end IdlCompiler
