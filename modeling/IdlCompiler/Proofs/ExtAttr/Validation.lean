import IdlCompiler.Proofs.ExtAttr.Installation
import Mathlib.Data.List.Basic

/-!
This module contains what validating extended attributes means. It fails at the first one that
violates the rule of its name, be it overridden later or not. Otherwise the last attribute of a name
counts, and what has no rule is only warned about.
-/

namespace IdlCompiler

def ExtAttr.last? (name : String) (attrs : List ExtAttr) : Option ExtAttr :=
  (attrs.filter (·.name.text = name)).getLast?

theorem ExtAttr.last?_cons_of_eq {name : String} {a : ExtAttr} (h : a.name.text = name)
    (attrs : List ExtAttr) : last? name (a :: attrs) = some ((last? name attrs).getD a) := by
  unfold last?
  rw [List.filter_cons, if_pos (decide_eq_true h), List.getLast?_cons]

theorem ExtAttr.last?_cons_of_ne {name : String} {a : ExtAttr} (h : a.name.text ≠ name)
    (attrs : List ExtAttr) : last? name (a :: attrs) = last? name attrs := by
  unfold last?
  rw [List.filter_cons, if_neg (by simpa using h)]

namespace Rule

def ViolatedBy (r : Rule) (args : List String) : Prop :=
  match r.kind with
  | .flag => args ≠ []
  | .choice => ¬∃ arg ∈ r.values, args = [arg]
  | .string => args = []
  | .guard => args.length ≠ 1
  | .guards => False
  | .default => args.length ≠ 1
  | .unsupported _ => True

def meaning (r : Rule) (args : List String) : AttrValue :=
  match r.kind, args with
  | .flag, _ => .flag true
  | .guards, args => .texts args
  | _, [arg] => .text arg
  | _, args => .texts args

/--
The value of a rule behind extended attributes, if it was `value` in front of them: the last one of
its name counts.
-/
def valueBehind (r : Rule) (value : AttrValue) (attrs : List ExtAttr) : AttrValue :=
  match ExtAttr.last? r.name attrs with
  | some a => r.meaning (a.args.map Lexeme.literal)
  | none => value

def valueIn (r : Rule) (attrs : List ExtAttr) : AttrValue :=
  r.valueBehind r.defaultValue attrs

variable {r : Rule} {args : List String} {a : ExtAttr} {attrs : List ExtAttr} {value : AttrValue}

theorem check_cases (r : Rule) (args : List String) :
    (r.ViolatedBy args ∧ ∃ cause, r.check args = .error cause) ∨
      ¬r.ViolatedBy args ∧ r.check args = .ok (r.meaning args) := by
  unfold ViolatedBy check meaning
  cases r.kind with
  | flag =>
    cases args with
    | nil => exact .inr ⟨by simp, rfl⟩
    | cons arg args => exact .inl ⟨List.cons_ne_nil _ _, _, rfl⟩
  | choice =>
    match args with
    | [] => exact .inl ⟨by simp, _, rfl⟩
    | [arg] =>
      by_cases hmem : arg ∈ r.values
      . exact .inr ⟨by simp [hmem], if_pos hmem⟩
      . exact .inl ⟨by simp [hmem], _, if_neg hmem⟩
    | _ :: _ :: _ => exact .inl ⟨by simp, _, rfl⟩
  | string =>
    match args with
    | [] => exact .inl ⟨rfl, _, rfl⟩
    | [arg] => exact .inr ⟨List.cons_ne_nil _ _, rfl⟩
    | _ :: _ :: _ => exact .inr ⟨List.cons_ne_nil _ _, rfl⟩
  | guard =>
    match args with
    | [] => exact .inl ⟨by simp, _, rfl⟩
    | [arg] => exact .inr ⟨by simp, rfl⟩
    | _ :: _ :: _ => exact .inl ⟨by simp, _, rfl⟩
  | guards => exact .inr ⟨not_false, rfl⟩
  | default =>
    match args with
    | [] => exact .inl ⟨by simp, _, rfl⟩
    | [arg] => exact .inr ⟨by simp, rfl⟩
    | _ :: _ :: _ => exact .inl ⟨by simp, _, rfl⟩
  | unsupported code => exact .inl ⟨trivial, _, rfl⟩

theorem apply_of_violatedBy (h : r.ViolatedBy (a.args.map Lexeme.literal)) :
    ∃ cause, r.apply a = .error { pos := a.name.pos, cause } := by
  unfold apply
  rcases r.check_cases (a.args.map Lexeme.literal) with ⟨-, cause, hcheck⟩ | ⟨hvalid, -⟩
  . rw [hcheck]
    exact ⟨cause, rfl⟩
  . exact absurd h hvalid

theorem apply_of_not_violatedBy (h : ¬r.ViolatedBy (a.args.map Lexeme.literal)) :
    r.apply a = .ok (r.meaning (a.args.map Lexeme.literal)) := by
  unfold apply
  rcases r.check_cases (a.args.map Lexeme.literal) with ⟨hviolated, -⟩ | ⟨-, hcheck⟩
  . exact absurd hviolated h
  . rw [hcheck]
    rfl

theorem valueBehind_nil : r.valueBehind value [] = value := rfl

theorem valueBehind_cons_of_eq (h : a.name.text = r.name) :
    r.valueBehind value (a :: attrs) =
      r.valueBehind (r.meaning (a.args.map Lexeme.literal)) attrs := by
  unfold valueBehind
  rw [ExtAttr.last?_cons_of_eq h]
  cases ExtAttr.last? r.name attrs with
  | none => rfl
  | some last => rfl

theorem valueBehind_cons_of_ne (h : a.name.text ≠ r.name) :
    r.valueBehind value (a :: attrs) = r.valueBehind value attrs := by
  unfold valueBehind
  rw [ExtAttr.last?_cons_of_ne h]

end Rule

namespace Schema

variable {rules : List Rule} {a : ExtAttr} {attrs front : List ExtAttr} {f : Rule → AttrValue}

def Violates (rules : List Rule) (a : ExtAttr) : Prop :=
  ∃ r ∈ rules, r.name = a.name.text ∧ r.ViolatedBy (a.args.map Lexeme.literal)

abbrev Ruled (rules : List Rule) (a : ExtAttr) : Prop :=
  a.name.text ∈ rules.map (·.name)

def unknownWarnings (rules : List Rule) (attrs : List ExtAttr) : List Warning :=
  (attrs.filter (¬Ruled rules ·)).map fun a => .unknownAttribute a.name.text a.name.pos

def withoutOverridden : List ExtAttr → List ExtAttr
  | [] => []
  | a :: attrs =>
    if attrs.any (·.name.text = a.name.text) then withoutOverridden attrs
    else a :: withoutOverridden attrs

def valuesBy (rules : List Rule) (f : Rule → AttrValue) : AttrValues :=
  rules.map fun r => (r.name, f r)

theorem find?_eq_none_of_not_ruled (h : ¬Ruled rules a) :
    rules.find? (fun r => r.name = a.name.text) = none := by
  rw [List.find?_eq_none]
  intro r hr hname
  exact h (List.mem_map.2 ⟨r, hr, of_decide_eq_true hname⟩)

theorem find?_eq_some_of_mem (hdistinct : (rules.map (·.name)).Nodup) {r : Rule} (hr : r ∈ rules)
    (hname : r.name = a.name.text) : rules.find? (fun r => r.name = a.name.text) = some r := by
  cases hfind : rules.find? (fun r => r.name = a.name.text) with
  | none => exact absurd (decide_eq_true hname) (List.find?_eq_none.1 hfind r hr)
  | some r' =>
    have hr' := List.mem_of_find?_eq_some hfind
    have hname' : r'.name = a.name.text := by simpa using List.find?_some hfind
    rw [List.inj_on_of_nodup_map hdistinct hr' hr (hname'.trans hname.symm)]

theorem set_valuesBy (r : Rule) (value : AttrValue) :
    (valuesBy rules f).set r.name value =
      valuesBy rules fun r' => if r'.name = r.name then value else f r' := by
  unfold valuesBy AttrValues.set
  rw [List.map_map]
  apply List.map_congr_left
  intro r' _
  rw [Function.comp_apply]
  dsimp only
  split
  . next hname => rw [hname]
  . rfl

/-
The three ways in which one extended attribute is dealt with.
-/

theorem applyAll_cons_of_not_ruled (h : ¬Ruled rules a) (values : AttrValues) :
    applyAll rules values (a :: attrs) =
      ⟨.unknownAttribute a.name.text a.name.pos :: (applyAll rules values attrs).warnings,
        (applyAll rules values attrs).result⟩ := by
  rw [applyAll, find?_eq_none_of_not_ruled h]
  rfl

theorem applyAll_cons_of_violates (hdistinct : (rules.map (·.name)).Nodup) (h : Violates rules a)
    (values : AttrValues) (attrs : List ExtAttr) :
    ∃ cause, applyAll rules values (a :: attrs) = .fail { pos := a.name.pos, cause } := by
  rcases h with ⟨r, hr, hname, hviolated⟩
  rcases Rule.apply_of_violatedBy hviolated with ⟨cause, happly⟩
  rw [applyAll, find?_eq_some_of_mem hdistinct hr hname]
  dsimp only
  rw [happly]
  exact ⟨cause, rfl⟩

theorem applyAll_cons_of_mem (hdistinct : (rules.map (·.name)).Nodup) {r : Rule} (hr : r ∈ rules)
    (hname : r.name = a.name.text) (h : ¬Violates rules a) :
    applyAll rules (valuesBy rules f) (a :: attrs) =
      applyAll rules (valuesBy rules fun r => r.valueBehind (f r) [a]) attrs := by
  have hvalid : ¬r.ViolatedBy (a.args.map Lexeme.literal) := fun hv => h ⟨r, hr, hname, hv⟩
  rw [applyAll, find?_eq_some_of_mem hdistinct hr hname]
  dsimp only
  rw [Rule.apply_of_not_violatedBy hvalid]
  dsimp only
  rw [set_valuesBy]
  congr 1
  apply List.map_congr_left
  intro r' hr'
  dsimp only
  split
  . next heq =>
    rw [List.inj_on_of_nodup_map hdistinct hr' hr heq, Rule.valueBehind_cons_of_eq hname.symm,
      Rule.valueBehind_nil]
  . next hne =>
    rw [Rule.valueBehind_cons_of_ne (fun heq => hne (heq.symm.trans hname.symm)),
      Rule.valueBehind_nil]

theorem valueBehind_valueBehind (r : Rule) (value : AttrValue) (a : ExtAttr)
    (attrs : List ExtAttr) :
    r.valueBehind (r.valueBehind value [a]) attrs = r.valueBehind value (a :: attrs) := by
  by_cases h : a.name.text = r.name
  . rw [Rule.valueBehind_cons_of_eq h, Rule.valueBehind_cons_of_eq h, Rule.valueBehind_nil]
  . rw [Rule.valueBehind_cons_of_ne h, Rule.valueBehind_cons_of_ne h, Rule.valueBehind_nil]

theorem valuesBy_congr {f g : Rule → AttrValue} (h : ∀ r ∈ rules, f r = g r) :
    valuesBy rules f = valuesBy rules g := by
  apply List.map_congr_left
  intro r hr
  rw [h r hr]

theorem applyAll_append (hdistinct : (rules.map (·.name)).Nodup)
    (hfront : ∀ a ∈ front, ¬Violates rules a) (f : Rule → AttrValue) (back : List ExtAttr) :
    applyAll rules (valuesBy rules f) (front ++ back) =
      ⟨unknownWarnings rules front ++
          (applyAll rules (valuesBy rules fun r => r.valueBehind (f r) front) back).warnings,
        (applyAll rules (valuesBy rules fun r => r.valueBehind (f r) front) back).result⟩ := by
  -- The values are those of a function on rules all along, which each attribute changes at its own
  -- rule.
  induction front generalizing f with
  | nil => rfl
  | cons a front ih =>
    rw [List.forall_mem_cons] at hfront
    rw [List.cons_append]
    by_cases hruled : Ruled rules a
    . rcases List.mem_map.1 hruled with ⟨r, hr, hname⟩
      have hwarnings : unknownWarnings rules (a :: front) = unknownWarnings rules front := by
        unfold unknownWarnings
        rw [List.filter_cons_of_neg (by simpa using hruled)]
      rw [applyAll_cons_of_mem hdistinct hr hname hfront.1, ih hfront.2, hwarnings]
      simp only [valueBehind_valueBehind]
    . have hwarnings : unknownWarnings rules (a :: front) =
          .unknownAttribute a.name.text a.name.pos :: unknownWarnings rules front := by
        unfold unknownWarnings
        rw [List.filter_cons_of_pos (by simpa using hruled), List.map_cons]
      have hvalues : (valuesBy rules fun r => r.valueBehind (f r) (a :: front)) =
          valuesBy rules fun r => r.valueBehind (f r) front := by
        apply valuesBy_congr
        intro r hr
        apply Rule.valueBehind_cons_of_ne
        intro hname
        exact hruled (List.mem_map.2 ⟨r, hr, hname.symm⟩)
      rw [applyAll_cons_of_not_ruled hruled, ih hfront.2, hwarnings, hvalues]
      rfl

theorem defaults_eq (rules : List Rule) : defaults rules = valuesBy rules Rule.defaultValue := rfl

theorem validateBy_of_not_violates (hdistinct : (rules.map (·.name)).Nodup)
    (h : ∀ a ∈ attrs, ¬Violates rules a) :
    validateBy rules attrs =
      ⟨unknownWarnings rules attrs, .ok (valuesBy rules fun r => r.valueIn attrs)⟩ := by
  have hrun := applyAll_append hdistinct h Rule.defaultValue []
  rw [List.append_nil, applyAll] at hrun
  rw [validateBy, defaults_eq, hrun, Outcome.warnings_pure, Outcome.result_pure, List.append_nil]
  rfl

theorem validateBy_of_violates (hdistinct : (rules.map (·.name)).Nodup)
    (hfront : ∀ b ∈ front, ¬Violates rules b) (ha : Violates rules a) (back : List ExtAttr) :
    ∃ cause, validateBy rules (front ++ a :: back) =
      ⟨unknownWarnings rules front, .error { pos := a.name.pos, cause }⟩ := by
  have hrun := applyAll_append hdistinct hfront Rule.defaultValue (a :: back)
  rcases applyAll_cons_of_violates hdistinct ha
    (valuesBy rules fun r => r.valueBehind r.defaultValue front) back with ⟨cause, hfail⟩
  rw [hfail] at hrun
  refine ⟨cause, ?_⟩
  rw [validateBy, defaults_eq, hrun]
  exact congrArg (Outcome.mk · _) (List.append_nil _)

theorem exists_first_violates (h : ∃ a ∈ attrs, Violates rules a) :
    ∃ front a back, attrs = front ++ a :: back ∧ (∀ b ∈ front, ¬Violates rules b) ∧
      Violates rules a := by
  induction attrs with
  | nil => simp at h
  | cons b attrs ih =>
    by_cases hb : Violates rules b
    . exact ⟨[], b, attrs, rfl, by simp, hb⟩
    . have hlater : ∃ a ∈ attrs, Violates rules a := by
        rcases h with ⟨a, ha, hviolates⟩
        rcases List.mem_cons.1 ha with rfl | ha
        . exact absurd hviolates hb
        . exact ⟨a, ha, hviolates⟩
      rcases ih hlater with ⟨front, a, back, rfl, hfront, ha⟩
      exact ⟨b :: front, a, back, rfl, List.forall_mem_cons.2 ⟨hb, hfront⟩, ha⟩

theorem exists_error_validateBy_iff (hdistinct : (rules.map (·.name)).Nodup) :
    (∃ d, (validateBy rules attrs).result = .error d) ↔ ∃ a ∈ attrs, Violates rules a := by
  constructor
  . rintro ⟨d, hd⟩
    by_contra hnone
    push Not at hnone
    rw [validateBy_of_not_violates hdistinct hnone] at hd
    cases hd
  . intro h
    rcases exists_first_violates h with ⟨front, a, back, rfl, hfront, ha⟩
    rcases validateBy_of_violates hdistinct hfront ha back with ⟨cause, hfail⟩
    rw [hfail]
    exact ⟨_, rfl⟩

theorem result_validateBy_congr {attrs' : List ExtAttr} (hdistinct : (rules.map (·.name)).Nodup)
    (h : ∀ a ∈ attrs, ¬Violates rules a) (hsub : attrs'.Sublist attrs)
    (hlast : ∀ r ∈ rules, ExtAttr.last? r.name attrs' = ExtAttr.last? r.name attrs) :
    (validateBy rules attrs').result = (validateBy rules attrs).result := by
  rw [validateBy_of_not_violates hdistinct h,
    validateBy_of_not_violates hdistinct fun a ha => h a (hsub.subset ha)]
  apply congrArg Except.ok
  apply valuesBy_congr
  intro r hr
  rw [Rule.valueIn, Rule.valueBehind, hlast r hr]
  rfl

theorem last?_filter_ruled {r : Rule} (hr : r ∈ rules) (attrs : List ExtAttr) :
    ExtAttr.last? r.name (attrs.filter (Ruled rules ·)) = ExtAttr.last? r.name attrs := by
  unfold ExtAttr.last?
  rw [List.filter_filter]
  congr 1
  apply List.filter_congr
  intro a _
  by_cases hname : a.name.text = r.name
  . have hruled : Ruled rules a := List.mem_map.2 ⟨r, hr, hname.symm⟩
    simp [hname, hruled]
  . simp [hname]

theorem withoutOverridden_sublist (attrs : List ExtAttr) :
    (withoutOverridden attrs).Sublist attrs := by
  induction attrs with
  | nil => exact .slnil
  | cons a attrs ih =>
    rw [withoutOverridden]
    split
    . exact ih.cons a
    . exact ih.cons_cons a

theorem last?_withoutOverridden (name : String) (attrs : List ExtAttr) :
    ExtAttr.last? name (withoutOverridden attrs) = ExtAttr.last? name attrs := by
  induction attrs with
  | nil => rfl
  | cons a attrs ih =>
    rw [withoutOverridden]
    by_cases hname : a.name.text = name
    . rw [ExtAttr.last?_cons_of_eq hname]
      split
      . next hlater =>
        -- There is another attribute of the name behind this one, so the last one stays.
        rcases List.any_eq_true.1 hlater with ⟨b, hb, hsame⟩
        have hmem : b ∈ attrs.filter (·.name.text = name) :=
          List.mem_filter.2 ⟨hb, decide_eq_true ((of_decide_eq_true hsame).trans hname)⟩
        have hlast : ExtAttr.last? name attrs = some _ :=
          List.getLast?_eq_some_getLast (List.ne_nil_of_mem hmem)
        rw [ih, hlast]
        rfl
      . rw [ExtAttr.last?_cons_of_eq hname, ih]
    . rw [ExtAttr.last?_cons_of_ne hname]
      split
      . exact ih
      . rw [ExtAttr.last?_cons_of_ne hname]
        exact ih

theorem validate_eq_validateBy_rulesNamed (s : Schema) (d : Domain) (attrs : List ExtAttr) :
    s.validate d attrs = validateBy (s.rulesNamed d.text) attrs := by
  cases d <;> rfl

/--
Whatever rules were added to the schema that is always there, extended attributes are invalid in a
domain exactly if one of them violates the rule of its name. The error is then at the first one that
does, with warnings about those in front of it that have no rule. If none does, each rule has the
value of the last attribute of its name, or its default, there are warnings about all attributes
without a rule, and the values stay the same without these, and without those that are overridden.
-/
theorem validateBy_error_iff_violates_and_valueIn (calls : List (String × Rule)) (domain : String)
    (attrs : List ExtAttr) :
    ((∃ d, (validateBy ((ofAttempts calls).rulesNamed domain) attrs).result = .error d) ↔
      ∃ a ∈ attrs, Violates ((ofAttempts calls).rulesNamed domain) a) ∧
    (∀ front a back, attrs = front ++ a :: back →
      (∀ b ∈ front, ¬Violates ((ofAttempts calls).rulesNamed domain) b) →
      Violates ((ofAttempts calls).rulesNamed domain) a →
      ∃ cause, validateBy ((ofAttempts calls).rulesNamed domain) attrs =
        ⟨unknownWarnings ((ofAttempts calls).rulesNamed domain) front,
          .error { pos := a.name.pos, cause }⟩) ∧
    ((∀ a ∈ attrs, ¬Violates ((ofAttempts calls).rulesNamed domain) a) →
      validateBy ((ofAttempts calls).rulesNamed domain) attrs =
        ⟨unknownWarnings ((ofAttempts calls).rulesNamed domain) attrs,
          .ok (((ofAttempts calls).rulesNamed domain).map fun r => (r.name, r.valueIn attrs))⟩ ∧
      (validateBy ((ofAttempts calls).rulesNamed domain)
          (attrs.filter (Ruled ((ofAttempts calls).rulesNamed domain) ·))).result =
        (validateBy ((ofAttempts calls).rulesNamed domain) attrs).result ∧
      (validateBy ((ofAttempts calls).rulesNamed domain) (withoutOverridden attrs)).result =
        (validateBy ((ofAttempts calls).rulesNamed domain) attrs).result) ∧
    ∀ d : Domain, (ofAttempts calls).validate d attrs =
      validateBy ((ofAttempts calls).rulesNamed d.text) attrs := by
  have hdistinct := (wellFormed_ofAttempts calls).nodup_rulesNamed domain
  refine ⟨exists_error_validateBy_iff hdistinct, ?_, ?_, ?_⟩
  . rintro front a back rfl hfront ha
    exact validateBy_of_violates hdistinct hfront ha back
  . intro h
    refine ⟨validateBy_of_not_violates hdistinct h, ?_, ?_⟩
    . apply result_validateBy_congr hdistinct h List.filter_sublist
      intro r hr
      exact last?_filter_ruled hr attrs
    . apply result_validateBy_congr hdistinct h (withoutOverridden_sublist attrs)
      intro r _
      exact last?_withoutOverridden r.name attrs
  . intro d
    apply validate_eq_validateBy_rulesNamed

def sizes : List (String × Rule) :=
  [("enum", ⟨"size", .choice, ["small", "large"]⟩)]

def sizeAt (name value : String) (col : Nat) : ExtAttr :=
  ⟨⟨name, ⟨"a.idl", 1, col⟩⟩, [.ident value]⟩

theorem rulesNamed_sizes :
    (ofAttempts sizes).rulesNamed "enum" = [⟨"size", .choice, ["small", "large"]⟩] := by
  decide

theorem violates_sizes_iff {name value : String} {col : Nat} :
    Violates ((ofAttempts sizes).rulesNamed "enum") (sizeAt name value col) ↔
      name = "size" ∧ value ∉ ["small", "large"] := by
  rw [rulesNamed_sizes]
  simp [Violates, sizeAt, Rule.ViolatedBy, Lexeme.literal, Lexeme.text, eq_comm]

theorem validateBy_error_iff_violates_and_valueIn_sizes :
    Violates ((ofAttempts sizes).rulesNamed "enum") (sizeAt "size" "huge" 9) ∧
    (∃ cause, validateBy ((ofAttempts sizes).rulesNamed "enum")
        [sizeAt "weight" "huge" 2, sizeAt "size" "huge" 9, sizeAt "size" "large" 20] =
      ⟨[.unknownAttribute "weight" ⟨"a.idl", 1, 2⟩], .error { pos := ⟨"a.idl", 1, 9⟩, cause }⟩) ∧
    validateBy ((ofAttempts sizes).rulesNamed "enum")
        [sizeAt "size" "small" 2, sizeAt "size" "large" 9, sizeAt "weight" "huge" 20] =
      ⟨[.unknownAttribute "weight" ⟨"a.idl", 1, 20⟩], .ok [("size", .text "large")]⟩ := by
  have hviolates : Violates ((ofAttempts sizes).rulesNamed "enum") (sizeAt "size" "huge" 9) :=
    violates_sizes_iff.2 ⟨rfl, by decide⟩
  refine ⟨hviolates, ?_, ?_⟩
  . have hfront : ∀ b ∈ [sizeAt "weight" "huge" 2],
        ¬Violates ((ofAttempts sizes).rulesNamed "enum") b := by
      simp [violates_sizes_iff]
    rcases (validateBy_error_iff_violates_and_valueIn sizes "enum" _).2.1 _ _
      [sizeAt "size" "large" 20] rfl hfront hviolates with ⟨cause, hfail⟩
    rw [rulesNamed_sizes] at hfail ⊢
    exact ⟨cause, hfail⟩
  . have hvalid : ∀ a ∈ [sizeAt "size" "small" 2, sizeAt "size" "large" 9,
        sizeAt "weight" "huge" 20], ¬Violates ((ofAttempts sizes).rulesNamed "enum") a := by
      simp [violates_sizes_iff]
    have h := ((validateBy_error_iff_violates_and_valueIn sizes "enum" _).2.2.1 hvalid).1
    rw [rulesNamed_sizes] at h ⊢
    exact h

end Schema

end IdlCompiler
