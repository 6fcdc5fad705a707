import IdlCompiler.ExtAttr.Schema
import Mathlib.Data.List.Nodup
import Mathlib.Data.List.Perm.Basic

/-!
This module contains the schemas that can arise from the one that is always there: rules are added to
it one after the other, some of them in vain. No domain has two rules of one name, and a choice always
has something to choose from.
-/

namespace IdlCompiler.Schema

def attempt (s : Schema) (domain : String) (rule : Rule) : Schema :=
  match s.installNamed domain rule with
  | .ok s' => s'
  | .error _ => s

def ofAttempts (calls : List (String × Rule)) : Schema :=
  calls.foldl (fun s call => s.attempt call.1 call.2) builtin

def Offers (rule : Rule) : Prop :=
  rule.kind = .choice → rule.values ≠ []

structure WellFormed (s : Schema) : Prop where
  distinct (d : Domain) : ((s.rules d).map (·.name)).Nodup
  offers (d : Domain) : ∀ r ∈ s.rules d, Offers r

/--
The rules in `after` are those in `before` with one more, which is in the place of the rule of its
name or, if there is none, behind them.
-/
def Inserted (rule : Rule) (before after : List Rule) : Prop :=
  (∃ front old back, before = front ++ old :: back ∧ old.name = rule.name ∧
      after = front ++ rule :: back) ∨
    (∀ r ∈ before, r.name ≠ rule.name) ∧ after = before ++ [rule]

variable {s s' : Schema} {d : Domain} {domain other : String} {rule : Rule} {rules : List Rule}

theorem inserted_insertRule (rule : Rule) (rules : List Rule) :
    Inserted rule rules (insertRule rule rules) := by
  induction rules with
  | nil =>
    right
    simp [insertRule]
  | cons r rs ih =>
    rw [insertRule]
    split
    . next hname =>
      left
      exact ⟨[], r, rs, rfl, hname, rfl⟩
    . next hname =>
      rcases ih with ⟨front, old, back, hbefore, hold, hafter⟩ | ⟨hnone, hafter⟩
      . left
        refine ⟨r :: front, old, back, ?_, hold, ?_⟩
        . rw [hbefore, List.cons_append]
        . rw [hafter, List.cons_append]
      . right
        refine ⟨List.forall_mem_cons.2 ⟨hname, hnone⟩, ?_⟩
        rw [hafter, List.cons_append]

namespace Inserted

variable {before after : List Rule}

theorem nodup_names (h : Inserted rule before after) (hbefore : (before.map (·.name)).Nodup) :
    (after.map (·.name)).Nodup := by
  rcases h with ⟨front, old, back, rfl, hold, rfl⟩ | ⟨hnone, rfl⟩
  . rw [List.map_append, List.map_cons] at hbefore ⊢
    rw [← hold]
    exact hbefore
  . rw [List.map_append, List.nodup_append]
    refine ⟨hbefore, List.nodup_singleton _, ?_⟩
    intro name hname name' hname'
    rcases List.mem_map.1 hname with ⟨r, hr, rfl⟩
    rw [List.mem_singleton.1 hname']
    exact hnone r hr

theorem mem_or_eq (h : Inserted rule before after) {r : Rule} (hr : r ∈ after) :
    r ∈ before ∨ r = rule := by
  rcases h with ⟨front, old, back, rfl, -, rfl⟩ | ⟨-, rfl⟩
  . rw [List.mem_append, List.mem_cons] at hr ⊢
    tauto
  . rw [List.mem_append, List.mem_singleton] at hr
    exact hr

end Inserted

theorem install_eq_ok_iff :
    s.install d rule = .ok s' ↔
      Offers rule ∧ s' = ⟨fun e => if e = d then insertRule rule (s.rules e) else s.rules e⟩ := by
  unfold install Offers
  split
  . next h => simp [h]
  . next h =>
    rw [Except.ok.injEq, eq_comm]
    tauto

theorem installNamed_eq_ok_iff :
    s.installNamed domain rule = .ok s' ↔
      ∃ d, Domain.ofText? domain = some d ∧ s.install d rule = .ok s' := by
  unfold installNamed
  cases Domain.ofText? domain with
  | none => simp
  | some d => simp

theorem exists_installNamed_eq_error_iff :
    (∃ e, s.installNamed domain rule = .error e) ↔
      Domain.ofText? domain = none ∨ ¬Offers rule := by
  unfold installNamed install Offers
  cases Domain.ofText? domain with
  | none => simp
  | some d =>
    dsimp only
    split
    . next h => simp [h]
    . next h =>
      simp only [reduceCtorEq, exists_false, false_or, false_iff, not_not]
      tauto

theorem attempt_of_ok (h : s.installNamed domain rule = .ok s') : s.attempt domain rule = s' := by
  unfold attempt
  rw [h]

theorem attempt_of_error {e : Error} (h : s.installNamed domain rule = .error e) :
    s.attempt domain rule = s := by
  unfold attempt
  rw [h]

theorem text_of_ofText? (h : Domain.ofText? domain = some d) : d.text = domain := by
  have := List.find?_some h
  exact of_decide_eq_true this

theorem rulesNamed_of_installNamed (h : s.installNamed domain rule = .ok s') :
    Inserted rule (s.rulesNamed domain) (s'.rulesNamed domain) ∧
      ∀ other, other ≠ domain → s'.rulesNamed other = s.rulesNamed other := by
  rcases installNamed_eq_ok_iff.1 h with ⟨d, hd, hinstall⟩
  rcases install_eq_ok_iff.1 hinstall with ⟨-, rfl⟩
  refine ⟨?_, ?_⟩
  . unfold rulesNamed
    rw [hd]
    dsimp only
    rw [if_pos rfl]
    apply inserted_insertRule
  . intro other hother
    unfold rulesNamed
    split
    . next e he =>
      dsimp only
      rw [if_neg]
      rintro rfl
      apply hother
      rw [← text_of_ofText? he, text_of_ofText? hd]
    . rfl

namespace WellFormed

theorem builtin : builtin.WellFormed where
  distinct d := by cases d <;> decide
  offers d := by cases d <;> simp [Schema.builtin, Offers]

theorem install (hs : s.WellFormed) (h : s.install d rule = .ok s') : s'.WellFormed := by
  rcases install_eq_ok_iff.1 h with ⟨hoffers, rfl⟩
  have hinserted := inserted_insertRule rule (s.rules d)
  constructor
  . intro e
    dsimp only
    split
    . next he =>
      rw [he]
      exact hinserted.nodup_names (hs.distinct d)
    . exact hs.distinct e
  . intro e r hr
    dsimp only at hr
    split at hr
    . next he =>
      rw [he] at hr
      rcases hinserted.mem_or_eq hr with hold | rfl
      . exact hs.offers d r hold
      . exact hoffers
    . exact hs.offers e r hr

theorem attempt (hs : s.WellFormed) (domain : String) (rule : Rule) :
    (s.attempt domain rule).WellFormed := by
  cases h : s.installNamed domain rule with
  | error e =>
    rw [attempt_of_error h]
    exact hs
  | ok s' =>
    rw [attempt_of_ok h]
    rcases installNamed_eq_ok_iff.1 h with ⟨d, -, hinstall⟩
    exact hs.install hinstall

theorem nodup_rulesNamed (hs : s.WellFormed) (domain : String) :
    ((s.rulesNamed domain).map (·.name)).Nodup := by
  unfold rulesNamed
  split
  . apply hs.distinct
  . exact List.nodup_nil

theorem offers_rulesNamed (hs : s.WellFormed) (domain : String) :
    ∀ r ∈ s.rulesNamed domain, Offers r := by
  unfold rulesNamed
  split
  . apply hs.offers
  . simp

end WellFormed

theorem wellFormed_ofAttempts (calls : List (String × Rule)) : (ofAttempts calls).WellFormed :=
  List.foldlRecOn calls _ .builtin fun _ hs call _ => hs.attempt call.1 call.2

end IdlCompiler.Schema
