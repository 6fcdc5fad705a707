import IdlCompiler.Proofs.Grammar.Members

/-!
This module contains the proof that what stands between the braces of declarations, and in front of
them, is read as the grammar has it.
-/

namespace IdlCompiler.Declaration

open Cursor Grammar

variable {s : Schema} {eof : Pos} {attrs : List ExtAttr} {ts pre rest : List Token}

theorem readComma_eq_ok_iff {h : rest.length ≤ ts.length} :
    readComma eof ts = .ok ⟨rest, h⟩ ↔
      (∃ p, ts = ⟨.op ',', p⟩ :: rest) ∨ isAtOp '}' ts ∧ rest = ts := by
  unfold readComma
  split
  . next _ rest' hcomma =>
    rcases rest' with ⟨rest', h'⟩
    rcases takeOp?_eq_some_iff.1 hcomma with ⟨p, rfl⟩
    simp [Shorter.weaken, isAtOp]
  . next rest' hcomma hclose =>
    rcases rest' with ⟨rest', h'⟩
    rcases takeOp?_eq_some_iff.1 hclose with ⟨p, rfl⟩
    simp [NotLonger.all, isAtOp, eq_comm]
  . next hcomma hclose =>
    rw [takeOp?_eq_none_iff] at hcomma hclose
    constructor
    . simp
    . rintro (⟨p, rfl⟩ | ⟨hat, -⟩)
      . simp [isAtOp] at hcomma
      . simp [hclose] at hat

theorem itemsDerive_of_readItems {items : List String} {h : rest.length ≤ ts.length}
    (hread : readItems eof ts = .ok (items, ⟨rest, h⟩)) :
    ∃ pre raw, ts = pre ++ rest ∧ ItemsDerive pre raw ∧ raw.filter (· ≠ "") = items ∧
      isAtOp '}' rest := by
  induction hn : ts.length using Nat.strongRecOn generalizing ts items rest with
  | ind n ih =>
    rw [readItems.eq_def] at hread
    split at hread
    . next p tail =>
      simp only [Except.ok.injEq, NotLonger.all, Prod.mk.injEq, Subtype.mk.injEq] at hread
      rcases hread with ⟨rfl, rfl⟩
      exact ⟨[], [], rfl, .nil, rfl, by simp [isAtOp]⟩
    . next value p tail =>
      rcases Except.bind_eq_ok_iff.1 hread with ⟨⟨rest₁, h₁⟩, hcomma, hread⟩
      rcases Except.bind_eq_ok_iff.1 hread with ⟨⟨items', rest₂, h₂⟩, hitems, hread⟩
      rcases ih _ (by simp at hn; omega) hitems rfl with ⟨pre, raw, rfl, hderive, rfl, hclose⟩
      rcases Except.pure_eq_ok_iff.1 hread with ⟨rfl, rfl⟩
      have hfilter : (value :: raw).filter (· ≠ "") =
          if value = "" then raw.filter (· ≠ "") else value :: raw.filter (· ≠ "") := by
        split
        . next hempty => simp [hempty]
        . next hvalue => simp [hvalue]
      rcases readComma_eq_ok_iff.1 hcomma with ⟨q, rfl⟩ | ⟨hat, htail⟩
      . exact ⟨⟨.string value, p⟩ :: ⟨.op ',', q⟩ :: pre, value :: raw, rfl, .more hderive, hfilter,
          hclose⟩
      . -- The closing brace stands directly behind the string, so no more strings were read.
        subst htail
        rcases hderive with _ | _ | _
        . exact ⟨[⟨.string value, p⟩], [value], rfl, .last, hfilter, hclose⟩
        . simp [isAtOp] at hat
        . simp [isAtOp] at hat
    . simp at hread

theorem readItems_of_itemsDerive (eof : Pos) {raw : List String} (hderive : ItemsDerive pre raw)
    (hclose : isAtOp '}' rest) :
    ∃ h, readItems eof (pre ++ rest) = .ok (raw.filter (· ≠ ""), ⟨rest, h⟩) := by
  have hnil : ∃ h, readItems eof rest = .ok ([], ⟨rest, h⟩) := by
    cases rest with
    | nil => simp [isAtOp] at hclose
    | cons t tail =>
      rcases t with ⟨lexeme, p⟩
      simp only [isAtOp, decide_eq_true_eq] at hclose
      subst hclose
      rw [readItems]
      exact ⟨Nat.le_refl _, rfl⟩
  induction hderive with
  | nil => exact hnil
  | @last value p =>
    have hcomma : readComma eof rest = .ok ⟨rest, Nat.le_refl _⟩ :=
      readComma_eq_ok_iff.2 (.inr ⟨hclose, rfl⟩)
    rcases hnil with ⟨_, hitems⟩
    rw [List.singleton_append, readItems, hcomma]
    simp only [Except.ok_bind, hitems]
    refine ⟨by simp, ?_⟩
    by_cases hvalue : value = "" <;> simp [hvalue, pure, Except.pure]
  | @more ts value raw p q _ ih =>
    rcases ih with ⟨_, hitems⟩
    have hcomma : readComma eof (⟨.op ',', q⟩ :: (ts ++ rest)) = .ok ⟨ts ++ rest, by simp⟩ :=
      readComma_eq_ok_iff.2 (.inl ⟨q, rfl⟩)
    rw [List.cons_append, List.cons_append, readItems, hcomma]
    simp only [Except.ok_bind, hitems]
    refine ⟨by simp; omega, ?_⟩
    by_cases hvalue : value = "" <;> simp [hvalue, pure, Except.pure]

theorem baseDerives_of_readBase {base : Option String} {h : rest.length < ts.length}
    (hread : readBase eof ts = .ok (base, ⟨rest, h⟩)) :
    ∃ pre p, ts = pre ++ ⟨.op '{', p⟩ :: rest ∧ BaseDerives pre base := by
  unfold readBase at hread
  rcases (takeSeparator_bind_eq_ok_iff (by decide)).1 hread with
    ⟨p, rest₁, h₁, rfl, hread⟩ | ⟨p, rest₁, h₁, rfl, hread⟩
  . rcases Except.pure_eq_ok_iff.1 hread with ⟨rfl, rfl⟩
    exact ⟨[], p, rfl, .none⟩
  . rcases Except.bind_eq_ok_iff.1 hread with ⟨⟨name, rest₂, h₂⟩, hname, hread⟩
    have hrest₁ := takeIdent_eq_ok_iff.1 hname
    subst hrest₁
    rcases Except.bind_eq_ok_iff.1 hread with ⟨⟨rest₃, h₃⟩, hopen, hread⟩
    rcases takeOp_eq_ok_iff.1 hopen with ⟨q, hrest₂⟩
    rcases Except.pure_eq_ok_iff.1 hread with ⟨rfl, rfl⟩
    refine ⟨[⟨.op ':', p⟩, name.token], q, ?_, .some⟩
    simp [Shorter.next, show rest₂ = _ from hrest₂]

theorem readBase_of_baseDerives (eof : Pos) (rest : List Token) {base : Option String} {p : Pos}
    (hderives : BaseDerives pre base) :
    ∃ h, readBase eof (pre ++ ⟨.op '{', p⟩ :: rest) = .ok (base, ⟨rest, h⟩) := by
  unfold readBase
  cases hderives with
  | none =>
    rw [List.nil_append, takeSeparator_cons]
    exact ⟨Nat.lt_succ_self _, rfl⟩
  | @some name q r =>
    rw [List.cons_append, List.singleton_append, takeSeparator_cons_close '{' ':' (by decide)]
    simp only [Except.ok_bind, Bool.false_eq_true, ↓reduceIte, takeIdent, takeOp_cons]
    exact ⟨by simp; omega, rfl⟩

theorem partialDerives_of_readPartial {isPartial : Bool} {h : rest.length ≤ ts.length}
    (hread : readPartial ts = (isPartial, ⟨rest, h⟩)) :
    ∃ pre, ts = pre ++ rest ∧ PartialDerives pre isPartial := by
  unfold readPartial at hread
  split at hread
  . next rest' hword =>
    rcases rest' with ⟨rest', h'⟩
    rcases takeWord?_eq_some_iff.1 hword with ⟨p, rfl⟩
    simp only [Shorter.weaken, Prod.mk.injEq, Subtype.mk.injEq] at hread
    rcases hread with ⟨rfl, rfl⟩
    exact ⟨[⟨.ident "partial", p⟩], rfl, .some⟩
  . simp only [NotLonger.all, Prod.mk.injEq, Subtype.mk.injEq] at hread
    rcases hread with ⟨rfl, rfl⟩
    exact ⟨[], rfl, .none⟩

theorem readPartial_of_partialDerives {isPartial : Bool} (hderives : PartialDerives pre isPartial)
    (hnone : takeWord? "partial" rest = none) :
    ∃ h, readPartial (pre ++ rest) = (isPartial, ⟨rest, h⟩) := by
  unfold readPartial
  cases hderives with
  | none =>
    simp only [List.nil_append, hnone]
    exact ⟨Nat.le_refl _, rfl⟩
  | some =>
    simp only [List.singleton_append, takeWord?_cons]
    exact ⟨Nat.le_succ _, rfl⟩

end IdlCompiler.Declaration
