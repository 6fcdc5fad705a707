import IdlCompiler.Proofs.Grammar.Cursor

/-!
This module contains the proof that types are read as the grammar has them: a type that is read is
derived from the tokens that are gone, and every derivation is read if what follows cannot belong to
it.
-/

namespace IdlCompiler.IdlType

open Cursor Grammar

variable {eof : Pos}

def ReadsSoundly (eof : Pos) (ts : List Token) : Prop :=
  ∀ t rest, ∀ h : rest.length < ts.length, read eof ts = .ok (t, ⟨rest, h⟩) →
    ∃ pre, ts = pre ++ rest ∧ TypeDerives pre t ∧
      (t = .simple "long" → takeWord? "long" rest = none)

def ReadsArgsSoundly (eof : Pos) (ts : List Token) : Prop :=
  ∀ types rest, ∀ h : rest.length < ts.length, readArgs eof ts = .ok (types, ⟨rest, h⟩) →
    ∃ pre p, ts = pre ++ ⟨.op '>', p⟩ :: rest ∧ TypesDerive pre types

theorem typeDerives_of_readPlain {ts rest : List Token} {t : IdlType}
    (ih : ∀ ts' : List Token, ts'.length < ts.length →
      ReadsSoundly eof ts' ∧ ReadsArgsSoundly eof ts')
    {h : rest.length < ts.length} (hread : readPlain eof ts = .ok (t, ⟨rest, h⟩)) :
    ∃ pre, ts = pre ++ rest ∧ TypeDerives pre t ∧ (∀ elem, t ≠ .optional elem) ∧
      (t = .simple "long" → takeWord? "long" rest = none) := by
  rw [readPlain] at hread
  rcases Except.bind_eq_ok_iff.1 hread with ⟨⟨⟨word, p⟩, rest₀, h₀⟩, hident, hread⟩
  rw [takeIdent_eq_ok_iff, Name.token] at hident
  subst hident
  dsimp only at hread h₀
  split at hread
  -- `long` takes another `long` if there is one, so none is left behind it otherwise.
  . next hword =>
    subst hword
    split at hread
    . next hlong =>
      rcases takeWord?_eq_some_iff.1 hlong with ⟨q, rfl⟩
      rcases Except.pure_eq_ok_iff.1 hread with ⟨rfl, rfl⟩
      exact ⟨_, rfl, .longLong, by simp, by simp⟩
    . next hlong =>
      rcases Except.pure_eq_ok_iff.1 hread with ⟨rfl, rfl⟩
      exact ⟨_, rfl, .simple (by decide), by simp, fun _ => hlong⟩
  . next hnotLong =>
    split at hread
    . next hword =>
      subst hword
      rcases takeOp_bind_eq_ok_iff.1 hread with ⟨q, rest₁, h₁, rfl, hread⟩
      rcases Except.bind_eq_ok_iff.1 hread with ⟨⟨elem, rest₂, h₂⟩, helem, hread⟩
      rcases (ih _ (by simp only [List.length_cons]; omega)).1 _ _ _ helem with
        ⟨pre, rfl, hderives, -⟩
      rcases takeOp_bind_eq_ok_iff.1 hread with ⟨r, rest₃, h₃, rfl, hread⟩
      rcases Except.pure_eq_ok_iff.1 hread with ⟨rfl, rfl⟩
      exact ⟨_, by simp, .sequence (p := p) (q := q) (r := r) hderives, by simp, by simp⟩
    . next hnotSequence =>
      split at hread
      . next hword =>
        subst hword
        rcases takeOp_bind_eq_ok_iff.1 hread with ⟨q, rest₁, h₁, rfl, hread⟩
        rcases Except.bind_eq_ok_iff.1 hread with ⟨⟨members, rest₂, h₂⟩, hargs, hread⟩
        rcases (ih _ (by simp only [List.length_cons]; omega)).2 _ _ _ hargs with
          ⟨pre, r, rfl, hderives⟩
        rcases Except.pure_eq_ok_iff.1 hread with ⟨rfl, rfl⟩
        exact ⟨_, by simp, .union (p := p) (q := q) (r := r) hderives, by simp, by simp⟩
      . next hnotUnion =>
        split at hread
        . next hword =>
          subst hword
          rcases takeOp_bind_eq_ok_iff.1 hread with ⟨q, rest₁, h₁, rfl, hread⟩
          rcases Except.bind_eq_ok_iff.1 hread with ⟨⟨key, rest₂, h₂⟩, hkey, hread⟩
          rcases (ih _ (by simp only [List.length_cons]; omega)).1 _ _ _ hkey with
            ⟨pre, rfl, hkeyDerives, -⟩
          rcases takeOp_bind_eq_ok_iff.1 hread with ⟨r, rest₃, h₃, rfl, hread⟩
          rcases Except.bind_eq_ok_iff.1 hread with ⟨⟨value, rest₄, h₄⟩, hvalue, hread⟩
          rcases (ih _ (by simp; omega)).1 _ _ _ hvalue with ⟨pre', rfl, hvalueDerives, -⟩
          rcases takeOp_bind_eq_ok_iff.1 hread with ⟨u, rest₅, h₅, rfl, hread⟩
          rcases Except.pure_eq_ok_iff.1 hread with ⟨rfl, rfl⟩
          exact ⟨_, by simp, .record (p := p) (q := q) (r := r) (u := u) hkeyDerives hvalueDerives,
            by simp, by simp⟩
        . next hnotRecord =>
          have hfree : word ∉ reserved := by simp [reserved, hnotSequence, hnotUnion, hnotRecord]
          split at hread
          . next rest₁ h₁ hopen =>
            rcases takeOp?_eq_some_iff.1 hopen with ⟨q, rfl⟩
            rcases Except.bind_eq_ok_iff.1 hread with ⟨⟨args, rest₂, h₂⟩, hargs, hread⟩
            rcases (ih _ (by simp only [List.length_cons]; omega)).2 _ _ _ hargs with
              ⟨pre, r, rfl, hderives⟩
            rcases Except.pure_eq_ok_iff.1 hread with ⟨rfl, rfl⟩
            exact ⟨_, by simp, .generic (p := p) (q := q) (r := r) hfree hnotLong hderives, by simp,
              by simp⟩
          . rcases Except.pure_eq_ok_iff.1 hread with ⟨rfl, rfl⟩
            exact ⟨_, rfl, .simple hfree, by simp, by simp [hnotLong]⟩

theorem readsSoundly_step {ts : List Token}
    (ih : ∀ ts' : List Token, ts'.length < ts.length →
      ReadsSoundly eof ts' ∧ ReadsArgsSoundly eof ts') :
    ReadsSoundly eof ts := by
  intro t rest h hread
  rw [read] at hread
  rcases Except.bind_eq_ok_iff.1 hread with ⟨⟨plain, rest₁, h₁⟩, hplain, hread⟩
  rcases typeDerives_of_readPlain ih hplain with ⟨pre, hts, hderives, hnot, hlong⟩
  dsimp only at hread
  split at hread
  . next rest₂ hmark =>
    rcases rest₂ with ⟨rest₂, h₂⟩
    rcases takeOp?_eq_some_iff.1 hmark with ⟨p, hrest⟩
    rcases Except.pure_eq_ok_iff.1 hread with ⟨rfl, rfl⟩
    refine ⟨pre ++ [⟨.op '?', p⟩], ?_, .optional hderives hnot, by simp⟩
    simp [hts, hrest]
  . rcases Except.pure_eq_ok_iff.1 hread with ⟨rfl, rfl⟩
    exact ⟨pre, hts, hderives, hlong⟩

theorem readsArgsSoundly_step {ts : List Token} (hts : ReadsSoundly eof ts)
    (ih : ∀ ts' : List Token, ts'.length < ts.length → ReadsArgsSoundly eof ts') :
    ReadsArgsSoundly eof ts := by
  intro types rest h hread
  rw [readArgs] at hread
  rcases Except.bind_eq_ok_iff.1 hread with ⟨⟨t, rest₁, h₁⟩, ht, hread⟩
  rcases hts _ _ _ ht with ⟨pre, rfl, hderives, -⟩
  rcases (takeSeparator_bind_eq_ok_iff (by decide)).1 hread with
    ⟨p, rest₂, h₂, rfl, hread⟩ | ⟨p, rest₂, h₂, rfl, hread⟩
  . rcases Except.bind_eq_ok_iff.1 hread with ⟨⟨args, rest₃, h₃⟩, hargs, hread⟩
    rcases ih _ (by simp; omega) _ _ _ hargs with ⟨pre', q, rfl, hargsDerive⟩
    rcases Except.pure_eq_ok_iff.1 hread with ⟨rfl, rfl⟩
    exact ⟨_, q, by simp, .more (p := p) hderives hargsDerive⟩
  . rcases Except.pure_eq_ok_iff.1 hread with ⟨rfl, rfl⟩
    exact ⟨pre, p, by simp, .last hderives⟩

theorem readsSoundly (ts : List Token) : ReadsSoundly eof ts ∧ ReadsArgsSoundly eof ts := by
  -- Types and their arguments are read from fewer and fewer tokens.
  induction hn : ts.length using Nat.strongRecOn generalizing ts with
  | ind n ih =>
    have hshorter (ts' : List Token) (h : ts'.length < ts.length) :
        ReadsSoundly eof ts' ∧ ReadsArgsSoundly eof ts' := ih _ (hn ▸ h) ts' rfl
    have hread := readsSoundly_step hshorter
    exact ⟨hread, readsArgsSoundly_step hread fun ts' h => (hshorter ts' h).2⟩

/--
What stands at the start of `rest` cannot belong to the type `t` without its question mark: not an
argument list behind a name, and not a second `long`.
-/
def EndsPlainBefore (t : IdlType) (rest : List Token) : Prop :=
  match t with
  | .simple name => if name = "long" then takeWord? "long" rest = none else isAtOp '<' rest = false
  | _ => True

def EndsBefore (t : IdlType) (rest : List Token) : Prop :=
  match t with
  | .optional _ => True
  | t => isAtOp '?' rest = false ∧ t.EndsPlainBefore rest

def ReadsFully (eof : Pos) (pre : List Token) : Prop :=
  ∀ t rest, TypeDerives pre t → t.EndsBefore rest → ∃ h, read eof (pre ++ rest) = .ok (t, ⟨rest, h⟩)

def ReadsArgsFully (eof : Pos) (pre : List Token) : Prop :=
  ∀ types p rest, TypesDerive pre types →
    ∃ h, readArgs eof (pre ++ ⟨.op '>', p⟩ :: rest) = .ok (types, ⟨rest, h⟩)

theorem endsBefore_cons_op (t : IdlType) {c : Char} {p : Pos} {rest : List Token}
    (hmark : c ≠ '?') (hopen : c ≠ '<') : t.EndsBefore (⟨.op c, p⟩ :: rest) := by
  unfold EndsBefore EndsPlainBefore
  split
  . trivial
  . split <;> simp [isAtOp, takeWord?, hmark, hopen]

theorem readPlain_of_typeDerives {pre rest : List Token} {t : IdlType}
    (ih : ∀ pre' : List Token, pre'.length < pre.length →
      ReadsFully eof pre' ∧ ReadsArgsFully eof pre')
    (hderives : TypeDerives pre t) (hnot : ∀ elem, t ≠ .optional elem)
    (hend : t.EndsPlainBefore rest) : ∃ h, readPlain eof (pre ++ rest) = .ok (t, ⟨rest, h⟩) := by
  rw [readPlain]
  -- What stands in brackets is shorter, so `ih` reads it, and the bracket or comma behind it does
  -- not belong to it.
  cases hderives with
  | @simple name p hfree =>
    simp only [reserved, List.mem_cons, List.not_mem_nil, or_false, not_or] at hfree
    unfold EndsPlainBefore at hend
    by_cases hlong : name = "long"
    . subst hlong
      simp only [↓reduceIte] at hend
      simp only [List.cons_append, List.nil_append, takeIdent, Except.ok_bind, ↓reduceIte, hend]
      exact ⟨Nat.lt_succ_self _, rfl⟩
    . simp only [hlong, ↓reduceIte] at hend
      rw [← takeOp?_eq_none_iff] at hend
      simp only [List.cons_append, List.nil_append, takeIdent, Except.ok_bind, hlong, hfree,
        ↓reduceIte, hend]
      exact ⟨Nat.lt_succ_self _, rfl⟩
  | longLong => exact ⟨_, rfl⟩
  | optional _ _ => exact absurd rfl (hnot _)
  | @sequence ts elem p q r helem =>
    rcases (ih ts (by simp; omega)).1 elem (⟨.op '>', r⟩ :: rest) helem
      (endsBefore_cons_op _ (by decide) (by decide)) with ⟨_, hread⟩
    simp only [List.cons_append, List.append_assoc, List.nil_append, takeIdent, Except.ok_bind,
      String.reduceEq, ↓reduceIte, takeOp_cons, hread]
    exact ⟨by simp; omega, rfl⟩
  | @union ts members p q r hmembers =>
    rcases (ih ts (by simp; omega)).2 members r rest hmembers with ⟨_, hread⟩
    simp only [List.cons_append, List.append_assoc, List.nil_append, takeIdent, Except.ok_bind,
      String.reduceEq, ↓reduceIte, takeOp_cons, hread]
    exact ⟨by simp; omega, rfl⟩
  | @record ts ts' key value p q r u hkey hvalue =>
    rcases (ih ts (by simp; omega)).1 key (⟨.op ',', r⟩ :: (ts' ++ ⟨.op '>', u⟩ :: rest)) hkey
      (endsBefore_cons_op _ (by decide) (by decide)) with ⟨_, hreadKey⟩
    rcases (ih ts' (by simp; omega)).1 value (⟨.op '>', u⟩ :: rest) hvalue
      (endsBefore_cons_op _ (by decide) (by decide)) with ⟨_, hreadValue⟩
    simp only [List.cons_append, List.append_assoc, List.nil_append, takeIdent, Except.ok_bind,
      String.reduceEq, ↓reduceIte, takeOp_cons, hreadKey, hreadValue]
    exact ⟨by simp; omega, rfl⟩
  | @generic ts name args p q r hfree hlong hargs =>
    simp only [reserved, List.mem_cons, List.not_mem_nil, or_false, not_or] at hfree
    rcases (ih ts (by simp; omega)).2 args r rest hargs with ⟨_, hread⟩
    simp only [List.cons_append, List.append_assoc, List.nil_append, takeIdent, Except.ok_bind,
      hlong, hfree, ↓reduceIte, takeOp?_cons, hread]
    exact ⟨by simp; omega, rfl⟩

theorem read_of_readPlain {ts rest : List Token} {t : IdlType} {h : rest.length < ts.length}
    (hplain : readPlain eof ts = .ok (t, ⟨rest, h⟩)) (hmark : isAtOp '?' rest = false) :
    read eof ts = .ok (t, ⟨rest, h⟩) := by
  rw [read, hplain]
  simp only [Except.ok_bind, takeOp?_eq_none_iff.2 hmark]
  rfl

theorem readsFully_step {pre : List Token}
    (ih : ∀ pre' : List Token, pre'.length < pre.length →
      ReadsFully eof pre' ∧ ReadsArgsFully eof pre') : ReadsFully eof pre := by
  intro t rest hderives hend
  cases t with
  | optional elem =>
    cases hderives with
    | @optional ts _ p helem hnot =>
      -- The element ends before its question mark.
      have hend' : elem.EndsPlainBefore (⟨.op '?', p⟩ :: rest) := by
        unfold EndsPlainBefore
        split
        . split <;> simp [isAtOp, takeWord?]
        . trivial
      have hshorter (pre' : List Token) (h : pre'.length < ts.length) :
          ReadsFully eof pre' ∧ ReadsArgsFully eof pre' := ih pre' (by simp; omega)
      rcases readPlain_of_typeDerives hshorter helem hnot hend' with ⟨_, hplain⟩
      rw [read, List.append_assoc, List.singleton_append, hplain]
      simp only [Except.ok_bind, takeOp?_cons]
      exact ⟨by simp; omega, rfl⟩
  | _ =>
    rcases readPlain_of_typeDerives ih hderives (by simp) hend.2 with ⟨h, hplain⟩
    exact ⟨h, read_of_readPlain hplain hend.1⟩

theorem readsArgsFully_step {pre : List Token} (hpre : ReadsFully eof pre)
    (ih : ∀ pre' : List Token, pre'.length < pre.length →
      ReadsFully eof pre' ∧ ReadsArgsFully eof pre') : ReadsArgsFully eof pre := by
  intro types p rest hderives
  rw [readArgs]
  cases hderives with
  | @last _ t ht =>
    rcases hpre t (⟨.op '>', p⟩ :: rest) ht
      (endsBefore_cons_op _ (by decide) (by decide)) with ⟨_, hread⟩
    rw [hread]
    exact ⟨_, rfl⟩
  | @more ts ts' t types q ht htypes =>
    rcases (ih ts (by simp)).1 t (⟨.op ',', q⟩ :: (ts' ++ ⟨.op '>', p⟩ :: rest)) ht
      (endsBefore_cons_op _ (by decide) (by decide)) with ⟨_, hread⟩
    rcases (ih ts' (by simp; omega)).2 types p rest htypes with ⟨_, hreadArgs⟩
    rw [List.append_assoc, List.cons_append, hread]
    simp only [Except.ok_bind, takeSeparator_cons, ↓reduceIte, hreadArgs]
    exact ⟨by simp; omega, rfl⟩

theorem readsFully (pre : List Token) : ReadsFully eof pre ∧ ReadsArgsFully eof pre := by
  -- The derivations of types and of their arguments are nested, but their tokens get fewer.
  induction hn : pre.length using Nat.strongRecOn generalizing pre with
  | ind n ih =>
    have hshorter (pre' : List Token) (h : pre'.length < pre.length) :
        ReadsFully eof pre' ∧ ReadsArgsFully eof pre' := ih _ (hn ▸ h) pre' rfl
    have hread := readsFully_step hshorter
    exact ⟨hread, readsArgsFully_step hread hshorter⟩

end IdlCompiler.IdlType
