import IdlCompiler.Proofs.Except
import IdlCompiler.Proofs.Grammar.Derivation

/-!
This module contains what the steps that readers are made of read: each of them succeeds exactly on
the tokens it is meant for.
-/

namespace IdlCompiler

theorem Except.pure_eq_ok_iff {ε α : Type} {P : List Token → Prop} {a b : α}
    {rest rest' : List Token} {h : P rest} {h' : P rest'} :
    (pure (a, ⟨rest, h⟩) : Except ε (α × Subtype P)) = .ok (b, ⟨rest', h'⟩) ↔
      a = b ∧ rest = rest' := by
  simp [pure, Except.pure]

namespace Outcome

variable {ε α β : Type} {f : α → Outcome ε β} {b : β}

theorem bind_eq_ok_iff {x : Outcome ε α} :
    (x >>= f).result = .ok b ↔ ∃ a, x.result = .ok a ∧ (f a).result = .ok b := by
  rw [result_bind, Except.bind_eq_ok_iff]

theorem lift_bind_eq_ok_iff {x : Except ε α} :
    ((liftM x : Outcome ε α) >>= f).result = .ok b ↔ ∃ a, x = .ok a ∧ (f a).result = .ok b :=
  bind_eq_ok_iff

theorem result_bind_of_ok {x : Outcome ε α} {a : α} (h : x.result = .ok a) :
    (x >>= f).result = (f a).result := by
  rw [result_bind, h, Except.ok_bind]

theorem result_lift_bind_of_ok {x : Except ε α} {a : α} (h : x = .ok a) :
    ((liftM x : Outcome ε α) >>= f).result = (f a).result :=
  result_bind_of_ok h

theorem result_pure_eq_ok_iff {a b : α} : (pure a : Outcome ε α).result = .ok b ↔ a = b := by
  simp

end Outcome

namespace Cursor

open Grammar

variable {eof : Pos} {ts rest : List Token} {c : Char} {p : Pos}

theorem takeOp?_eq_some_iff {h : rest.length < ts.length} :
    takeOp? c ts = some ⟨rest, h⟩ ↔ ∃ p, ts = ⟨.op c, p⟩ :: rest := by
  unfold takeOp?
  split
  . next d p tail =>
    split
    . next hd => simp [hd]
    . next hd => simp [hd]
  . next hother =>
    constructor
    . simp
    . rintro ⟨p, hts⟩
      exact absurd hts (hother c p rest)

theorem takeOp?_eq_none_iff : takeOp? c ts = none ↔ isAtOp c ts = false := by
  unfold takeOp? isAtOp
  split
  . next d p tail => simp
  . next hother =>
    cases ts with
    | nil => simp
    | cons t tail =>
      rcases t with ⟨lexeme, p⟩
      simp only [true_iff, decide_eq_false_iff_not]
      rintro rfl
      exact hother c p tail rfl

@[simp]
theorem takeOp?_cons : takeOp? c (⟨.op c, p⟩ :: ts) = some ⟨ts, Nat.lt_succ_self _⟩ := by
  simp [takeOp?]

theorem takeOp_eq_ok_iff {h : rest.length < ts.length} :
    takeOp eof c ts = .ok ⟨rest, h⟩ ↔ ∃ p, ts = ⟨.op c, p⟩ :: rest := by
  rw [← takeOp?_eq_some_iff (h := h)]
  unfold takeOp
  split
  . next hsome => simp [hsome]
  . next hnone => simp [hnone]

@[simp]
theorem takeOp_cons : takeOp eof c (⟨.op c, p⟩ :: ts) = .ok ⟨ts, Nat.lt_succ_self _⟩ := by
  simp [takeOp]

theorem takeOp_bind_eq_ok_iff {α : Type} {f : Shorter ts → Except Diagnostic α} {a : α} :
    takeOp eof c ts >>= f = .ok a ↔
      ∃ p rest, ∃ h : rest.length < ts.length, ts = ⟨.op c, p⟩ :: rest ∧ f ⟨rest, h⟩ = .ok a := by
  rw [Except.bind_eq_ok_iff]
  constructor
  . rintro ⟨⟨rest, h⟩, htake, hf⟩
    rcases takeOp_eq_ok_iff.1 htake with ⟨p, hts⟩
    exact ⟨p, rest, h, hts, hf⟩
  . rintro ⟨p, rest, h, hts, hf⟩
    exact ⟨⟨rest, h⟩, takeOp_eq_ok_iff.2 ⟨p, hts⟩, hf⟩

theorem takeWord?_eq_some_iff {word : String} {h : rest.length < ts.length} :
    takeWord? word ts = some ⟨rest, h⟩ ↔ ∃ p, ts = ⟨.ident word, p⟩ :: rest := by
  unfold takeWord?
  split
  . next name p tail =>
    split
    . next hname => simp [hname]
    . next hname => simp [hname]
  . next hother =>
    constructor
    . simp
    . rintro ⟨p, hts⟩
      exact absurd hts (hother word p rest)

@[simp]
theorem takeWord?_cons {word : String} :
    takeWord? word (⟨.ident word, p⟩ :: ts) = some ⟨ts, Nat.lt_succ_self _⟩ := by
  simp [takeWord?]

theorem takeIdent_eq_ok_iff {name : Name} {h : rest.length < ts.length} :
    takeIdent eof ts = .ok (name, ⟨rest, h⟩) ↔ ts = name.token :: rest := by
  rcases name with ⟨text, pos⟩
  unfold takeIdent Name.token
  split
  . next name p tail => simp [and_assoc]
  . next hother =>
    constructor
    . simp
    . intro hts
      exact absurd hts (hother text pos rest)

@[simp]
theorem takeIdent_cons {name : Name} :
    takeIdent eof (name.token :: ts) = .ok (name, ⟨ts, Nat.lt_succ_self _⟩) := rfl

theorem takeLiteral_eq_ok_iff {lexeme : Lexeme} {h : rest.length < ts.length} :
    takeLiteral eof ts = .ok (lexeme, ⟨rest, h⟩) ↔
      IsLiteral lexeme ∧ ∃ p, ts = ⟨lexeme, p⟩ :: rest := by
  unfold takeLiteral
  split
  . cases lexeme <;> simp [IsLiteral, eq_comm]
  . cases lexeme <;> simp [IsLiteral, eq_comm]
  . cases lexeme <;> simp [IsLiteral, eq_comm]
  . next hstring hnumber hident =>
    cases lexeme with
    | string value => simpa [IsLiteral] using fun p => hstring value p rest
    | number digits => simpa [IsLiteral] using fun p => hnumber digits p rest
    | ident name => simpa [IsLiteral] using fun p => hident name p rest
    | op char => simp [IsLiteral]
    | eof => simp [IsLiteral]

theorem takeSeparator_eq_ok_iff {sep close : Char} (hne : sep ≠ close) {more : Bool}
    {h : rest.length < ts.length} :
    takeSeparator eof sep close ts = .ok (more, ⟨rest, h⟩) ↔
      ∃ p, ts = ⟨.op (if more then sep else close), p⟩ :: rest := by
  unfold takeSeparator
  split
  . next _ rest' hsep =>
    rcases rest' with ⟨rest', h'⟩
    rcases takeOp?_eq_some_iff.1 hsep with ⟨p, rfl⟩
    cases more <;> simp [hne]
  . next rest' hsep hclose =>
    rcases rest' with ⟨rest', h'⟩
    rcases takeOp?_eq_some_iff.1 hclose with ⟨p, rfl⟩
    cases more <;> simp [hne.symm]
  . next hsep hclose =>
    rw [takeOp?_eq_none_iff] at hsep hclose
    constructor
    . simp
    . rintro ⟨p, rfl⟩
      cases more <;> simp [isAtOp] at hsep hclose

theorem takeSeparator_bind_eq_ok_iff {sep close : Char} (hne : sep ≠ close) {α : Type}
    {f : Bool × Shorter ts → Except Diagnostic α} {a : α} :
    takeSeparator eof sep close ts >>= f = .ok a ↔
      (∃ p rest, ∃ h : rest.length < ts.length, ts = ⟨.op sep, p⟩ :: rest ∧
        f (true, ⟨rest, h⟩) = .ok a) ∨
      ∃ p rest, ∃ h : rest.length < ts.length, ts = ⟨.op close, p⟩ :: rest ∧
        f (false, ⟨rest, h⟩) = .ok a := by
  rw [Except.bind_eq_ok_iff]
  constructor
  . rintro ⟨⟨more, rest, h⟩, htake, hf⟩
    rcases (takeSeparator_eq_ok_iff hne).1 htake with ⟨p, hts⟩
    cases more with
    | true => exact .inl ⟨p, rest, h, hts, hf⟩
    | false => exact .inr ⟨p, rest, h, hts, hf⟩
  . rintro (⟨p, rest, h, hts, hf⟩ | ⟨p, rest, h, hts, hf⟩)
    . exact ⟨(true, ⟨rest, h⟩), (takeSeparator_eq_ok_iff hne).2 ⟨p, hts⟩, hf⟩
    . exact ⟨(false, ⟨rest, h⟩), (takeSeparator_eq_ok_iff hne).2 ⟨p, hts⟩, hf⟩

@[simp]
theorem takeSeparator_cons {sep close : Char} :
    takeSeparator eof sep close (⟨.op sep, p⟩ :: ts) = .ok (true, ⟨ts, Nat.lt_succ_self _⟩) := by
  simp [takeSeparator]

theorem takeLiteral_cons {lexeme : Lexeme} {p : Pos} (h : IsLiteral lexeme) :
    takeLiteral eof (⟨lexeme, p⟩ :: ts) = .ok (lexeme, ⟨ts, Nat.lt_succ_self _⟩) :=
  takeLiteral_eq_ok_iff.2 ⟨h, p, rfl⟩

theorem takeSeparator_cons_close {p : Pos} (sep close : Char) (hne : sep ≠ close) :
    takeSeparator eof sep close (⟨.op close, p⟩ :: ts) =
      .ok (false, ⟨ts, Nat.lt_succ_self _⟩) :=
  (takeSeparator_eq_ok_iff hne).2 ⟨p, rfl⟩

end Cursor

end IdlCompiler
