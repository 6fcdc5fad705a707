import IdlCompiler.Proofs.Grammar.Cursor

/-!
This module contains the proof that blocks of extended attributes are read as the grammar has them.
-/

namespace IdlCompiler.ExtAttr

open Cursor Grammar

variable {eof : Pos} {ts pre rest : List Token}

theorem sepBy_of_readArgs {args : List Lexeme} {h : rest.length < ts.length}
    (hread : readArgs eof ts = .ok (args, ⟨rest, h⟩)) :
    ∃ pre p, ts = pre ++ ⟨.op ')', p⟩ :: rest ∧ SepBy LiteralDerives pre args := by
  induction hn : ts.length using Nat.strongRecOn generalizing ts args rest with
  | ind n ih =>
    rw [readArgs] at hread
    rcases Except.bind_eq_ok_iff.1 hread with ⟨⟨arg, rest₁, h₁⟩, harg, hread⟩
    rcases takeLiteral_eq_ok_iff.1 harg with ⟨hliteral, p, rfl⟩
    rcases (takeSeparator_bind_eq_ok_iff (by decide)).1 hread with
      ⟨q, rest₂, h₂, rfl, hread⟩ | ⟨q, rest₂, h₂, rfl, hread⟩
    . rcases Except.bind_eq_ok_iff.1 hread with ⟨⟨args', rest₃, h₃⟩, hargs, hread⟩
      rcases ih _ (by simp at hn; omega) hargs rfl with ⟨pre, r, rfl, hderive⟩
      rcases Except.pure_eq_ok_iff.1 hread with ⟨rfl, rfl⟩
      exact ⟨_, r, by simp, .more (p := q) (LiteralDerives.intro (p := p) hliteral) hderive⟩
    . rcases Except.pure_eq_ok_iff.1 hread with ⟨rfl, rfl⟩
      exact ⟨_, q, by simp, .last (.intro (p := p) hliteral)⟩

theorem attrDerives_of_read {attr : ExtAttr} {h : rest.length < ts.length}
    (hread : read eof ts = .ok (attr, ⟨rest, h⟩)) :
    ∃ pre, ts = pre ++ rest ∧ AttrDerives pre attr := by
  unfold read at hread
  rcases Except.bind_eq_ok_iff.1 hread with ⟨⟨name, rest₁, h₁⟩, hname, hread⟩
  have hts := takeIdent_eq_ok_iff.1 hname
  subst hts
  dsimp only at hread
  split at hread
  . next _ rest₂ hequals =>
    rcases rest₂ with ⟨rest₂, h₂⟩
    rcases takeOp?_eq_some_iff.1 hequals with ⟨p, rfl⟩
    rcases Except.bind_eq_ok_iff.1 hread with ⟨⟨arg, rest₃, h₃⟩, harg, hread⟩
    rcases takeLiteral_eq_ok_iff.1 harg with ⟨hliteral, q, hrest₂⟩
    rcases Except.pure_eq_ok_iff.1 hread with ⟨rfl, rfl⟩
    refine ⟨_, ?_, .equals (p := p) (.intro (p := q) hliteral)⟩
    simp [Shorter.next, show rest₂ = _ from hrest₂]
  . next rest₂ _ hopen =>
    rcases rest₂ with ⟨rest₂, h₂⟩
    rcases takeOp?_eq_some_iff.1 hopen with ⟨p, rfl⟩
    rcases Except.bind_eq_ok_iff.1 hread with ⟨⟨args, rest₃, h₃⟩, hargs, hread⟩
    rcases sepBy_of_readArgs hargs with ⟨pre, q, hrest₂, hderive⟩
    rcases Except.pure_eq_ok_iff.1 hread with ⟨rfl, rfl⟩
    refine ⟨_, ?_, .parens (p := p) (q := q) hderive⟩
    simp [Shorter.next, show rest₂ = _ from hrest₂]
  . rcases Except.pure_eq_ok_iff.1 hread with ⟨rfl, rfl⟩
    exact ⟨_, rfl, .bare⟩

theorem sepBy_of_readAll {attrs : List ExtAttr} {h : rest.length < ts.length}
    (hread : readAll eof ts = .ok (attrs, ⟨rest, h⟩)) :
    ∃ pre p, ts = pre ++ ⟨.op ']', p⟩ :: rest ∧ SepBy AttrDerives pre attrs := by
  induction hn : ts.length using Nat.strongRecOn generalizing ts attrs rest with
  | ind n ih =>
    rw [readAll] at hread
    rcases Except.bind_eq_ok_iff.1 hread with ⟨⟨attr, rest₁, h₁⟩, hattr, hread⟩
    rcases attrDerives_of_read hattr with ⟨pre, rfl, hderives⟩
    rcases (takeSeparator_bind_eq_ok_iff (by decide)).1 hread with
      ⟨q, rest₂, h₂, rfl, hread⟩ | ⟨q, rest₂, h₂, rfl, hread⟩
    . rcases Except.bind_eq_ok_iff.1 hread with ⟨⟨attrs', rest₃, h₃⟩, hattrs, hread⟩
      rcases ih _ (by simp at hn; omega) hattrs rfl with ⟨pre', r, rfl, hderive⟩
      rcases Except.pure_eq_ok_iff.1 hread with ⟨rfl, rfl⟩
      exact ⟨_, r, by simp, .more (p := q) hderives hderive⟩
    . rcases Except.pure_eq_ok_iff.1 hread with ⟨rfl, rfl⟩
      exact ⟨pre, q, by simp, .last hderives⟩

theorem blockDerives_of_readBlock {attrs : List ExtAttr} {h : rest.length ≤ ts.length}
    (hread : readBlock eof ts = .ok (attrs, ⟨rest, h⟩)) :
    ∃ pre, ts = pre ++ rest ∧ BlockDerives pre attrs := by
  unfold readBlock at hread
  split at hread
  . next rest₁ hopen =>
    rcases rest₁ with ⟨rest₁, h₁⟩
    rcases takeOp?_eq_some_iff.1 hopen with ⟨p, rfl⟩
    rcases Except.bind_eq_ok_iff.1 hread with ⟨⟨attrs', rest₂, h₂⟩, hattrs, hread⟩
    rcases sepBy_of_readAll hattrs with ⟨pre, q, hrest₁, hderive⟩
    rcases Except.pure_eq_ok_iff.1 hread with ⟨rfl, rfl⟩
    refine ⟨_, ?_, .some (p := p) (q := q) hderive⟩
    simp [Shorter.next, show rest₁ = _ from hrest₁]
  . rcases Except.pure_eq_ok_iff.1 hread with ⟨rfl, rfl⟩
    exact ⟨[], rfl, .none⟩

variable (eof) (rest)

theorem readArgs_of_sepBy {args : List Lexeme} {p : Pos} (hderive : SepBy LiteralDerives pre args) :
    ∃ h, readArgs eof (pre ++ ⟨.op ')', p⟩ :: rest) = .ok (args, ⟨rest, h⟩) := by
  induction hderive with
  | @last ts arg harg =>
    rcases harg with ⟨hliteral⟩
    rw [readArgs, List.singleton_append, takeLiteral_cons hliteral, Except.ok_bind]
    simp only [takeSeparator_cons_close ',' ')' (by decide), Except.ok_bind]
    exact ⟨by simp only [List.length_cons]; omega, rfl⟩
  | @more ts ts' arg args q harg _ ih =>
    rcases harg with ⟨hliteral⟩
    rcases ih with ⟨_, hread⟩
    rw [readArgs, List.append_assoc, List.singleton_append, List.cons_append,
      takeLiteral_cons hliteral]
    simp only [Except.ok_bind, takeSeparator_cons, ↓reduceIte, hread]
    exact ⟨by simp; omega, rfl⟩

theorem read_of_attrDerives {attr : ExtAttr} (hderives : AttrDerives pre attr)
    (hequals : isAtOp '=' rest = false) (hopen : isAtOp '(' rest = false) :
    ∃ h, read eof (pre ++ rest) = .ok (attr, ⟨rest, h⟩) := by
  unfold read
  cases hderives with
  | bare =>
    rw [List.singleton_append, takeIdent_cons]
    simp only [Except.ok_bind, takeOp?_eq_none_iff.2 hequals, takeOp?_eq_none_iff.2 hopen]
    exact ⟨by simp, rfl⟩
  | equals harg =>
    rcases harg with ⟨hliteral⟩
    rw [List.cons_append, List.cons_append, List.singleton_append, takeIdent_cons]
    simp only [Except.ok_bind, takeOp?_cons, takeLiteral_cons hliteral]
    exact ⟨by simp; omega, rfl⟩
  | @parens name ts args p q hargs =>
    rcases readArgs_of_sepBy eof rest (p := q) hargs with ⟨_, hread⟩
    rw [List.append_assoc, List.cons_append, List.cons_append, List.singleton_append,
      takeIdent_cons]
    have hnone : takeOp? '=' (⟨.op '(', p⟩ :: (ts ++ ⟨.op ')', q⟩ :: rest)) = none := rfl
    simp only [Except.ok_bind, takeOp?_cons, hnone, hread]
    exact ⟨by simp; omega, rfl⟩

theorem readAll_of_sepBy {attrs : List ExtAttr} {p : Pos} (hderive : SepBy AttrDerives pre attrs) :
    ∃ h, readAll eof (pre ++ ⟨.op ']', p⟩ :: rest) = .ok (attrs, ⟨rest, h⟩) := by
  induction hderive with
  | @last ts attr hattr =>
    rcases read_of_attrDerives eof (⟨.op ']', p⟩ :: rest) hattr rfl rfl
      with ⟨_, hread⟩
    rw [readAll, hread, Except.ok_bind]
    simp only [takeSeparator_cons_close ',' ']' (by decide), Except.ok_bind]
    exact ⟨by simp; omega, rfl⟩
  | @more ts ts' attr attrs q hattr _ ih =>
    rcases ih with ⟨_, hreadAll⟩
    rcases read_of_attrDerives eof (⟨.op ',', q⟩ :: (ts' ++ ⟨.op ']', p⟩ :: rest))
      hattr rfl rfl with ⟨_, hread⟩
    rw [readAll, List.append_assoc, List.cons_append, hread]
    simp only [Except.ok_bind, takeSeparator_cons, ↓reduceIte, hreadAll]
    exact ⟨by simp; omega, rfl⟩

theorem readBlock_of_sepBy {attrs : List ExtAttr} {p q : Pos} (hderive : SepBy AttrDerives pre attrs) :
    ∃ h, readBlock eof (⟨.op '[', p⟩ :: (pre ++ ⟨.op ']', q⟩ :: rest)) =
      .ok (attrs, ⟨rest, h⟩) := by
  rcases readAll_of_sepBy eof rest (p := q) hderive with ⟨_, hread⟩
  unfold readBlock
  simp only [takeOp?_cons, hread, Except.ok_bind]
  exact ⟨by simp; omega, rfl⟩

theorem readBlock_of_blockDerives {attrs : List ExtAttr} (hderives : BlockDerives pre attrs)
    (hopen : isAtOp '[' rest = false) :
    ∃ h, readBlock eof (pre ++ rest) = .ok (attrs, ⟨rest, h⟩) := by
  cases hderives with
  | none =>
    unfold readBlock
    rw [List.nil_append]
    simp only [takeOp?_eq_none_iff.2 hopen]
    exact ⟨by simp, rfl⟩
  | some hattrs =>
    rw [List.append_assoc, List.cons_append, List.singleton_append]
    exact readBlock_of_sepBy eof rest hattrs

end IdlCompiler.ExtAttr
