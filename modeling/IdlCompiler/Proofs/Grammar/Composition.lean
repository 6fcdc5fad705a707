import IdlCompiler.Proofs.Grammar.Uniqueness

/-!
This module contains what becomes of the items of a source file when more tokens follow them: they
stay the first items, and what stood between them and the end of the file goes to what follows.
-/

namespace IdlCompiler.Grammar

open Cursor

variable {pre pre' rest rest' ts ts' : List Token}

def File.followedBy (f g : File) : File :=
  ⟨f.items ++ g.items, g.dangling, g.danglingPartial⟩

theorem SepBy.ne_nil {α : Type} {Derives : List Token → α → Prop} {as : List α}
    (h : SepBy Derives ts as) : as ≠ [] := by
  cases h <;> simp

theorem BlockDerives.readBlock_of_ne_nil {attrs : List ExtAttr} (h : BlockDerives pre attrs)
    (hne : attrs ≠ []) (eof : Pos) (rest : List Token) :
    ∃ h, ExtAttr.readBlock eof (pre ++ rest) = .ok (attrs, ⟨rest, h⟩) := by
  cases h with
  | none => exact absurd rfl hne
  | some hattrs =>
    rw [List.append_assoc, List.cons_append, List.singleton_append]
    exact ExtAttr.readBlock_of_sepBy eof rest hattrs

theorem BlockDerives.unique_of_ne_nil {attrs attrs' : List ExtAttr} (h : BlockDerives pre attrs)
    (h' : BlockDerives pre' attrs') (hne : attrs ≠ []) (hne' : attrs' ≠ [])
    (heq : pre ++ rest = pre' ++ rest') : attrs = attrs' ∧ rest = rest' := by
  have hread := h.readBlock_of_ne_nil hne ⟨"", 0, 0⟩ rest
  rw [heq] at hread
  rcases hread with ⟨_, hread⟩
  rcases h'.readBlock_of_ne_nil hne' ⟨"", 0, 0⟩ rest' with ⟨_, hread'⟩
  rw [hread] at hread'
  simpa using hread'

theorem ItemDerives.exists_front {item : Item} (h : ItemDerives pre item) :
    ∃ ts₁ ts₂ kind p tail, pre = ts₁ ++ (ts₂ ++ ⟨.ident kind, p⟩ :: tail) ∧
      BlockDerives ts₁ item.attrs ∧ PartialDerives ts₂ item.isPartial ∧ kind ≠ "partial" := by
  rcases h with @⟨ts₁, ts₂, ts₃, ts₄, _, _, kind, _, _, p, q, r, u, name, hattrs, hpartial, _, hbody⟩
  refine ⟨ts₁, ts₂, kind, p, name.token :: (ts₃ ++ ⟨.op '{', q⟩ :: (ts₄ ++
    [⟨.op '}', r⟩, ⟨.op ';', u⟩])), ?_, hattrs, hpartial, ?_⟩
  . simp only [List.append_assoc, List.cons_append]
  . cases hbody <;> decide

theorem BlockDerives.eq_nil_of_front {ts₁ ts₂ us₁ us₂ us₁' us₂' tail tail' : List Token}
    {attrs ahead attrs' : List ExtAttr} {isPartial markAhead : Bool} {kind kind' : String} {p p' : Pos}
    (hblockAhead : BlockDerives ts₁ ahead) (hmarkAhead : PartialDerives ts₂ markAhead)
    (hblock : BlockDerives us₁ attrs) (hmark : PartialDerives us₂ isPartial)
    (hblock' : BlockDerives us₁' attrs') (hmark' : PartialDerives us₂' isPartial)
    (hkind' : kind' ≠ "partial") (hsame : attrs' = [] ↔ attrs = [])
    (heq : ts₁ ++ (ts₂ ++ (us₁ ++ (us₂ ++ ⟨.ident kind, p⟩ :: tail))) =
      us₁' ++ (us₂' ++ ⟨.ident kind', p'⟩ :: tail')) : ts₁ = [] ∧ ts₂ = [] := by
  have hopen' : isAtOp '[' (us₂' ++ ⟨.ident kind', p'⟩ :: tail') = false :=
    Declaration.isAtOp_append_of_partialDerives hmark' rfl
  cases hmarkAhead with
  | some =>
    rcases hblockAhead.unique hblock' rfl hopen' heq with ⟨-, heq⟩
    cases hmark' with
    | none =>
      simp only [List.nil_append, List.cons_append, List.cons.injEq, Token.mk.injEq,
        Lexeme.ident.injEq] at heq
      exact absurd heq.1.1.symm hkind'
    | some =>
      -- The item has the mark itself, which would be the word for a kind.
      cases hmark with
      | some =>
        simp only [List.cons_append, List.nil_append, List.cons.injEq] at heq
        cases hblock with
        | none =>
          simp only [List.nil_append, List.cons.injEq, Token.mk.injEq, Lexeme.ident.injEq] at heq
          exact absurd heq.2.1.1.symm hkind'
        | some _ => simp at heq
  | none =>
    cases hblockAhead with
    | none => exact ⟨rfl, rfl⟩
    | some hsep =>
      cases hblock' with
      | none =>
        rw [List.nil_append (us₂' ++ _)] at heq
        rw [← heq] at hopen'
        simp [isAtOp] at hopen'
      | some hsep' =>
        rcases BlockDerives.unique_of_ne_nil (.some hsep) (.some hsep') hsep.ne_nil hsep'.ne_nil heq
          with ⟨-, heq⟩
        cases hblock with
        | none => exact absurd (hsame.2 rfl) hsep'.ne_nil
        | some _ =>
          rw [← heq] at hopen'
          simp [isAtOp] at hopen'

theorem FileDerives.eq_nil_of_front {ts₁ ts₂ : List Token} {ahead : List ExtAttr} {markAhead : Bool}
    {f f' : File} {item item' : Item} (hblockAhead : BlockDerives ts₁ ahead)
    (hmarkAhead : PartialDerives ts₂ markAhead) (h : FileDerives ts f)
    (h' : FileDerives (ts₁ ++ (ts₂ ++ ts)) f') (hitem : f.items.head? = some item)
    (hitem' : f'.items.head? = some item') (hsame : item'.attrs = [] ↔ item.attrs = [])
    (hpartial : item'.isPartial = item.isPartial) : ts₁ = [] ∧ ts₂ = [] := by
  generalize heq : ts₁ ++ (ts₂ ++ ts) = ts' at h'
  cases h with
  | nil _ _ => cases hitem
  | cons hderives _ =>
    cases h' with
    | nil _ _ => cases hitem'
    | cons hderives' _ =>
      cases hitem
      cases hitem'
      rcases hderives.exists_front with ⟨us₁, us₂, kind, p, tail, rfl, hblock, hmark, -⟩
      rcases hderives'.exists_front with ⟨us₁', us₂', kind', p', tail', rfl, hblock', hmark', hkind'⟩
      rw [hpartial] at hmark'
      simp only [List.append_assoc, List.cons_append] at heq
      exact hblockAhead.eq_nil_of_front hmarkAhead hblock hmark hblock' hmark' hkind' hsame heq

theorem FileDerives.exists_of_itemDerives {item : Item} {f : File} (hitem : ItemDerives pre item)
    (h : FileDerives (pre ++ rest) f) :
    ∃ g, FileDerives rest g ∧ f = ⟨item :: g.items, g.dangling, g.danglingPartial⟩ := by
  generalize heq : pre ++ rest = all at h
  cases h with
  | @nil _ _ _ _ p hattrs hpartial =>
    have hend : isAtEnd [⟨.eof, p⟩] := by simp [isAtEnd]
    exact absurd heq (hitem.ne_end hattrs hpartial hend)
  | cons hitem' hfile =>
    rcases hitem.unique hitem' heq with ⟨rfl, rfl⟩
    exact ⟨_, hfile, rfl⟩

theorem ItemDerives.exists_concat {item : Item} (h : ItemDerives pre item) :
    ∃ ts p, pre = ts ++ [⟨.op ';', p⟩] := by
  rcases h with ⟨_, _, _, _⟩
  exact ⟨_, _, List.append_cons _ _ _⟩

theorem FileDerives.exists_items {f : File} (h : FileDerives ts f) :
    ∃ items ts₁ ts₂ p, ts = items ++ (ts₁ ++ (ts₂ ++ [⟨.eof, p⟩])) ∧
      BlockDerives ts₁ f.dangling ∧ PartialDerives ts₂ f.danglingPartial ∧
      (items = [] ∨ ∃ us q, items = us ++ [⟨.op ';', q⟩]) ∧
      ∀ rest g, FileDerives (items ++ rest) g ↔
        ∃ g', FileDerives rest g' ∧ g = f.followedBy g' := by
  -- Items are derived alike whatever stands behind them, so another file can take the place of the
  -- rest.
  induction h with
  | @nil ts₁ ts₂ dangling isPartial p hattrs hpartial =>
    refine ⟨[], ts₁, ts₂, p, by simp, hattrs, hpartial, .inl rfl, ?_⟩
    intro rest g
    simp [File.followedBy]
  | @cons ts ts' item items dangling isPartial hitem hfile ih =>
    rcases ih with ⟨pre, ts₁, ts₂, p, rfl, hattrs, hpartial, hlast, hiff⟩
    refine ⟨ts ++ pre, ts₁, ts₂, p, by simp, hattrs, hpartial, ?_, ?_⟩
    . apply Or.inr
      rcases hlast with rfl | ⟨us, q, rfl⟩
      . rw [List.append_nil]
        exact hitem.exists_concat
      . exact ⟨ts ++ us, q, by rw [List.append_assoc]⟩
    . intro rest g
      rw [List.append_assoc]
      constructor
      . intro hg
        rcases FileDerives.exists_of_itemDerives hitem hg with ⟨g', hg', rfl⟩
        rcases (hiff rest g').1 hg' with ⟨g'', hg'', rfl⟩
        exact ⟨g'', hg'', rfl⟩
      . rintro ⟨g', hg', rfl⟩
        exact .cons hitem ((hiff rest _).2 ⟨g', hg', rfl⟩)

end IdlCompiler.Grammar
