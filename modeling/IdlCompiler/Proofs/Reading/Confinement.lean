import IdlCompiler.Proofs.Reading.Readers

/-!
This module contains that declarations are read from the tokens of a file and from nothing else. No
reader looks behind the token for the end of the file, and every error is about a place where one of
the tokens stands.
-/

namespace IdlCompiler

namespace Comparison

def Strict (c : Comparison) : Prop :=
  ∀ p p', c.SamePos p p' → p = p'

variable {c : Comparison}

theorem Diagnostics.eq (hc : c.Strict) {d d' : Diagnostic} (h : c.Diagnostics d d') : d = d' := by
  obtain ⟨p, cause, notes⟩ := d
  obtain ⟨p', cause', notes'⟩ := d'
  obtain ⟨hpos, rfl, rfl⟩ := h
  rw [hc p p' hpos]

theorem Warnings.eq (hc : c.Strict) {w w' : Warning} (h : c.Warnings w w') : w = w' := by
  cases h with
  | unknownAttribute hpos => rw [hc _ _ hpos]

theorem ExtAttrs.eq (hc : c.Strict) {a a' : ExtAttr} (h : c.ExtAttrs a a') : a = a' := by
  obtain ⟨⟨text, p⟩, args⟩ := a
  obtain ⟨⟨text', p'⟩, args'⟩ := a'
  obtain ⟨⟨rfl, hpos⟩, rfl⟩ := h
  rw [hc p p' hpos]

theorem eq_of_forall₂ {α : Type} {R : α → α → Prop} {as as' : List α} (h : List.Forall₂ R as as')
    (hR : ∀ a a', R a a' → a = a') : as = as' :=
  List.forall₂_eq_eq_eq ▸ h.imp hR

theorem Attributes.eq (hc : c.Strict) {a a' : Attribute} (h : c.Attributes a a') : a = a' := by
  obtain ⟨name, type, p, attrs, values⟩ := a
  obtain ⟨name', type', p', attrs', values'⟩ := a'
  obtain ⟨rfl, rfl, rfl, hpos, hattrs⟩ := h
  obtain rfl : p = p' := hc p p' hpos
  obtain rfl : attrs = attrs' := eq_of_forall₂ hattrs fun _ _ => ExtAttrs.eq hc
  rfl

theorem Arguments.eq (hc : c.Strict) {a a' : Argument} (h : c.Arguments a a') : a = a' := by
  obtain ⟨name, type, p, attrs, values⟩ := a
  obtain ⟨name', type', p', attrs', values'⟩ := a'
  obtain ⟨rfl, rfl, rfl, hpos, hattrs⟩ := h
  obtain rfl : p = p' := hc p p' hpos
  obtain rfl : attrs = attrs' := eq_of_forall₂ hattrs fun _ _ => ExtAttrs.eq hc
  rfl

theorem Operations.eq (hc : c.Strict) {o o' : Operation} (h : c.Operations o o') : o = o' := by
  obtain ⟨name, result, args, p, attrs, values⟩ := o
  obtain ⟨name', result', args', p', attrs', values'⟩ := o'
  obtain ⟨rfl, rfl, rfl, hpos, hattrs, hargs⟩ := h
  obtain rfl : p = p' := hc p p' hpos
  obtain rfl : attrs = attrs' := eq_of_forall₂ hattrs fun _ _ => ExtAttrs.eq hc
  obtain rfl : args = args' := eq_of_forall₂ hargs fun _ _ => Arguments.eq hc
  rfl

theorem Headers.eq (hc : c.Strict) {h h' : Header} (hh : c.Headers h h') : h = h' := by
  obtain ⟨name, p, isPartial, attrs, values⟩ := h
  obtain ⟨name', p', isPartial', attrs', values'⟩ := h'
  obtain ⟨rfl, rfl, rfl, hpos, hattrs⟩ := hh
  obtain rfl : p = p' := hc p p' hpos
  obtain rfl : attrs = attrs' := eq_of_forall₂ hattrs fun _ _ => ExtAttrs.eq hc
  rfl

theorem Declarations.eq (hc : c.Strict) {d d' : Declaration} (h : c.Declarations d d') :
    d = d' := by
  cases h with
  | enum hheader => rw [hheader.eq hc]
  | interface hheader hattributes hoperations =>
    rw [hheader.eq hc, eq_of_forall₂ hattributes fun _ _ => Attributes.eq hc,
      eq_of_forall₂ hoperations fun _ _ => Operations.eq hc]

theorem Outcomes.eq (hc : c.Strict) {α : Type} {R : α → α → Prop} {x y : Outcome Diagnostic α}
    (h : c.Outcomes R x y) (hR : ∀ a a', R a a' → a = a') : x = y := by
  obtain ⟨warnings, result⟩ := x
  obtain ⟨warnings', result'⟩ := y
  obtain ⟨hwarnings, hresult⟩ := h
  have hwarnings : warnings = warnings' := eq_of_forall₂ hwarnings fun _ _ => Warnings.eq hc
  rw [hwarnings]
  cases hresult with
  | ok hab => rw [hR _ _ hab]
  | error hd => rw [hd.eq hc]

def behindEnd (stream : TokenStream) (beyond : List Token) (eof' : Pos) : Comparison where
  SamePos p p' := p = p' ∧ p ∈ stream.toList.map (·.pos)
  eof := stream.endPos
  eof' := eof'
  beyond := stream.eof :: beyond
  ends := .inr ⟨stream.endPos, beyond, rfl, rfl, by simp [TokenStream.toList, TokenStream.eof]⟩

theorem tokens_behindEnd {stream : TokenStream} (beyond : List Token) (eof' : Pos)
    {ts : List Token} (h : ts ⊆ stream.tokens) :
    (behindEnd stream beyond eof').Tokens ts (ts ++ stream.eof :: beyond) := by
  induction ts with
  | nil => exact .nil
  | cons t ts ih =>
    rw [List.cons_subset] at h
    have hmem : t.pos ∈ stream.toList.map (·.pos) :=
      List.mem_map_of_mem (List.mem_append_left _ h.1)
    exact .cons ⟨rfl, hmem⟩ (ih h.2)

end Comparison

namespace Declaration

theorem outcomes_behindEnd (s : Schema) (stream : TokenStream) (beyond : List Token)
    (endPos : Pos) :
    (Comparison.behindEnd stream beyond endPos).Outcomes
      (List.Forall₂ (Comparison.behindEnd stream beyond endPos).Declarations) (ofTokens s stream)
      (ofTokens s ⟨stream.toList ++ beyond, endPos⟩) := by
  have hall : stream.toList ++ beyond = stream.tokens ++ stream.eof :: beyond := by
    rw [TokenStream.toList, List.append_assoc, List.singleton_append]
  rw [ofTokens, ofTokens, hall]
  exact readAll_alike (Comparison.tokens_behindEnd beyond endPos (List.Subset.refl _))

/--
Whatever the tokens of a file are, they are read up to the end of the file, and what stands behind
it makes no difference. Either the file is read, or there is an error at the position of a token.
-/
theorem ofTokens_confined (s : Schema) (stream : TokenStream) :
    (∀ beyond endPos, ofTokens s ⟨stream.toList ++ beyond, endPos⟩ = ofTokens s stream) ∧
      ((∃ ds, (ofTokens s stream).result = .ok ds) ∨
        ∃ d, (ofTokens s stream).result = .error d ∧ d.pos ∈ stream.toList.map (·.pos)) := by
  constructor
  . intro beyond endPos
    have hstrict : (Comparison.behindEnd stream beyond endPos).Strict := fun _ _ h => h.1
    refine ((outcomes_behindEnd s stream beyond endPos).eq hstrict fun ds ds' hds => ?_).symm
    exact Comparison.eq_of_forall₂ hds fun _ _ => Comparison.Declarations.eq hstrict
  . -- The file is compared with itself: a position that corresponds to any is that of a token.
    have hresult := (outcomes_behindEnd s stream [] stream.endPos).result
    generalize (ofTokens s stream).result = x at hresult ⊢
    generalize (ofTokens s _).result = y at hresult
    cases hresult with
    | ok _ => exact .inl ⟨_, rfl⟩
    | error hd => exact .inr ⟨_, rfl, hd.pos.2⟩

end Declaration

end IdlCompiler
