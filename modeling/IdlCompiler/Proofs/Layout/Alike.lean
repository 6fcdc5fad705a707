import IdlCompiler.Proofs.Reading.Readers

/-!
This module contains when token lists, and the results of reading them, are the same up to
positions. Readers do not look at positions: from the same lexemes they read the same up to
positions, with the same warnings, or fail with the same error.
-/

namespace IdlCompiler

def Diagnostic.withoutPos (d : Diagnostic) : Diagnostic where
  pos := .none
  cause := d.cause
  notes := d.notes.map fun n => ⟨.none, n.text⟩

def Warning.withoutPos : Warning → Warning
  | .unknownAttribute name _ => .unknownAttribute name .none
  | .unknownType name owner => .unknownType name owner

def SameLexemes (ts ts' : List Token) : Prop :=
  ts.map (·.lexeme) = ts'.map (·.lexeme)

inductive Except.Alike {α β : Type} (R : α → β → Prop) :
    Except Diagnostic α → Except Diagnostic β → Prop where
  | ok {a b} : R a b → Alike R (.ok a) (.ok b)
  | error {d d'} : d.withoutPos = d'.withoutPos → Alike R (.error d) (.error d')

structure Outcome.Alike {α β : Type} (R : α → β → Prop) (x : Outcome Diagnostic α)
    (y : Outcome Diagnostic β) : Prop where
  warnings : x.warnings.map (·.withoutPos) = y.warnings.map (·.withoutPos)
  result : Except.Alike R x.result y.result

namespace Comparison

def upToPos (eof eof' : Pos) : Comparison where
  SamePos _ _ := True
  eof := eof
  eof' := eof'
  beyond := []
  ends := .inl ⟨rfl, trivial⟩

theorem tokens_upToPos_iff {eof eof' : Pos} {ts ts' : List Token} :
    (upToPos eof eof').Tokens ts ts' ↔ SameLexemes ts ts' := by
  constructor
  . intro h
    induction h with
    | nil => rfl
    | cons _ _ ih => exact congrArg (_ :: ·) ih
  . intro h
    induction ts generalizing ts' with
    | nil =>
      have hnil : ts' = [] := List.map_eq_nil_iff.1 h.symm
      rw [hnil]
      exact .nil
    | cons t ts ih =>
      obtain ⟨l, p⟩ := t
      cases ts' with
      | nil => cases h
      | cons t' ts' =>
        obtain ⟨l', p'⟩ := t'
        obtain ⟨hlexeme, hrest⟩ := List.cons.inj h
        have hlexeme : l = l' := hlexeme
        subst hlexeme
        exact .cons trivial (ih hrest)

variable {c : Comparison}

theorem Diagnostics.withoutPos_eq {d d' : Diagnostic} (h : c.Diagnostics d d') :
    d.withoutPos = d'.withoutPos := by
  rw [Diagnostic.withoutPos, Diagnostic.withoutPos, h.cause_eq, h.notes_eq]

theorem Warnings.withoutPos_eq {w w' : Warning} (h : c.Warnings w w') :
    w.withoutPos = w'.withoutPos := by
  cases h
  rfl

theorem ExtAttrs.withoutPos_eq {a a' : ExtAttr} (h : c.ExtAttrs a a') :
    a.withoutPos = a'.withoutPos := by
  rw [ExtAttr.withoutPos, ExtAttr.withoutPos, h.name.text_eq, h.args_eq]

theorem map_withoutPos_eq {as as' : List ExtAttr} (h : List.Forall₂ c.ExtAttrs as as') :
    as.map (·.withoutPos) = as'.map (·.withoutPos) :=
  map_eq_map_of_forall₂ h fun _ _ => ExtAttrs.withoutPos_eq

theorem Attributes.withoutPos_eq {a a' : Attribute} (h : c.Attributes a a') :
    a.withoutPos = a'.withoutPos := by
  rw [Attribute.withoutPos, Attribute.withoutPos, h.name_eq, h.type_eq, h.values_eq,
    map_withoutPos_eq h.attrs]

theorem Arguments.withoutPos_eq {a a' : Argument} (h : c.Arguments a a') :
    a.withoutPos = a'.withoutPos := by
  rw [Argument.withoutPos, Argument.withoutPos, h.name_eq, h.type_eq, h.values_eq,
    map_withoutPos_eq h.attrs]

theorem Operations.withoutPos_eq {o o' : Operation} (h : c.Operations o o') :
    o.withoutPos = o'.withoutPos := by
  rw [Operation.withoutPos, Operation.withoutPos, h.name_eq, h.result_eq, h.values_eq,
    map_withoutPos_eq h.attrs, map_eq_map_of_forall₂ h.args fun _ _ => Arguments.withoutPos_eq]

theorem Headers.withoutPos_eq {h h' : Header} (hh : c.Headers h h') :
    h.withoutPos = h'.withoutPos := by
  rw [Header.withoutPos, Header.withoutPos, hh.name_eq, hh.isPartial_eq, hh.values_eq,
    map_withoutPos_eq hh.attrs]

theorem Declarations.withoutPos_eq {d d' : Declaration} (h : c.Declarations d d') :
    d.withoutPos = d'.withoutPos := by
  cases h with
  | enum hheader =>
    rw [Declaration.withoutPos, Declaration.withoutPos, hheader.withoutPos_eq]
  | interface hheader hattributes hoperations =>
    rw [Declaration.withoutPos, Declaration.withoutPos, hheader.withoutPos_eq,
      map_eq_map_of_forall₂ hattributes fun _ _ => Attributes.withoutPos_eq,
      map_eq_map_of_forall₂ hoperations fun _ _ => Operations.withoutPos_eq]

variable {α β : Type} {R S : α → β → Prop}

theorem Results.alike {x : Except Diagnostic α} {y : Except Diagnostic β} (h : c.Results R x y)
    (hRS : ∀ a b, R a b → S a b) : Except.Alike S x y := by
  cases h with
  | ok hR => exact .ok (hRS _ _ hR)
  | error hd => exact .error hd.withoutPos_eq

theorem Outcomes.alike {x : Outcome Diagnostic α} {y : Outcome Diagnostic β}
    (h : c.Outcomes R x y) (hRS : ∀ a b, R a b → S a b) : Outcome.Alike S x y :=
  ⟨map_eq_map_of_forall₂ h.warnings fun _ _ => Warnings.withoutPos_eq, h.result.alike hRS⟩

end Comparison

namespace Declaration

abbrev Same (d d' : Declaration) : Prop :=
  d.withoutPos = d'.withoutPos

theorem ofTokens_alike {s : Schema} {stream stream' : TokenStream}
    (h : SameLexemes stream.tokens stream'.tokens) :
    Outcome.Alike (fun ds ds' => ds.map (·.withoutPos) = ds'.map (·.withoutPos))
      (ofTokens s stream) (ofTokens s stream') := by
  have htokens : (Comparison.upToPos stream.endPos stream'.endPos).Tokens stream.tokens
      stream'.tokens := Comparison.tokens_upToPos_iff.2 h
  exact (readAll_alike htokens).alike fun ds ds' hds =>
    Comparison.map_eq_map_of_forall₂ hds fun _ _ => Comparison.Declarations.withoutPos_eq

end Declaration

end IdlCompiler
