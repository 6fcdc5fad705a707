import IdlCompiler.Proofs.Grammar.Derivation

/-!
This module contains which lexemes the parts of source files are made of. Only blocks of extended
attributes have square brackets in them, and only the end of a file its own lexeme.
-/

namespace IdlCompiler.Grammar

variable {p : Lexeme → Prop} {ts ts' : List Token}

def Only (p : Lexeme → Prop) (ts : List Token) : Prop :=
  ∀ t ∈ ts, p t.lexeme

@[simp]
theorem only_nil : Only p [] := by
  simp [Only]

@[simp]
theorem only_cons {t : Token} : Only p (t :: ts) ↔ p t.lexeme ∧ Only p ts := by
  simp [Only]

@[simp]
theorem only_append : Only p (ts ++ ts') ↔ Only p ts ∧ Only p ts' := by
  unfold Only
  exact List.forall_mem_append

/--
`p` holds for the lexemes of which everything between blocks is made.
-/
structure Inner (p : Lexeme → Prop) : Prop where
  literal {lexeme : Lexeme} : IsLiteral lexeme → p lexeme
  op {c : Char} : c ≠ '[' → p (.op c)

theorem Inner.ident (h : Inner p) (text : String) : p (.ident text) :=
  h.literal trivial

theorem Inner.string (h : Inner p) (value : String) : p (.string value) :=
  h.literal trivial

theorem inner_ne_eof : Inner (· ≠ .eof) where
  literal hliteral := by
    rintro rfl
    exact hliteral
  op _ := nofun

theorem inner_ne_opening : Inner (· ≠ .op '[') where
  literal hliteral := by
    rintro rfl
    exact hliteral
  op hc heq := hc (Lexeme.op.inj heq)

theorem SepBy.only {α : Type} {Derives : List Token → α → Prop} {as : List α}
    (hcomma : p (.op ',')) (hderives : ∀ ts a, Derives ts a → Only p ts) (h : SepBy Derives ts as) :
    Only p ts := by
  induction h with
  | last h => exact hderives _ _ h
  | more h _ ih => simp [hderives _ _ h, hcomma, ih]

variable (hp : Inner p)

include hp

mutual

theorem TypeDerives.only {ts : List Token} {t : IdlType} : TypeDerives ts t → Only p ts
  | .simple _ => by simp [hp.ident]
  | .longLong => by simp [hp.ident]
  | .optional h _ => by simp [hp.op, h.only]
  | .sequence h => by simp [hp.ident, hp.op, h.only]
  | .union h => by simp [hp.ident, hp.op, h.only]
  | .record h h' => by simp [hp.ident, hp.op, h.only, h'.only]
  | .generic _ _ h => by simp [hp.ident, hp.op, h.only]

theorem TypesDerive.only {ts : List Token} {types : List IdlType} :
    TypesDerive ts types → Only p ts
  | .last h => h.only
  | .more h h' => by simp [hp.op, h.only, h'.only]

end

theorem LiteralDerives.only {lexeme : Lexeme} (h : LiteralDerives ts lexeme) : Only p ts := by
  rcases h with ⟨hliteral⟩
  simp [hp.literal hliteral]

theorem AttrDerives.only {attr : ExtAttr} (h : AttrDerives ts attr) : Only p ts := by
  cases h with
  | bare => simp [Name.token, hp.ident]
  | equals h => simp [Name.token, hp.ident, hp.op, h.only hp]
  | parens h =>
    have hargs := h.only (hp.op (by decide)) fun _ _ => LiteralDerives.only hp
    simp [Name.token, hp.ident, hp.op, hargs]

theorem TypedNameDerives.only {type : IdlType} {name : Name} (h : TypedNameDerives ts type name) :
    Only p ts := by
  rcases h with ⟨h, -⟩
  simp [Name.token, hp.ident, h.only hp]

theorem ItemsDerive.only {items : List String} (h : ItemsDerive ts items) : Only p ts := by
  induction h with
  | nil => simp
  | last => simp [hp.string]
  | more _ ih => simp [hp.string, hp.op, ih]

theorem PartialDerives.only {isPartial : Bool} (h : PartialDerives ts isPartial) : Only p ts := by
  cases h <;> simp [hp.ident]

theorem BaseDerives.only {base : Option String} (h : BaseDerives ts base) : Only p ts := by
  cases h <;> simp [hp.ident, hp.op]

end IdlCompiler.Grammar
