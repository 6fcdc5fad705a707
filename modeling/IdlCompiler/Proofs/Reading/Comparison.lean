import IdlCompiler.Proofs.RoundTrip.Positions
import Mathlib.Data.List.Forall2

/-!
This module contains the comparison of two readings. Their tokens say the same in the same order, up
to positions that correspond, and the second list may go on behind the end of the first one. The
steps that readers are made of do the same on both lists.
-/

namespace IdlCompiler

/--
How two readings are compared: which positions correspond, where the ends of the files are, and
which tokens are left of the second list where there are none left of the first one.
-/
structure Comparison where
  SamePos : Pos → Pos → Prop
  eof : Pos
  eof' : Pos
  beyond : List Token
  /-- The second list ends too, or it goes on with a token for the end of the file. -/
  ends : beyond = [] ∧ SamePos eof eof' ∨
    ∃ p rest, beyond = ⟨.eof, p⟩ :: rest ∧ SamePos eof p

namespace Comparison

inductive Tokens (c : Comparison) : List Token → List Token → Prop where
  | nil : Tokens c [] c.beyond
  | cons {l p p' ts ts'} :
    c.SamePos p p' → Tokens c ts ts' → Tokens c (⟨l, p⟩ :: ts) (⟨l, p'⟩ :: ts')

structure Diagnostics (c : Comparison) (d d' : Diagnostic) : Prop where
  pos : c.SamePos d.pos d'.pos
  cause_eq : d.cause = d'.cause
  notes_eq : d.notes = d'.notes

inductive Warnings (c : Comparison) : Warning → Warning → Prop where
  | unknownAttribute {name p p'} :
    c.SamePos p p' → Warnings c (.unknownAttribute name p) (.unknownAttribute name p')

inductive Results (c : Comparison) {α β : Type} (R : α → β → Prop) :
    Except Diagnostic α → Except Diagnostic β → Prop where
  | ok {a b} : R a b → Results c R (.ok a) (.ok b)
  | error {d d'} : c.Diagnostics d d' → Results c R (.error d) (.error d')

structure Outcomes (c : Comparison) {α β : Type} (R : α → β → Prop) (x : Outcome Diagnostic α)
    (y : Outcome Diagnostic β) : Prop where
  warnings : List.Forall₂ c.Warnings x.warnings y.warnings
  result : c.Results R x.result y.result

def Read (c : Comparison) {α β : Type} (R : α → β → Prop) {P P' : List Token → Prop}
    (r : α × Subtype P) (r' : β × Subtype P') : Prop :=
  R r.1 r'.1 ∧ c.Tokens r.2.val r'.2.val

section Values

variable (c : Comparison)

structure Names (n n' : Name) : Prop where
  text_eq : n.text = n'.text
  pos : c.SamePos n.pos n'.pos

structure ExtAttrs (a a' : ExtAttr) : Prop where
  name : c.Names a.name a'.name
  args_eq : a.args = a'.args

structure Attributes (a a' : Attribute) : Prop where
  name_eq : a.name = a'.name
  type_eq : a.type = a'.type
  values_eq : a.values = a'.values
  pos : c.SamePos a.pos a'.pos
  attrs : List.Forall₂ c.ExtAttrs a.attrs a'.attrs

structure Arguments (a a' : Argument) : Prop where
  name_eq : a.name = a'.name
  type_eq : a.type = a'.type
  values_eq : a.values = a'.values
  pos : c.SamePos a.pos a'.pos
  attrs : List.Forall₂ c.ExtAttrs a.attrs a'.attrs

structure Operations (o o' : Operation) : Prop where
  name_eq : o.name = o'.name
  result_eq : o.result = o'.result
  values_eq : o.values = o'.values
  pos : c.SamePos o.pos o'.pos
  attrs : List.Forall₂ c.ExtAttrs o.attrs o'.attrs
  args : List.Forall₂ c.Arguments o.args o'.args

structure Headers (h h' : Header) : Prop where
  name_eq : h.name = h'.name
  isPartial_eq : h.isPartial = h'.isPartial
  values_eq : h.values = h'.values
  pos : c.SamePos h.pos h'.pos
  attrs : List.Forall₂ c.ExtAttrs h.attrs h'.attrs

inductive Declarations : Declaration → Declaration → Prop where
  | enum {header header' items} :
    c.Headers header header' → Declarations (.enum ⟨header, items⟩) (.enum ⟨header', items⟩)
  | interface {header header' base attributes attributes' operations operations'} :
    c.Headers header header' → List.Forall₂ c.Attributes attributes attributes' →
      List.Forall₂ c.Operations operations operations' →
      Declarations (.interface ⟨header, base, attributes, operations⟩)
        (.interface ⟨header', base, attributes', operations'⟩)

end Values

variable {c : Comparison} {α α' β β' : Type} {R : α → α' → Prop} {S : β → β' → Prop}

theorem Results.bind {x : Except Diagnostic α} {x' : Except Diagnostic α'}
    {f : α → Except Diagnostic β} {f' : α' → Except Diagnostic β'} (h : c.Results R x x')
    (hf : ∀ a a', R a a' → c.Results S (f a) (f' a')) : c.Results S (x >>= f) (x' >>= f') := by
  cases h with
  | ok hR => exact hf _ _ hR
  | error hd => exact .error hd

theorem Results.lift {x : Except Diagnostic α} {x' : Except Diagnostic α'} (h : c.Results R x x') :
    c.Outcomes R (liftM x : Outcome Diagnostic α) (liftM x') :=
  ⟨.nil, h⟩

namespace Outcomes

theorem ofPure {a : α} {a' : α'} (h : R a a') :
    c.Outcomes R (pure a : Outcome Diagnostic α) (pure a') :=
  ⟨.nil, .ok h⟩

theorem ofFail {d d' : Diagnostic} (h : c.Diagnostics d d') : c.Outcomes R (.fail d) (.fail d') :=
  ⟨.nil, .error h⟩

theorem bind {x : Outcome Diagnostic α} {x' : Outcome Diagnostic α'}
    {f : α → Outcome Diagnostic β} {f' : α' → Outcome Diagnostic β'} (h : c.Outcomes R x x')
    (hf : ∀ a a', R a a' → c.Outcomes S (f a) (f' a')) : c.Outcomes S (x >>= f) (x' >>= f') := by
  obtain ⟨warnings, result⟩ := x
  obtain ⟨warnings', result'⟩ := x'
  obtain ⟨hwarnings, hresult⟩ := h
  cases hresult with
  | @ok a a' hR =>
    obtain ⟨hnext, hresult⟩ := hf a a' hR
    exact ⟨List.rel_append hwarnings hnext, hresult⟩
  | error hd => exact ⟨hwarnings, .error hd⟩

end Outcomes

theorem map_eq_map_of_forall₂ {f : α → β} {g : α' → β} {as : List α} {as' : List α'}
    (h : List.Forall₂ R as as') (hR : ∀ a a', R a a' → f a = g a') : as.map f = as'.map g := by
  induction h with
  | nil => rfl
  | cons hhead _ ih => rw [List.map_cons, List.map_cons, hR _ _ hhead, ih]

theorem of_beyond (P : List Token → Prop) (nil : P [])
    (eof : ∀ p rest, P (⟨.eof, p⟩ :: rest)) : P c.beyond := by
  rcases c.ends with ⟨hbeyond, -⟩ | ⟨p, rest, hbeyond, -⟩
  . rw [hbeyond]
    exact nil
  . rw [hbeyond]
    exact eof p rest

namespace Tokens

open Cursor

variable {ts ts' : List Token}

theorem isAtEnd_eq (h : c.Tokens ts ts') : isAtEnd ts = isAtEnd ts' := by
  cases h with
  | nil => exact of_beyond (isAtEnd [] = isAtEnd ·) rfl fun _ _ => rfl
  | cons _ _ => rfl

theorem isAtOp_eq (d : Char) (h : c.Tokens ts ts') : isAtOp d ts = isAtOp d ts' := by
  cases h with
  | nil => exact of_beyond (isAtOp d [] = isAtOp d ·) rfl fun _ _ => rfl
  | cons _ _ => rfl

theorem isAtIdent_eq (h : c.Tokens ts ts') : isAtIdent ts = isAtIdent ts' := by
  cases h with
  | nil => exact of_beyond (isAtIdent [] = isAtIdent ·) rfl fun _ _ => rfl
  | @cons l _ _ _ _ _ _ => cases l <;> rfl

theorem unexpected (wanted : String) (h : c.Tokens ts ts') :
    c.Diagnostics (Cursor.unexpected c.eof wanted ts) (Cursor.unexpected c.eof' wanted ts') := by
  cases h with
  | nil =>
    rcases c.ends with ⟨hbeyond, hpos⟩ | ⟨p, rest, hbeyond, hpos⟩
    all_goals
      rw [hbeyond]
      exact ⟨hpos, rfl, rfl⟩
  | cons hpos _ => exact ⟨hpos, rfl, rfl⟩

theorem takeOp? (d : Char) (h : c.Tokens ts ts') :
    Option.Rel (fun r r' => c.Tokens r.val r'.val) (Cursor.takeOp? d ts)
      (Cursor.takeOp? d ts') := by
  cases h with
  | nil =>
    exact of_beyond (fun ts' => Option.Rel (fun r r' => c.Tokens r.val r'.val)
      (Cursor.takeOp? d []) (Cursor.takeOp? d ts')) .none fun _ _ => .none
  | @cons l p p' ts ts' _ hrest =>
    cases l with
    | op d' =>
      unfold Cursor.takeOp?
      by_cases hd : d' = d
      . simp only [hd, ↓reduceIte]
        exact .some hrest
      . simp only [hd, ↓reduceIte]
        exact .none
    | _ => exact .none

theorem takeWord? (word : String) (h : c.Tokens ts ts') :
    Option.Rel (fun r r' => c.Tokens r.val r'.val) (Cursor.takeWord? word ts)
      (Cursor.takeWord? word ts') := by
  cases h with
  | nil =>
    exact of_beyond (fun ts' => Option.Rel (fun r r' => c.Tokens r.val r'.val)
      (Cursor.takeWord? word []) (Cursor.takeWord? word ts')) .none fun _ _ => .none
  | @cons l p p' ts ts' _ hrest =>
    cases l with
    | ident name =>
      unfold Cursor.takeWord?
      by_cases hname : name = word
      . simp only [hname, ↓reduceIte]
        exact .some hrest
      . simp only [hname, ↓reduceIte]
        exact .none
    | _ => exact .none

theorem takeOp (d : Char) (h : c.Tokens ts ts') :
    c.Results (fun r r' => c.Tokens r.val r'.val) (Cursor.takeOp c.eof d ts)
      (Cursor.takeOp c.eof' d ts') := by
  have htake := h.takeOp? d
  unfold Cursor.takeOp
  generalize Cursor.takeOp? d ts = x at htake ⊢
  generalize Cursor.takeOp? d ts' = x' at htake ⊢
  cases htake with
  | some hrest => exact .ok hrest
  | none => exact .error (h.unexpected _)

theorem takeIdent (h : c.Tokens ts ts') :
    c.Results (c.Read c.Names) (Cursor.takeIdent c.eof ts) (Cursor.takeIdent c.eof' ts') := by
  have herror := h.unexpected (Lexeme.ident "").kind
  cases h with
  | nil =>
    revert herror
    exact of_beyond (fun ts' => c.Diagnostics _ (Cursor.unexpected c.eof' _ ts') →
      c.Results (c.Read c.Names) _ (Cursor.takeIdent c.eof' ts')) .error fun _ _ => .error
  | @cons l p p' ts ts' hpos hrest =>
    cases l with
    | ident name => exact .ok ⟨⟨rfl, hpos⟩, hrest⟩
    | _ => exact .error herror

theorem takeLiteral (h : c.Tokens ts ts') :
    c.Results (c.Read Eq) (Cursor.takeLiteral c.eof ts) (Cursor.takeLiteral c.eof' ts') := by
  have herror := h.unexpected (Lexeme.string "").kind
  cases h with
  | nil =>
    revert herror
    exact of_beyond (fun ts' => c.Diagnostics _ (Cursor.unexpected c.eof' _ ts') →
      c.Results (c.Read Eq) _ (Cursor.takeLiteral c.eof' ts')) .error fun _ _ => .error
  | @cons l p p' ts ts' hpos hrest =>
    cases l with
    | op _ => exact .error herror
    | eof => exact .error herror
    | _ => exact .ok ⟨rfl, hrest⟩

theorem takeSeparator (sep close : Char) (h : c.Tokens ts ts') :
    c.Results (c.Read Eq) (Cursor.takeSeparator c.eof sep close ts)
      (Cursor.takeSeparator c.eof' sep close ts') := by
  have hsep := h.takeOp? sep
  have hclose := h.takeOp? close
  unfold Cursor.takeSeparator
  generalize Cursor.takeOp? sep ts = x at hsep ⊢
  generalize Cursor.takeOp? sep ts' = x' at hsep ⊢
  generalize Cursor.takeOp? close ts = y at hclose ⊢
  generalize Cursor.takeOp? close ts' = y' at hclose ⊢
  cases hsep with
  | some hrest => exact .ok ⟨rfl, hrest⟩
  | none =>
    cases hclose with
    | some hrest => exact .ok ⟨rfl, hrest⟩
    | none => exact .error (h.unexpected _)

end Tokens

end Comparison

end IdlCompiler
