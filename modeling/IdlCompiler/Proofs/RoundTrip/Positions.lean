import IdlCompiler.Declaration.Printer
import IdlCompiler.Proofs.Grammar.Meaning

/-!
This module contains declarations without their positions. Neither what extended attributes mean nor
how declarations are written depends on positions.
-/

namespace IdlCompiler

def Pos.none : Pos :=
  ⟨"", 0, 0⟩

def ExtAttr.withoutPos (a : ExtAttr) : ExtAttr :=
  ⟨⟨a.name.text, .none⟩, a.args⟩

def Attribute.withoutPos (a : Attribute) : Attribute :=
  { a with pos := .none, attrs := a.attrs.map (·.withoutPos) }

def Argument.withoutPos (a : Argument) : Argument :=
  { a with pos := .none, attrs := a.attrs.map (·.withoutPos) }

def Operation.withoutPos (o : Operation) : Operation :=
  { o with
    pos := .none
    attrs := o.attrs.map (·.withoutPos)
    args := o.args.map (·.withoutPos) }

def Header.withoutPos (h : Header) : Header :=
  { h with pos := .none, attrs := h.attrs.map (·.withoutPos) }

def Declaration.withoutPos : Declaration → Declaration
  | .enum e => .enum { e with header := e.header.withoutPos }
  | .interface i =>
    .interface { i with
      header := i.header.withoutPos
      attributes := i.attributes.map (·.withoutPos)
      operations := i.operations.map (·.withoutPos) }

namespace Schema

variable {s : Schema} {domain : Domain} {attrs attrs' : List ExtAttr}

theorem result_applyAll_withoutPos {rules : List Rule} {values values' : AttrValues} :
    (applyAll rules values (attrs.map (·.withoutPos))).result = .ok values' ↔
      (applyAll rules values attrs).result = .ok values' := by
  induction attrs generalizing values with
  | nil => rfl
  | cons a attrs ih =>
    rw [List.map_cons, applyAll, applyAll]
    have hname : a.withoutPos.name.text = a.name.text := rfl
    rw [hname]
    split
    . rw [Outcome.result_bind, Outcome.result_bind]
      exact ih
    . next r _ =>
      have hargs : a.withoutPos.args = a.args := rfl
      rw [Rule.apply, Rule.apply, hargs]
      cases r.check (a.args.map Lexeme.literal) with
      | error cause =>
        constructor
        . intro h
          cases h
        . intro h
          cases h
      | ok value => exact ih

theorem result_validate_congr (h : attrs.map (·.withoutPos) = attrs'.map (·.withoutPos))
    {values : AttrValues} :
    (s.validate domain attrs).result = .ok values ↔
      (s.validate domain attrs').result = .ok values := by
  unfold validate validateBy
  rw [← result_applyAll_withoutPos, h, result_applyAll_withoutPos]

theorem accepts_congr (h : attrs.map (·.withoutPos) = attrs'.map (·.withoutPos)) :
    s.Accepts domain attrs ↔ s.Accepts domain attrs' := by
  simp only [Accepts, result_validate_congr h]

theorem valuesOf_congr (h : attrs.map (·.withoutPos) = attrs'.map (·.withoutPos))
    (haccepts : s.Accepts domain attrs) : s.valuesOf domain attrs = s.valuesOf domain attrs' := by
  have hresult := result_validate_eq_ok_iff.2 ⟨haccepts, rfl⟩
  rw [result_validate_congr h] at hresult
  exact (result_validate_eq_ok_iff.1 hresult).2

end Schema

theorem ExtAttr.blockText_withoutPos (attrs : List ExtAttr) :
    blockText (attrs.map (·.withoutPos)) = blockText attrs := by
  have htexts : (attrs.map (·.withoutPos)).map text = attrs.map text := by
    rw [List.map_map]
    rfl
  cases attrs with
  | nil => rfl
  | cons a attrs =>
    -- The block is written from its texts only if there is one, so the goal is unfolded by hand.
    show "[" ++ ", ".intercalate (((a :: attrs).map (·.withoutPos)).map text) ++ "] " = _
    rw [htexts]
    rfl

theorem Attribute.line_withoutPos (a : Attribute) : a.withoutPos.line = a.line := by
  unfold line withoutPos
  rw [ExtAttr.blockText_withoutPos]

theorem Argument.text_withoutPos (a : Argument) : a.withoutPos.text = a.text := by
  unfold text withoutPos
  rw [ExtAttr.blockText_withoutPos]

theorem Operation.line_withoutPos (o : Operation) : o.withoutPos.line = o.line := by
  have hargs : (o.args.map (·.withoutPos)).map Argument.text = o.args.map Argument.text := by
    rw [List.map_map]
    exact List.map_congr_left fun a _ => a.text_withoutPos
  unfold line withoutPos
  rw [ExtAttr.blockText_withoutPos, hargs]

namespace Declaration

theorem lines_withoutPos (d : Declaration) : d.withoutPos.lines = d.lines := by
  cases d with
  | enum e =>
    simp only [lines, withoutPos, Enum.lines, Header.withoutPos, ExtAttr.blockText_withoutPos]
  | interface i =>
    have hattributes : (i.attributes.map (·.withoutPos)).map (fun a => "    " ++ a.line) =
        i.attributes.map (fun a => "    " ++ a.line) := by
      rw [List.map_map]
      exact List.map_congr_left fun a _ => by rw [Function.comp_apply, a.line_withoutPos]
    have hoperations : (i.operations.map (·.withoutPos)).map (fun o => "    " ++ o.line) =
        i.operations.map (fun o => "    " ++ o.line) := by
      rw [List.map_map]
      exact List.map_congr_left fun o _ => by rw [Function.comp_apply, o.line_withoutPos]
    simp only [lines, withoutPos, Interface.lines, Interface.firstLine, Header.withoutPos,
      ExtAttr.blockText_withoutPos, hattributes, hoperations]

theorem textAll_congr {ds ds' : List Declaration}
    (h : ds.map (·.withoutPos) = ds'.map (·.withoutPos)) : textAll ds = textAll ds' := by
  have htext (d : Declaration) : d.withoutPos.text = d.text := by
    unfold text
    rw [lines_withoutPos]
  have hmap (ds : List Declaration) : (ds.map (·.withoutPos)).map text = ds.map text := by
    rw [List.map_map]
    exact List.map_congr_left fun d _ => htext d
  unfold textAll
  rw [← hmap ds, h, hmap]

end Declaration

end IdlCompiler
