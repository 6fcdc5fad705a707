import IdlCompiler.Proofs.Reading.Comparison

/-!
This module contains what readers make of two token lists that are compared: every reader reads the
same from both of them, with the same warnings, or fails with the same error. What it reads has
corresponding positions in it.
-/

namespace IdlCompiler

open Cursor

variable {c : Comparison} {ts ts' : List Token}

namespace IdlType

mutual

theorem read_alike {ts ts' : List Token} (h : c.Tokens ts ts') :
    c.Results (c.Read Eq) (read c.eof ts) (read c.eof' ts') := by
  rw [read, read]
  refine (readPlain_alike h).bind ?_
  rintro ⟨t, rest⟩ ⟨t', rest'⟩ ⟨rfl, hsame⟩
  have hmark := hsame.takeOp? '?'
  dsimp only at hmark ⊢
  generalize takeOp? '?' rest.val = x at hmark ⊢
  generalize takeOp? '?' rest'.val = x' at hmark ⊢
  cases hmark with
  | some hrest => exact .ok ⟨rfl, hrest⟩
  | none => exact .ok ⟨rfl, hsame⟩
termination_by (ts.length, 1)

theorem readPlain_alike {ts ts' : List Token} (h : c.Tokens ts ts') :
    c.Results (c.Read Eq) (readPlain c.eof ts) (readPlain c.eof' ts') := by
  rw [readPlain, readPlain]
  refine h.takeIdent.bind ?_
  rintro ⟨⟨word, p⟩, rest, hrest⟩ ⟨⟨word', p'⟩, rest', hrest'⟩ ⟨⟨rfl, -⟩, hsame⟩
  dsimp only at hsame ⊢
  split
  . have hlong := hsame.takeWord? "long"
    generalize takeWord? "long" rest = x at hlong ⊢
    generalize takeWord? "long" rest' = x' at hlong ⊢
    cases hlong with
    | some hrest => exact .ok ⟨rfl, hrest⟩
    | none => exact .ok ⟨rfl, hsame⟩
  split
  . refine (hsame.takeOp '<').bind ?_
    rintro ⟨rest₁, h₁⟩ ⟨rest₁', h₁'⟩ hsame₁
    refine (read_alike hsame₁).bind ?_
    rintro ⟨elem, rest₂, h₂⟩ ⟨elem', rest₂', h₂'⟩ ⟨rfl, hsame₂⟩
    refine (hsame₂.takeOp '>').bind ?_
    rintro ⟨rest₃, h₃⟩ ⟨rest₃', h₃'⟩ hsame₃
    exact .ok ⟨rfl, hsame₃⟩
  split
  . refine (hsame.takeOp '<').bind ?_
    rintro ⟨rest₁, h₁⟩ ⟨rest₁', h₁'⟩ hsame₁
    refine (readArgs_alike hsame₁).bind ?_
    rintro ⟨members, rest₂, h₂⟩ ⟨members', rest₂', h₂'⟩ ⟨rfl, hsame₂⟩
    exact .ok ⟨rfl, hsame₂⟩
  split
  . refine (hsame.takeOp '<').bind ?_
    rintro ⟨rest₁, h₁⟩ ⟨rest₁', h₁'⟩ hsame₁
    dsimp only at hsame₁
    refine (read_alike hsame₁).bind ?_
    rintro ⟨key, rest₂, h₂⟩ ⟨key', rest₂', h₂'⟩ ⟨rfl, hsame₂⟩
    dsimp only at hsame₂
    refine (hsame₂.takeOp ',').bind ?_
    rintro ⟨rest₃, h₃⟩ ⟨rest₃', h₃'⟩ hsame₃
    refine (read_alike hsame₃).bind ?_
    rintro ⟨value, rest₄, h₄⟩ ⟨value', rest₄', h₄'⟩ ⟨rfl, hsame₄⟩
    refine (hsame₄.takeOp '>').bind ?_
    rintro ⟨rest₅, h₅⟩ ⟨rest₅', h₅'⟩ hsame₅
    exact .ok ⟨rfl, hsame₅⟩
  . have hopen := hsame.takeOp? '<'
    generalize takeOp? '<' rest = x at hopen ⊢
    generalize takeOp? '<' rest' = x' at hopen ⊢
    cases hopen with
    | none => exact .ok ⟨rfl, hsame⟩
    | @some rest₁ rest₁' hsame₁ =>
      rcases rest₁ with ⟨rest₁, h₁⟩
      refine (readArgs_alike hsame₁).bind ?_
      rintro ⟨args, rest₂, h₂⟩ ⟨args', rest₂', h₂'⟩ ⟨rfl, hsame₂⟩
      exact .ok ⟨rfl, hsame₂⟩
termination_by (ts.length, 0)

theorem readArgs_alike {ts ts' : List Token} (h : c.Tokens ts ts') :
    c.Results (c.Read Eq) (readArgs c.eof ts) (readArgs c.eof' ts') := by
  rw [readArgs, readArgs]
  refine (read_alike h).bind ?_
  rintro ⟨t, rest₁, h₁⟩ ⟨t', rest₁', h₁'⟩ ⟨rfl, hsame₁⟩
  dsimp only at hsame₁
  refine (hsame₁.takeSeparator ',' '>').bind ?_
  rintro ⟨more, rest₂, h₂⟩ ⟨more', rest₂', h₂'⟩ ⟨rfl, hsame₂⟩
  dsimp only
  split
  . refine (readArgs_alike hsame₂).bind ?_
    rintro ⟨args, rest₃, h₃⟩ ⟨args', rest₃', h₃'⟩ ⟨rfl, hsame₃⟩
    exact .ok ⟨rfl, hsame₃⟩
  . exact .ok ⟨rfl, hsame₂⟩
termination_by (ts.length, 2)

end

end IdlType

namespace ExtAttr

theorem readArgs_alike {ts ts' : List Token} (h : c.Tokens ts ts') :
    c.Results (c.Read Eq) (readArgs c.eof ts) (readArgs c.eof' ts') := by
  rw [readArgs, readArgs]
  refine h.takeLiteral.bind ?_
  rintro ⟨arg, rest₁, h₁⟩ ⟨arg', rest₁', h₁'⟩ ⟨rfl, hsame₁⟩
  dsimp only at hsame₁
  refine (hsame₁.takeSeparator ',' ')').bind ?_
  rintro ⟨more, rest₂, h₂⟩ ⟨more', rest₂', h₂'⟩ ⟨rfl, hsame₂⟩
  dsimp only
  split
  . refine (readArgs_alike hsame₂).bind ?_
    rintro ⟨args, rest₃, h₃⟩ ⟨args', rest₃', h₃'⟩ ⟨rfl, hsame₃⟩
    exact .ok ⟨rfl, hsame₃⟩
  . exact .ok ⟨rfl, hsame₂⟩
termination_by ts.length

theorem read_alike (h : c.Tokens ts ts') :
    c.Results (c.Read c.ExtAttrs) (read c.eof ts) (read c.eof' ts') := by
  unfold read
  refine h.takeIdent.bind ?_
  rintro ⟨name, rest⟩ ⟨name', rest'⟩ ⟨hname, hsame⟩
  have hequals := hsame.takeOp? '='
  have hopen := hsame.takeOp? '('
  dsimp only at hequals hopen ⊢
  generalize takeOp? '=' rest.val = x at hequals ⊢
  generalize takeOp? '=' rest'.val = x' at hequals ⊢
  generalize takeOp? '(' rest.val = y at hopen ⊢
  generalize takeOp? '(' rest'.val = y' at hopen ⊢
  cases hequals with
  | some hsame₁ =>
    refine hsame₁.takeLiteral.bind ?_
    rintro ⟨arg, rest₂⟩ ⟨arg', rest₂'⟩ ⟨rfl, hsame₂⟩
    exact .ok ⟨⟨hname, rfl⟩, hsame₂⟩
  | none =>
    cases hopen with
    | some hsame₁ =>
      refine (readArgs_alike hsame₁).bind ?_
      rintro ⟨args, rest₂⟩ ⟨args', rest₂'⟩ ⟨rfl, hsame₂⟩
      exact .ok ⟨⟨hname, rfl⟩, hsame₂⟩
    | none => exact .ok ⟨⟨hname, rfl⟩, hsame⟩

theorem readAll_alike {ts ts' : List Token} (h : c.Tokens ts ts') :
    c.Results (c.Read (List.Forall₂ c.ExtAttrs)) (readAll c.eof ts) (readAll c.eof' ts') := by
  rw [readAll, readAll]
  refine (read_alike h).bind ?_
  rintro ⟨attr, rest₁, h₁⟩ ⟨attr', rest₁', h₁'⟩ ⟨hattr, hsame₁⟩
  dsimp only at hsame₁
  refine (hsame₁.takeSeparator ',' ']').bind ?_
  rintro ⟨more, rest₂, h₂⟩ ⟨more', rest₂', h₂'⟩ ⟨rfl, hsame₂⟩
  dsimp only
  split
  . refine (readAll_alike hsame₂).bind ?_
    rintro ⟨attrs, rest₃, h₃⟩ ⟨attrs', rest₃', h₃'⟩ ⟨hattrs, hsame₃⟩
    exact .ok ⟨.cons hattr hattrs, hsame₃⟩
  . exact .ok ⟨.cons hattr .nil, hsame₂⟩
termination_by ts.length

theorem readBlock_alike (h : c.Tokens ts ts') :
    c.Results (c.Read (List.Forall₂ c.ExtAttrs)) (readBlock c.eof ts) (readBlock c.eof' ts') := by
  have hopen := h.takeOp? '['
  unfold readBlock
  generalize takeOp? '[' ts = x at hopen ⊢
  generalize takeOp? '[' ts' = x' at hopen ⊢
  cases hopen with
  | some hsame₁ =>
    refine (readAll_alike hsame₁).bind ?_
    rintro ⟨attrs, rest₁⟩ ⟨attrs', rest₁'⟩ ⟨hattrs, hsame₂⟩
    exact .ok ⟨hattrs, hsame₂⟩
  | none => exact .ok ⟨.nil, h⟩

end ExtAttr

namespace Schema

variable {attrs attrs' : List ExtAttr}

theorem applyAll_alike {rules : List Rule} {values : AttrValues}
    (h : List.Forall₂ c.ExtAttrs attrs attrs') :
    c.Outcomes Eq (applyAll rules values attrs) (applyAll rules values attrs') := by
  induction h generalizing values with
  | nil => exact .ofPure rfl
  | @cons a a' _ _ ha _ ih =>
    rw [applyAll, applyAll, ha.name.text_eq]
    split
    . have hwarn : c.Outcomes Eq (.warn (.unknownAttribute a'.name.text a.name.pos))
          (.warn (.unknownAttribute a'.name.text a'.name.pos)) :=
        ⟨.cons (.unknownAttribute ha.name.pos) .nil, .ok rfl⟩
      exact hwarn.bind fun _ _ _ => ih
    . next r _ =>
      rw [Rule.apply, Rule.apply, ha.args_eq]
      cases r.check (a'.args.map Lexeme.literal) with
      | error cause => exact .ofFail ⟨ha.name.pos, rfl, rfl⟩
      | ok value => exact ih

theorem validate_alike (s : Schema) (domain : Domain) (h : List.Forall₂ c.ExtAttrs attrs attrs') :
    c.Outcomes Eq (s.validate domain attrs) (s.validate domain attrs') :=
  applyAll_alike h

end Schema

namespace Declaration

variable {s : Schema} {attrs attrs' : List ExtAttr}

theorem readComma_alike (h : c.Tokens ts ts') :
    c.Results (fun r r' => c.Tokens r.val r'.val) (readComma c.eof ts) (readComma c.eof' ts') := by
  have hcomma := h.takeOp? ','
  have hclose := h.takeOp? '}'
  unfold readComma
  generalize takeOp? ',' ts = x at hcomma ⊢
  generalize takeOp? ',' ts' = x' at hcomma ⊢
  generalize takeOp? '}' ts = y at hclose ⊢
  generalize takeOp? '}' ts' = y' at hclose ⊢
  cases hcomma with
  | some hsame => exact .ok hsame
  | none =>
    cases hclose with
    | some _ => exact .ok h
    | none => exact .error (h.unexpected _)

theorem readItems_cons_op {eof p : Pos} {d : Char} (hd : d ≠ '}') :
    readItems eof (⟨.op d, p⟩ :: ts) =
      .error (unexpected eof (Lexeme.string "").kind (⟨.op d, p⟩ :: ts)) := by
  rw [readItems]
  . rintro q rest heq
    cases heq
    exact hd rfl
  . rintro value q rest heq
    cases heq

theorem readItems_alike {ts ts' : List Token} (h : c.Tokens ts ts') :
    c.Results (c.Read Eq) (readItems c.eof ts) (readItems c.eof' ts') := by
  have herror := h.unexpected (Lexeme.string "").kind
  cases h with
  | nil =>
    rw [readItems.eq_def, readItems.eq_def c.eof']
    rcases c.ends with ⟨hbeyond, -⟩ | ⟨p, rest, hbeyond, -⟩
    all_goals
      rw [hbeyond] at herror ⊢
      exact .error herror
  | @cons l p p' rest rest' hpos hsame =>
    cases l with
    | string value =>
      rw [readItems, readItems]
      refine (readComma_alike hsame).bind ?_
      rintro ⟨rest₁, h₁⟩ ⟨rest₁', h₁'⟩ hsame₁
      refine (readItems_alike hsame₁).bind ?_
      rintro ⟨items, rest₂, h₂⟩ ⟨items', rest₂', h₂'⟩ ⟨rfl, hsame₂⟩
      exact .ok ⟨rfl, hsame₂⟩
    | op d =>
      by_cases hd : d = '}'
      . subst hd
        rw [readItems, readItems]
        exact .ok ⟨rfl, .cons hpos hsame⟩
      . rw [readItems_cons_op hd, readItems_cons_op hd]
        exact .error herror
    | _ =>
      rw [readItems.eq_def, readItems.eq_def c.eof']
      exact .error herror
termination_by ts.length
decreasing_by
  subst_vars
  rw [List.length_cons]
  omega

theorem readAttribute_alike (hattrs : List.Forall₂ c.ExtAttrs attrs attrs') (h : c.Tokens ts ts') :
    c.Outcomes (c.Read c.Attributes)
      (readAttribute s c.eof attrs ts) (readAttribute s c.eof' attrs' ts') := by
  unfold readAttribute
  refine (IdlType.read_alike h).lift.bind ?_
  rintro ⟨type, rest₁⟩ ⟨type', rest₁'⟩ ⟨rfl, hsame₁⟩
  refine hsame₁.takeIdent.lift.bind ?_
  rintro ⟨⟨name, p⟩, rest₂⟩ ⟨⟨name', p'⟩, rest₂'⟩ ⟨⟨rfl, hpos⟩, hsame₂⟩
  refine (hsame₂.takeOp ';').lift.bind ?_
  rintro rest₃ rest₃' hsame₃
  refine (s.validate_alike .attribute hattrs).bind ?_
  rintro values values' rfl
  exact .ofPure ⟨⟨rfl, rfl, rfl, hpos, hattrs⟩, hsame₃⟩

theorem readArguments_alike {ts ts' : List Token} (h : c.Tokens ts ts') :
    c.Outcomes (c.Read (List.Forall₂ c.Arguments))
      (readArguments s c.eof ts) (readArguments s c.eof' ts') := by
  rw [readArguments, readArguments]
  refine (ExtAttr.readBlock_alike h).lift.bind ?_
  rintro ⟨attrs, rest₁, h₁⟩ ⟨attrs', rest₁', h₁'⟩ ⟨hattrs, hsame₁⟩
  dsimp only at hattrs hsame₁ ⊢
  rw [hsame₁.isAtOp_eq ')', hsame₁.isAtIdent_eq]
  split
  . exact .ofPure ⟨.nil, hsame₁⟩
  split
  . refine (IdlType.read_alike hsame₁).lift.bind ?_
    rintro ⟨type, rest₂, h₂⟩ ⟨type', rest₂', h₂'⟩ ⟨rfl, hsame₂⟩
    dsimp only at hsame₂
    refine hsame₂.takeIdent.lift.bind ?_
    rintro ⟨⟨name, p⟩, rest₃, h₃⟩ ⟨⟨name', p'⟩, rest₃', h₃'⟩ ⟨⟨rfl, hpos⟩, hsame₃⟩
    refine (s.validate_alike .argument hattrs).bind ?_
    rintro values values' rfl
    dsimp only at hsame₃ ⊢
    have harg (values : AttrValues) : c.Arguments ⟨name, type, p, attrs, values⟩
        ⟨name, type, p', attrs', values⟩ := ⟨rfl, rfl, rfl, hpos, hattrs⟩
    rw [hsame₃.isAtOp_eq ')']
    split
    . exact .ofPure ⟨.cons (harg values) .nil, hsame₃⟩
    . refine (hsame₃.takeOp ',').lift.bind ?_
      rintro ⟨rest₄, h₄⟩ ⟨rest₄', h₄'⟩ hsame₄
      refine (readArguments_alike hsame₄).bind ?_
      rintro ⟨args, rest₅⟩ ⟨args', rest₅'⟩ ⟨hargs, hsame₅⟩
      exact .ofPure ⟨.cons (harg values) hargs, hsame₅⟩
  . exact .ofFail (hsame₁.unexpected _)
termination_by ts.length

theorem readOperation_alike (hattrs : List.Forall₂ c.ExtAttrs attrs attrs') (h : c.Tokens ts ts') :
    c.Outcomes (c.Read c.Operations)
      (readOperation s c.eof attrs ts) (readOperation s c.eof' attrs' ts') := by
  unfold readOperation
  refine (IdlType.read_alike h).lift.bind ?_
  rintro ⟨result, rest₁⟩ ⟨result', rest₁'⟩ ⟨rfl, hsame₁⟩
  refine hsame₁.takeIdent.lift.bind ?_
  rintro ⟨⟨name, p⟩, rest₂⟩ ⟨⟨name', p'⟩, rest₂'⟩ ⟨⟨rfl, hpos⟩, hsame₂⟩
  refine (hsame₂.takeOp '(').lift.bind ?_
  rintro rest₃ rest₃' hsame₃
  refine (readArguments_alike hsame₃).bind ?_
  rintro ⟨args, rest₄⟩ ⟨args', rest₄'⟩ ⟨hargs, hsame₄⟩
  refine (hsame₄.takeOp ')').lift.bind ?_
  rintro rest₅ rest₅' hsame₅
  refine (hsame₅.takeOp ';').lift.bind ?_
  rintro rest₆ rest₆' hsame₆
  refine (s.validate_alike .operation hattrs).bind ?_
  rintro values values' rfl
  exact .ofPure ⟨⟨rfl, rfl, rfl, hpos, hattrs, hargs⟩, hsame₆⟩

theorem readMembers_alike {ts ts' : List Token} (h : c.Tokens ts ts') :
    c.Outcomes
      (fun r r' => List.Forall₂ c.Attributes r.1 r'.1 ∧
        c.Read (List.Forall₂ c.Operations) r.2 r'.2)
      (readMembers s c.eof ts) (readMembers s c.eof' ts') := by
  rw [readMembers, readMembers]
  refine (ExtAttr.readBlock_alike h).lift.bind ?_
  rintro ⟨attrs, rest₁, h₁⟩ ⟨attrs', rest₁', h₁'⟩ ⟨hattrs, hsame₁⟩
  have hword := hsame₁.takeWord? "attribute"
  dsimp only at hattrs hsame₁ hword ⊢
  rw [hsame₁.isAtOp_eq '}', hsame₁.isAtIdent_eq]
  split
  . exact .ofPure ⟨.nil, .nil, hsame₁⟩
  generalize takeWord? "attribute" rest₁ = x at hword ⊢
  generalize takeWord? "attribute" rest₁' = x' at hword ⊢
  cases hword with
  | @some rest₂ rest₂' hsame₂ =>
    rcases rest₂ with ⟨rest₂, h₂⟩
    dsimp only at hsame₂
    refine (readAttribute_alike hattrs hsame₂).bind ?_
    rintro ⟨member, rest₃, h₃⟩ ⟨member', rest₃', h₃'⟩ ⟨hmember, hsame₃⟩
    refine (readMembers_alike hsame₃).bind ?_
    rintro ⟨attributes, operations, rest₄, h₄⟩ ⟨attributes', operations', rest₄', h₄'⟩
      ⟨hattributes, hoperations, hsame₄⟩
    exact .ofPure ⟨.cons hmember hattributes, hoperations, hsame₄⟩
  | none =>
    dsimp only
    split
    . refine (readOperation_alike hattrs hsame₁).bind ?_
      rintro ⟨member, rest₂, h₂⟩ ⟨member', rest₂', h₂'⟩ ⟨hmember, hsame₂⟩
      refine (readMembers_alike hsame₂).bind ?_
      rintro ⟨attributes, operations, rest₃, h₃⟩ ⟨attributes', operations', rest₃', h₃'⟩
        ⟨hattributes, hoperations, hsame₃⟩
      exact .ofPure ⟨hattributes, .cons hmember hoperations, hsame₃⟩
    . exact .ofFail (hsame₁.unexpected _)
termination_by ts.length

theorem readBase_alike (h : c.Tokens ts ts') :
    c.Results (c.Read Eq) (readBase c.eof ts) (readBase c.eof' ts') := by
  unfold readBase
  refine (h.takeSeparator '{' ':').bind ?_
  rintro ⟨noBase, rest₁⟩ ⟨noBase', rest₁'⟩ ⟨rfl, hsame₁⟩
  dsimp only
  split
  . exact .ok ⟨rfl, hsame₁⟩
  . refine hsame₁.takeIdent.bind ?_
    rintro ⟨⟨base, p⟩, rest₂⟩ ⟨⟨base', p'⟩, rest₂'⟩ ⟨⟨rfl, hpos⟩, hsame₂⟩
    refine (hsame₂.takeOp '{').bind ?_
    rintro rest₃ rest₃' hsame₃
    exact .ok ⟨rfl, hsame₃⟩

theorem readBody_alike {kind kind' name name' : Name} {base : Option String}
    (hattrs : List.Forall₂ c.ExtAttrs attrs attrs') (hkind : c.Names kind kind')
    (hname : c.Names name name') (h : c.Tokens ts ts') :
    c.Outcomes (c.Read c.Declarations) (readBody s c.eof attrs kind name base ts)
      (readBody s c.eof' attrs' kind' name' base ts') := by
  unfold readBody
  rw [hkind.text_eq, hname.text_eq]
  split
  . refine (readItems_alike h).lift.bind ?_
    rintro ⟨items, rest⟩ ⟨items', rest'⟩ ⟨rfl, hsame⟩
    refine (s.validate_alike .enum hattrs).bind ?_
    rintro values values' rfl
    exact .ofPure ⟨.enum ⟨rfl, rfl, rfl, hname.pos, hattrs⟩, hsame⟩
  split
  . refine (readMembers_alike h).bind ?_
    rintro ⟨attributes, operations, rest⟩ ⟨attributes', operations', rest'⟩
      ⟨hattributes, hoperations, hsame⟩
    refine (s.validate_alike .interface hattrs).bind ?_
    rintro values values' rfl
    exact .ofPure
      ⟨.interface ⟨rfl, rfl, rfl, hname.pos, hattrs⟩ hattributes hoperations, hsame⟩
  . exact .ofFail ⟨hkind.pos, rfl, rfl⟩

theorem setPartial_alike {d d' : Declaration} (h : c.Declarations d d') (isPartial : Bool) :
    c.Declarations (d.setPartial isPartial) (d'.setPartial isPartial) := by
  cases h with
  | enum hheader => exact .enum { hheader with isPartial_eq := rfl }
  | interface hheader hattributes hoperations =>
    exact .interface { hheader with isPartial_eq := rfl } hattributes hoperations

theorem readOne_alike {isPartial : Bool} {kind kind' : Name}
    (hattrs : List.Forall₂ c.ExtAttrs attrs attrs') (hkind : c.Names kind kind')
    (h : c.Tokens ts ts') :
    c.Outcomes (c.Read c.Declarations) (readOne s c.eof attrs isPartial kind ts)
      (readOne s c.eof' attrs' isPartial kind' ts') := by
  unfold readOne
  refine h.takeIdent.lift.bind ?_
  rintro ⟨name, rest₁⟩ ⟨name', rest₁'⟩ ⟨hname, hsame₁⟩
  refine (readBase_alike hsame₁).lift.bind ?_
  rintro ⟨base, rest₂⟩ ⟨base', rest₂'⟩ ⟨rfl, hsame₂⟩
  refine (readBody_alike hattrs hkind hname hsame₂).bind ?_
  rintro ⟨d, rest₃⟩ ⟨d', rest₃'⟩ ⟨hd, hsame₃⟩
  dsimp only at hd hsame₃ ⊢
  rw [hkind.text_eq]
  split
  . exact .ofFail ⟨hkind.pos, rfl, rfl⟩
  . refine (hsame₃.takeOp '}').lift.bind ?_
    rintro rest₄ rest₄' hsame₄
    refine (hsame₄.takeOp ';').lift.bind ?_
    rintro rest₅ rest₅' hsame₅
    exact .ofPure ⟨setPartial_alike hd isPartial, hsame₅⟩

theorem readPartial_alike (h : c.Tokens ts ts') :
    c.Read Eq (readPartial ts) (readPartial ts') := by
  have hword := h.takeWord? "partial"
  unfold readPartial
  generalize takeWord? "partial" ts = x at hword ⊢
  generalize takeWord? "partial" ts' = x' at hword ⊢
  cases hword with
  | some hsame => exact ⟨rfl, hsame⟩
  | none => exact ⟨rfl, h⟩

theorem readAll_alike {ts ts' : List Token} (h : c.Tokens ts ts') :
    c.Outcomes (List.Forall₂ c.Declarations) (readAll s c.eof ts) (readAll s c.eof' ts') := by
  rw [readAll, readAll]
  refine (ExtAttr.readBlock_alike h).lift.bind ?_
  rintro ⟨attrs, rest₁, h₁⟩ ⟨attrs', rest₁', h₁'⟩ ⟨hattrs, hsame₁⟩
  have hmark := readPartial_alike hsame₁
  dsimp only at hattrs hsame₁ hmark ⊢
  generalize readPartial rest₁ = mark at hmark ⊢
  generalize readPartial rest₁' = mark' at hmark ⊢
  rcases mark with ⟨isPartial, rest₂, h₂⟩
  rcases mark' with ⟨isPartial', rest₂', h₂'⟩
  rcases hmark with ⟨rfl, hsame₂⟩
  dsimp only at hsame₂ ⊢
  rw [hsame₂.isAtEnd_eq]
  split
  . exact .ofPure .nil
  . refine hsame₂.takeIdent.lift.bind ?_
    rintro ⟨kind, rest₃, h₃⟩ ⟨kind', rest₃', h₃'⟩ ⟨hkind, hsame₃⟩
    dsimp only at hsame₃
    refine (readOne_alike hattrs hkind hsame₃).bind ?_
    rintro ⟨d, rest₄, h₄⟩ ⟨d', rest₄', h₄'⟩ ⟨hd, hsame₄⟩
    refine (readAll_alike hsame₄).bind ?_
    rintro ds ds' hds
    exact .ofPure (.cons hd hds)
termination_by ts.length

end Declaration

end IdlCompiler
