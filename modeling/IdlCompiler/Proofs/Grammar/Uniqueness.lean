import IdlCompiler.Proofs.Grammar.Files

/-!
This module contains the proof that the grammar is unambiguous: a list of tokens is the text of at
most one source file.

Each lemma compares two derivations of the same kind, each from the tokens in front of some rest. If
neither rest can belong to what is in front of it, then both derive the same from the same tokens.
-/

namespace IdlCompiler.Grammar

open Cursor

variable {pre pre' rest rest' : List Token}

theorem BlockDerives.unique {attrs attrs' : List ExtAttr} (h : BlockDerives pre attrs)
    (h' : BlockDerives pre' attrs') (hrest : isAtOp '[' rest = false)
    (hrest' : isAtOp '[' rest' = false) (heq : pre ++ rest = pre' ++ rest') :
    attrs = attrs' ∧ rest = rest' := by
  -- Both derivations are read from the same tokens, and reading has one result.
  have hread := ExtAttr.readBlock_of_blockDerives ⟨"", 0, 0⟩ rest h hrest
  rw [heq] at hread
  rcases hread with ⟨_, hread⟩
  rcases ExtAttr.readBlock_of_blockDerives ⟨"", 0, 0⟩ rest' h' hrest' with ⟨_, hread'⟩
  rw [hread] at hread'
  simpa using hread'

theorem TypedNameDerives.unique {type type' : IdlType} {name name' : Name}
    (h : TypedNameDerives pre type name) (h' : TypedNameDerives pre' type' name')
    (heq : pre ++ rest = pre' ++ rest') : type = type' ∧ name = name' ∧ rest = rest' := by
  have hread := Declaration.read_of_typedNameDerives ⟨"", 0, 0⟩ rest h
  rw [heq] at hread
  rcases hread with ⟨_, hread⟩
  rcases Declaration.read_of_typedNameDerives ⟨"", 0, 0⟩ rest' h' with ⟨_, hread'⟩
  rw [hread] at hread'
  rcases name with ⟨text, pos⟩
  rcases name' with ⟨text', pos'⟩
  simpa [Name.token, and_assoc] using hread'

theorem ParamDerives.unique {param param' : Param} (h : ParamDerives pre param)
    (h' : ParamDerives pre' param') (heq : pre ++ rest = pre' ++ rest') :
    param = param' ∧ rest = rest' := by
  rcases h with ⟨hattrs, hname⟩
  rcases h' with ⟨hattrs', hname'⟩
  rw [List.append_assoc, List.append_assoc] at heq
  rcases hattrs.unique hattrs' (hname.isAtOp_append _ _) (hname'.isAtOp_append _ _) heq with
    ⟨rfl, heq⟩
  rcases hname.unique hname' heq with ⟨rfl, rfl, rfl⟩
  exact ⟨rfl, rfl⟩

theorem ParamDerives.ne_block {param : Param} {attrs : List ExtAttr} (h : ParamDerives pre param)
    (h' : BlockDerives pre' attrs) (hclose : isAtOp ')' rest') : pre ++ rest ≠ pre' ++ rest' := by
  intro heq
  rcases h with ⟨hattrs, hname⟩
  rw [List.append_assoc] at heq
  rcases hattrs.unique h' (hname.isAtOp_append _ _) (isAtOp_of_isAtOp hclose (by decide)) heq with
    ⟨-, rfl⟩
  rw [hname.isAtOp_append] at hclose
  cases hclose

theorem ParamsDerive.unique {params params' : List Param} {dangling dangling' : List ExtAttr}
    (h : ParamsDerive pre params dangling) (h' : ParamsDerive pre' params' dangling')
    (hclose : isAtOp ')' rest) (hclose' : isAtOp ')' rest') (heq : pre ++ rest = pre' ++ rest') :
    params = params' ∧ dangling = dangling' ∧ rest = rest' := by
  -- Both derivations start at the same tokens. Behind an argument there is either a comma or the
  -- closing parenthesis, so they go on in the same way.
  induction h generalizing pre' params' with
  | none h =>
    cases h' with
    | none h' =>
      have hopen : isAtOp '[' rest = false := isAtOp_of_isAtOp hclose (by decide)
      have hopen' : isAtOp '[' rest' = false := isAtOp_of_isAtOp hclose' (by decide)
      rcases h.unique h' hopen hopen' heq with ⟨rfl, rfl⟩
      exact ⟨rfl, rfl, rfl⟩
    | last h' => exact absurd heq.symm (h'.ne_block h hclose)
    | more h' _ =>
      rw [List.append_assoc] at heq
      exact absurd heq.symm (h'.ne_block h hclose)
  | last h =>
    cases h' with
    | none h' => exact absurd heq (h.ne_block h' hclose')
    | last h' =>
      rcases h.unique h' heq with ⟨rfl, rfl⟩
      exact ⟨rfl, rfl, rfl⟩
    | more h' _ =>
      rw [List.append_assoc] at heq
      rcases h.unique h' heq with ⟨rfl, rfl⟩
      simp [isAtOp] at hclose
  | more h _ ih =>
    rw [List.append_assoc] at heq
    cases h' with
    | none h' => exact absurd heq (h.ne_block h' hclose')
    | last h' =>
      rcases h.unique h' heq with ⟨rfl, rfl⟩
      simp [isAtOp] at hclose'
    | more h' hmore' =>
      rw [List.append_assoc] at heq
      rcases h.unique h' heq with ⟨rfl, heq⟩
      simp only [List.cons_append, List.cons.injEq] at heq
      rcases ih hmore' heq.2 with ⟨rfl, rfl, rfl⟩
      exact ⟨rfl, rfl, rfl⟩

theorem MemberDerives.unique {member member' : MemberDecl} (h : MemberDerives pre member)
    (h' : MemberDerives pre' member') (heq : pre ++ rest = pre' ++ rest') :
    member = member' ∧ rest = rest' := by
  rcases h with ⟨hattrs, hname⟩ | ⟨hattrs, hname, hhead, hparams⟩
  . rcases h' with ⟨hattrs', hname'⟩ | ⟨hattrs', hname', hhead', hparams'⟩
    . simp only [List.append_assoc, List.cons_append] at heq
      rcases hattrs.unique hattrs' rfl rfl heq with ⟨rfl, heq⟩
      simp only [List.cons.injEq] at heq
      rcases hname.unique hname' heq.2 with ⟨rfl, rfl, heq⟩
      simp only [List.nil_append, List.cons.injEq] at heq
      exact ⟨rfl, heq.2⟩
    -- An operation does not start with the word that opens an attribute.
    . simp only [List.append_assoc, List.cons_append] at heq
      rcases hattrs.unique hattrs' rfl (hname'.isAtOp_append _ _) heq with ⟨rfl, heq⟩
      rcases hname'.exists_cons with ⟨word, p, tail, rfl⟩
      simp only [List.cons_append, List.cons.injEq] at heq
      exact absurd (by rw [← heq.1]; rfl) hhead'
  . rcases h' with ⟨hattrs', hname'⟩ | ⟨hattrs', hname', hhead', hparams'⟩
    . simp only [List.append_assoc, List.cons_append] at heq
      rcases hattrs.unique hattrs' (hname.isAtOp_append _ _) rfl heq with ⟨rfl, heq⟩
      rcases hname.exists_cons with ⟨word, p, tail, rfl⟩
      simp only [List.cons_append, List.cons.injEq] at heq
      exact absurd (by rw [heq.1]; rfl) hhead
    . simp only [List.append_assoc, List.cons_append, List.nil_append] at heq
      rcases hattrs.unique hattrs' (hname.isAtOp_append _ _) (hname'.isAtOp_append _ _) heq with
        ⟨rfl, heq⟩
      rcases hname.unique hname' heq with ⟨rfl, rfl, heq⟩
      simp only [List.cons.injEq] at heq
      rcases hparams.unique hparams' (by simp [isAtOp]) (by simp [isAtOp]) heq.2 with
        ⟨rfl, rfl, heq⟩
      simp only [List.cons.injEq] at heq
      exact ⟨rfl, heq.2.2⟩

theorem MemberDerives.ne_block {member : MemberDecl} {attrs : List ExtAttr}
    (h : MemberDerives pre member) (h' : BlockDerives pre' attrs) (hclose : isAtOp '}' rest') :
    pre ++ rest ≠ pre' ++ rest' := by
  intro heq
  have hopen := isAtOp_of_isAtOp hclose (d := '[') (by decide)
  rcases h with ⟨hattrs, hname⟩ | ⟨hattrs, hname, _, _⟩
  . simp only [List.append_assoc, List.cons_append] at heq
    rcases hattrs.unique h' rfl hopen heq with ⟨-, rfl⟩
    simp [isAtOp] at hclose
  . simp only [List.append_assoc, List.cons_append] at heq
    rcases hattrs.unique h' (hname.isAtOp_append _ _) hopen heq with ⟨-, rfl⟩
    rw [hname.isAtOp_append] at hclose
    cases hclose

theorem MembersDerive.unique {members members' : List MemberDecl}
    {dangling dangling' : List ExtAttr} (h : MembersDerive pre members dangling)
    (h' : MembersDerive pre' members' dangling')
    (hclose : isAtOp '}' rest) (hclose' : isAtOp '}' rest') (heq : pre ++ rest = pre' ++ rest') :
    members = members' ∧ dangling = dangling' ∧ rest = rest' := by
  induction h generalizing pre' members' with
  | nil h =>
    cases h' with
    | nil h' =>
      have hopen : isAtOp '[' rest = false := isAtOp_of_isAtOp hclose (by decide)
      have hopen' : isAtOp '[' rest' = false := isAtOp_of_isAtOp hclose' (by decide)
      rcases h.unique h' hopen hopen' heq with ⟨rfl, rfl⟩
      exact ⟨rfl, rfl, rfl⟩
    | cons h' _ =>
      rw [List.append_assoc] at heq
      exact absurd heq.symm (h'.ne_block h hclose)
  | cons h _ ih =>
    rw [List.append_assoc] at heq
    cases h' with
    | nil h' => exact absurd heq (h.ne_block h' hclose')
    | cons h' hmore' =>
      rw [List.append_assoc] at heq
      rcases h.unique h' heq with ⟨rfl, heq⟩
      rcases ih hmore' heq with ⟨rfl, rfl, rfl⟩
      exact ⟨rfl, rfl, rfl⟩

theorem ItemsDerive.unique {items items' : List String} (h : ItemsDerive pre items)
    (h' : ItemsDerive pre' items') (hclose : isAtOp '}' rest) (hclose' : isAtOp '}' rest')
    (heq : pre ++ rest = pre' ++ rest') : items = items' ∧ rest = rest' := by
  have hne {value : String} {p : Pos} {tail all : List Token} (hall : isAtOp '}' all) :
      ⟨.string value, p⟩ :: tail ≠ all := by
    rintro rfl
    simp [isAtOp] at hall
  have hne' {p : Pos} {tail all : List Token} (hall : isAtOp '}' all) :
      ⟨.op ',', p⟩ :: tail ≠ all := by
    rintro rfl
    simp [isAtOp] at hall
  induction h generalizing pre' items' with
  | nil =>
    cases h' with
    | nil => exact ⟨rfl, heq⟩
    | last => exact absurd heq.symm (hne hclose)
    | more _ => exact absurd heq.symm (hne hclose)
  | last =>
    cases h' with
    | nil => exact absurd heq (hne hclose')
    | last =>
      simp only [List.cons_append, List.nil_append, List.cons.injEq, Token.mk.injEq,
        Lexeme.string.injEq] at heq
      exact ⟨by rw [heq.1.1], heq.2⟩
    | more _ =>
      simp only [List.cons_append, List.nil_append, List.cons.injEq] at heq
      exact absurd heq.2.symm (hne' hclose)
  | more _ ih =>
    cases h' with
    | nil => exact absurd heq (hne hclose')
    | last =>
      simp only [List.cons_append, List.nil_append, List.cons.injEq] at heq
      exact absurd heq.2 (hne' hclose')
    | more h' =>
      simp only [List.cons_append, List.cons.injEq, Token.mk.injEq, Lexeme.string.injEq] at heq
      rcases ih h' heq.2.2 with ⟨rfl, rfl⟩
      exact ⟨by rw [heq.1.1], rfl⟩

theorem BodyDerives.unique {kind kind' : String} {body body' : Body} (h : BodyDerives kind pre body)
    (h' : BodyDerives kind' pre' body') (hkind : kind = kind') (hclose : isAtOp '}' rest)
    (hclose' : isAtOp '}' rest') (heq : pre ++ rest = pre' ++ rest') :
    body = body' ∧ rest = rest' := by
  cases h with
  | enum h =>
    cases h' with
    | enum h' =>
      rcases h.unique h' hclose hclose' heq with ⟨rfl, rfl⟩
      exact ⟨rfl, rfl⟩
    | interface _ => exact absurd hkind (by decide)
  | interface h =>
    cases h' with
    | enum _ => exact absurd hkind (by decide)
    | interface h' =>
      rcases h.unique h' hclose hclose' heq with ⟨rfl, rfl, rfl⟩
      exact ⟨rfl, rfl⟩

theorem PartialDerives.unique {isPartial isPartial' : Bool} (h : PartialDerives pre isPartial)
    (h' : PartialDerives pre' isPartial') (hrest : takeWord? "partial" rest = Option.none)
    (hrest' : takeWord? "partial" rest' = Option.none) (heq : pre ++ rest = pre' ++ rest') :
    isPartial = isPartial' ∧ rest = rest' := by
  have hread := Declaration.readPartial_of_partialDerives h hrest
  rw [heq] at hread
  rcases hread with ⟨_, hread⟩
  rcases Declaration.readPartial_of_partialDerives h' hrest' with ⟨_, hread'⟩
  rw [hread] at hread'
  simpa using hread'

theorem BaseDerives.unique {base base' : Option String} (h : BaseDerives pre base)
    (h' : BaseDerives pre' base') {p p' : Pos}
    (heq : pre ++ ⟨.op '{', p⟩ :: rest = pre' ++ ⟨.op '{', p'⟩ :: rest') :
    base = base' ∧ rest = rest' := by
  cases h <;> cases h' <;> simp_all

theorem ItemDerives.unique {item item' : Item} (h : ItemDerives pre item)
    (h' : ItemDerives pre' item') (heq : pre ++ rest = pre' ++ rest') :
    item = item' ∧ rest = rest' := by
  rcases h with ⟨hattrs, hpartial, hbase, hbody⟩
  rcases h' with ⟨hattrs', hpartial', hbase', hbody'⟩
  simp only [List.append_assoc, List.cons_append, List.nil_append] at heq
  rcases hattrs.unique hattrs'
    (Declaration.isAtOp_append_of_partialDerives hpartial rfl)
    (Declaration.isAtOp_append_of_partialDerives hpartial' rfl) heq with ⟨rfl, heq⟩
  rcases hpartial.unique hpartial' (Declaration.takeWord?_partial_of_bodyDerives _ hbody)
    (Declaration.takeWord?_partial_of_bodyDerives _ hbody') heq with ⟨rfl, heq⟩
  simp only [List.cons.injEq, Token.mk.injEq, Lexeme.ident.injEq] at heq
  rcases heq with ⟨⟨hkind, -⟩, hname, heq⟩
  rcases hbase.unique hbase' heq with ⟨rfl, heq⟩
  rcases hbody.unique hbody' hkind (by simp [isAtOp]) (by simp [isAtOp]) heq with ⟨rfl, heq⟩
  simp only [List.cons.injEq] at heq
  exact ⟨by rw [Name.token_inj.1 hname], heq.2.2⟩

theorem ItemDerives.ne_end {item : Item} {attrs : List ExtAttr} {isPartial : Bool}
    {ts ts' : List Token} (h : ItemDerives pre item) (hattrs : BlockDerives ts attrs)
    (hpartial : PartialDerives ts' isPartial) (hend : isAtEnd rest') :
    pre ++ rest ≠ ts ++ ts' ++ rest' := by
  intro heq
  rcases h with ⟨hattrs', hpartial', _, hbody'⟩
  simp only [List.append_assoc, List.cons_append, List.nil_append] at heq
  rcases hattrs'.unique hattrs
    (Declaration.isAtOp_append_of_partialDerives hpartial' rfl)
    (Declaration.isAtOp_append_of_partialDerives hpartial
      (Declaration.isAtOp_eq_false_of_isAtEnd hend)) heq with ⟨rfl, heq⟩
  rcases hpartial'.unique hpartial (Declaration.takeWord?_partial_of_bodyDerives _ hbody')
    (Declaration.takeWord?_eq_none_of_isAtEnd hend) heq with ⟨rfl, rfl⟩
  simp [isAtEnd] at hend

theorem FileDerives.unique {f f' : File} (h : FileDerives pre f) (h' : FileDerives pre' f')
    (heq : pre = pre') : f = f' := by
  induction h generalizing pre' f' with
  | @nil _ _ _ _ p hattrs hpartial =>
    have hend : isAtEnd [⟨.eof, p⟩] := by simp [isAtEnd]
    cases h' with
    | @nil _ _ _ _ p' hattrs' hpartial' =>
      rw [List.append_assoc, List.append_assoc] at heq
      rcases hattrs.unique hattrs' (Declaration.isAtOp_append_of_partialDerives hpartial rfl)
        (Declaration.isAtOp_append_of_partialDerives hpartial' rfl) heq with ⟨rfl, heq⟩
      rcases hpartial.unique hpartial' rfl rfl heq with ⟨rfl, -⟩
      rfl
    | cons hitem' _ => exact absurd heq.symm (hitem'.ne_end hattrs hpartial hend)
  | cons hitem _ ih =>
    cases h' with
    | @nil _ _ _ _ p' hattrs' hpartial' =>
      have hend : isAtEnd [⟨.eof, p'⟩] := by simp [isAtEnd]
      exact absurd heq (hitem.ne_end hattrs' hpartial' hend)
    | cons hitem' hfile' =>
      rcases hitem.unique hitem' heq with ⟨rfl, heq⟩
      cases ih hfile' heq
      rfl

end IdlCompiler.Grammar

namespace IdlCompiler

def TokenStream.untilEnd (stream : TokenStream) : List Token :=
  upToEnd stream.endPos stream.tokens

theorem TokenStream.untilEnd_eq_toList {stream : TokenStream} (h : Grammar.EofFree stream.tokens) :
    stream.untilEnd = stream.toList := by
  have hsplit := h.upToEnd_append stream.endPos []
  rw [List.append_nil] at hsplit
  rw [untilEnd, hsplit]
  rfl

/--
Reading succeeds exactly on the source files of the grammar whose extended attributes are valid and
whose enumerations are not partial, and gives the declarations of the one file that is derived.
-/
theorem Declaration.result_ofTokens_eq_ok_iff (s : Schema) (stream : TokenStream)
    (ds : List Declaration) :
    (ofTokens s stream).result = .ok ds ↔
      ∃ f, Grammar.FileDerives stream.untilEnd f ∧
        (∀ f', Grammar.FileDerives stream.untilEnd f' → f' = f) ∧
        f.Valid s ∧ f.declarations s = ds := by
  constructor
  . intro hread
    rcases fileDerives_of_readAll hread with ⟨f, hderives, hvalid, hdeclared⟩
    exact ⟨f, hderives, fun f' hderives' => hderives'.unique hderives rfl, hvalid, hdeclared⟩
  . rintro ⟨f, hderives, -, hvalid, rfl⟩
    exact readAll_of_fileDerives stream.endPos hderives hvalid

end IdlCompiler
