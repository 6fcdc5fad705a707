import IdlCompiler.Proofs.Grammar.Members
import IdlCompiler.Proofs.RoundTrip.Blocks

/-!
This module contains the proof that the text of a member of an interface is read as that member.
-/

namespace IdlCompiler

open Lexer Grammar

def IdlType.StartsAttribute : IdlType → Prop
  | .simple name => name = "attribute"
  | .optional elem => elem.StartsAttribute
  | .generic name _ => name = "attribute"
  | _ => False

namespace Grammar

variable {ts : List Token} {t : IdlType} {name : Name}

theorem TypeDerives.head_eq_attribute_iff (h : TypeDerives ts t) :
    ts.head?.map (·.lexeme) = some (.ident "attribute") ↔ t.StartsAttribute := by
  cases t with
  | optional elem =>
    cases h with
    | optional helem hnot =>
      cases elem with
      | optional elem => exact absurd rfl (hnot elem)
      | _ => cases helem <;> simp [IdlType.StartsAttribute]
  | _ => cases h <;> simp [IdlType.StartsAttribute]

theorem TypedNameDerives.head_eq_attribute_iff (h : TypedNameDerives ts t name) :
    ts.head?.map (·.lexeme) = some (.ident "attribute") ↔ t.StartsAttribute := by
  rcases h with ⟨htype, _⟩
  rcases htype.exists_cons with ⟨word, p, tail, rfl⟩
  exact htype.head_eq_attribute_iff

theorem TypedNameDerives.reads (h : TypedNameDerives ts t name)
    (hspelled : ∀ token ∈ ts, token.lexeme.Spelled) :
    Reads EndsWord (t.text ++ " " ++ name.text) fun ts =>
      ∃ p, TypedNameDerives ts t ⟨name.text, p⟩ := by
  rcases h with ⟨htype, hlong⟩
  have hname : IsIdent name.text := hspelled name.token (by simp)
  have htext := htype.reads fun token ht => hspelled token (List.mem_append_left _ ht)
  refine ((htext.append reads_blank fun rest _ => endsWord_of_cons rfl rfl rest).append
    (reads_ident hname) fun _ _ => trivial).imp ?_
  rintro _ ⟨_, _, rfl, ⟨ts, _, rfl, hderives, rfl⟩, ⟨p, rfl⟩⟩
  rw [List.append_nil]
  exact ⟨p, @TypedNameDerives.intro ts t ⟨name.text, p⟩ hderives hlong⟩

end Grammar

def Argument.Rereads (s : Schema) (a : Argument) : Prop :=
  ExtAttr.PlainArgs a.attrs → Reads EndsWord a.text fun ts =>
    ∃ param, ParamDerives ts param ∧ s.Accepts .argument param.attrs ∧
      (param.argument s).withoutPos = a.withoutPos

def Attribute.IsReadFrom (s : Schema) (a : Attribute) (ts : List Token) : Prop :=
  ∃ m a', MemberDerives ts m ∧ m.Valid s ∧ m.attribute? s = some a' ∧ a'.withoutPos = a.withoutPos

def Operation.IsReadFrom (s : Schema) (o : Operation) (ts : List Token) : Prop :=
  ∃ m o', MemberDerives ts m ∧ m.Valid s ∧ m.operation? s = some o' ∧ o'.withoutPos = o.withoutPos

def Attribute.Rereads (s : Schema) (a : Attribute) : Prop :=
  ExtAttr.PlainArgs a.attrs → Reads Anything a.line (a.IsReadFrom s)

def Operation.Rereads (s : Schema) (o : Operation) : Prop :=
  ExtAttr.PlainArgs o.attrs → (∀ a ∈ o.args, ExtAttr.PlainArgs a.attrs) →
    Reads Anything o.line (o.IsReadFrom s)

namespace Grammar

variable {s : Schema} {ts : List Token}

theorem ParamDerives.rereads {param : Param} (h : ParamDerives ts param)
    (hspelled : ∀ t ∈ ts, t.lexeme.Spelled) (haccepts : s.Accepts .argument param.attrs) :
    (param.argument s).Rereads s := by
  intro hplain
  rcases h with @⟨ts, ts', attrs, type, name, hattrs, hname⟩
  have hblock := reads_blockText (hattrs.spelled fun t ht => hspelled t (by simp [ht])) hplain
  have htyped := hname.reads fun t ht => hspelled t (by simp [ht])
  have htext : (Param.argument s ⟨attrs, type, name⟩).text =
      ExtAttr.blockText attrs ++ (type.text ++ " " ++ name.text) := by
    simp only [Argument.text, Param.argument, String.append_assoc]
  rw [htext]
  refine (hblock.append htyped fun _ _ => trivial).imp ?_
  rintro _ ⟨ts₁, ts₂, rfl, ⟨attrs', hblockDerives, hsame⟩, ⟨p, hnameDerives⟩⟩
  refine ⟨⟨attrs', type, ⟨name.text, p⟩⟩, .intro hblockDerives hnameDerives,
    (Schema.accepts_congr hsame).2 haccepts, ?_⟩
  simp only [Param.argument, Argument.withoutPos, hsame, Schema.valuesOf_congr hsame.symm haccepts]

theorem ParamsDerive.rereads {params : List Param} {dangling : List ExtAttr}
    (h : ParamsDerive ts params dangling) (hspelled : ∀ t ∈ ts, t.lexeme.Spelled)
    (haccepts : ∀ param ∈ params, s.Accepts .argument param.attrs) :
    ∀ a ∈ params.map (·.argument s), a.Rereads s := by
  induction h with
  | none _ => simp
  | last h =>
    intro a ha
    rcases List.mem_singleton.1 ha with rfl
    exact h.rereads hspelled (haccepts _ List.mem_cons_self)
  | more h _ ih =>
    intro a ha
    rcases List.mem_cons.1 ha with rfl | ha
    . exact h.rereads (fun t ht => hspelled t (by simp [ht])) (haccepts _ List.mem_cons_self)
    . exact ih (fun t ht => hspelled t (by simp [ht]))
        (fun param hparam => haccepts param (List.mem_cons_of_mem _ hparam)) a ha

theorem MemberDerives.rereads_attribute {m : MemberDecl} {a : Attribute} (h : MemberDerives ts m)
    (hspelled : ∀ t ∈ ts, t.lexeme.Spelled) (hvalid : m.Valid s) (ha : m.attribute? s = some a) :
    a.Rereads s := by
  intro hplain
  rcases h with @⟨ts, ts', attrs, type, name, _, _, hattrs, hname⟩ | _
  . simp only [MemberDecl.attribute?, Option.some.injEq] at ha
    subst ha
    have haccepts : s.Accepts .attribute attrs := hvalid (.attribute, attrs) List.mem_cons_self
    have hblock := reads_blockText (hattrs.spelled fun t ht => hspelled t (by simp [ht])) hplain
    have hword : IsIdent "attribute" := isIdent_of_chars rfl rfl rfl
    have htyped := hname.reads fun t ht => hspelled t (by simp [ht])
    have hend : Reads Anything ";" (Single (.op ';')) := reads_op ';' (by decide)
    have htext : ∀ values, Attribute.line ⟨name.text, type, name.pos, attrs, values⟩ =
        ExtAttr.blockText attrs ++ "attribute " ++ (type.text ++ " " ++ name.text) ++ ";" := by
      simp only [Attribute.line, String.append_assoc, implies_true]
    rw [htext]
    refine (((hblock.append (reads_word hword) fun _ _ => trivial).append htyped
      fun _ _ => trivial).append hend fun rest _ => endsWord_of_cons rfl rfl rest).imp ?_
    rintro _ ⟨_, _, rfl, ⟨_, ts₂, rfl, ⟨ts₁, _, rfl, ⟨attrs', hblockDerives, hsame⟩, ⟨p, rfl⟩⟩,
      ⟨r, hnameDerives⟩⟩, ⟨q, rfl⟩⟩
    have haccepts' := (Schema.accepts_congr hsame).2 haccepts
    refine ⟨.attribute attrs' type ⟨name.text, r⟩, _, ?_, ?_, rfl, ?_⟩
    . simpa using MemberDerives.attribute (p := p) (q := q) hblockDerives hnameDerives
    . exact List.forall_mem_singleton.2 haccepts'
    . simp only [Attribute.withoutPos, hsame, Schema.valuesOf_congr hsame haccepts']
  . cases ha

theorem SepBy.paramsDerive {params : List Param}
    (h : SepBy (fun ts param => ParamDerives ts param ∧ s.Accepts .argument param.attrs)
      ts params) :
    ParamsDerive ts params [] ∧ ∀ param ∈ params, s.Accepts .argument param.attrs := by
  induction h with
  | last h =>
    exact ⟨.last h.1, List.forall_mem_singleton.2 h.2⟩
  | more h _ ih =>
    exact ⟨.more h.1 ih.1, List.forall_mem_cons.2 ⟨h.2, ih.2⟩⟩

theorem reads_arguments {args : List Argument} (h : ∀ a ∈ args, a.Rereads s)
    (hplain : ∀ a ∈ args, ExtAttr.PlainArgs a.attrs) :
    Reads EndsWord (", ".intercalate (args.map Argument.text)) fun ts =>
      ∃ params, ParamsDerive ts params [] ∧ (∀ param ∈ params, s.Accepts .argument param.attrs) ∧
        params.map (fun param => (param.argument s).withoutPos) = args.map (·.withoutPos) := by
  by_cases hargs : args = []
  . subst hargs
    exact reads_empty.imp fun ts hts => ⟨[], .none (hts ▸ .none), by simp, rfl⟩
  . have htexts : Reads EndsWord (", ".intercalate (args.map Argument.text)) fun ts =>
        ∃ params, SepBy (fun ts param => ParamDerives ts param ∧ s.Accepts .argument param.attrs)
          ts params ∧
          params.map (fun param => (param.argument s).withoutPos) = args.map (·.withoutPos) := by
      refine reads_intercalate hargs ?_
      intro a ha
      refine (h a ha (hplain a ha)).imp ?_
      rintro ts ⟨param, hderives, haccepts, hsame⟩
      exact ⟨param, ⟨hderives, haccepts⟩, hsame⟩
    refine htexts.imp ?_
    rintro ts ⟨params, hsep, hsame⟩
    exact ⟨params, hsep.paramsDerive.1, hsep.paramsDerive.2, hsame⟩

theorem MemberDerives.rereads_operation {m : MemberDecl} {o : Operation} (h : MemberDerives ts m)
    (hspelled : ∀ t ∈ ts, t.lexeme.Spelled) (hvalid : m.Valid s) (ho : m.operation? s = some o) :
    o.Rereads s := by
  intro hplain hplainArgs
  rcases h with _ | @⟨ts, ts', ts'', attrs, result, name, params, dangling, _, _, _, hattrs, hname,
    hhead, hparams⟩
  . cases ho
  . simp only [MemberDecl.operation?, Option.some.injEq] at ho
    subst ho
    have haccepts : s.Accepts .operation attrs := hvalid (.operation, attrs) List.mem_cons_self
    have hblock := reads_blockText (hattrs.spelled fun t ht => hspelled t (by simp [ht])) hplain
    have htyped := hname.reads fun t ht => hspelled t (by simp [ht])
    have hacceptsParams (param : Param) (h : param ∈ params) : s.Accepts .argument param.attrs :=
      hvalid (.argument, param.attrs) (List.mem_cons_of_mem _ (List.mem_map_of_mem h))
    have hargs := reads_arguments
      (hparams.rereads (fun t ht => hspelled t (by simp [ht])) hacceptsParams) hplainArgs
    have hopen : Reads Anything "(" (Single (.op '(')) := reads_op '(' (by decide)
    have hend : Reads Anything ");" (Then (Single (.op ')')) (Single (.op ';'))) :=
      (reads_op ')' (by decide)).append (reads_op ';' (by decide)) fun _ _ => trivial
    have htext : ∀ args values, Operation.line ⟨name.text, result, args, name.pos, attrs, values⟩ =
        ExtAttr.blockText attrs ++ (result.text ++ " " ++ name.text) ++ "(" ++
          ", ".intercalate (args.map Argument.text) ++ ");" := by
      simp only [Operation.line, String.append_assoc, implies_true]
    rw [htext]
    refine ((((hblock.append htyped fun _ _ => trivial).append hopen
      fun rest _ => endsWord_of_cons rfl rfl rest).append hargs fun _ _ => trivial).append hend
      fun rest _ => endsWord_of_cons rfl rfl rest).imp ?_
    rintro _ ⟨_, _, rfl, ⟨_, ts₃, rfl, ⟨_, _, rfl, ⟨ts₁, ts₂, rfl, ⟨attrs', hblockDerives, hsame⟩,
      ⟨r, hnameDerives⟩⟩, ⟨p, rfl⟩⟩, ⟨params', hparamsDerive, hacceptsParams', hsameParams⟩⟩,
      ⟨_, _, rfl, ⟨q, rfl⟩, ⟨u, rfl⟩⟩⟩
    have haccepts' := (Schema.accepts_congr hsame).2 haccepts
    -- Whether a type starts with `attribute` does not depend on the tokens it is read from.
    have hhead' : ts₂.head?.map (·.lexeme) ≠ some (.ident "attribute") := by
      rw [ne_eq, hnameDerives.head_eq_attribute_iff, ← hname.head_eq_attribute_iff]
      exact hhead
    refine ⟨.operation attrs' result ⟨name.text, r⟩ params' [], _, ?_, ?_, rfl, ?_⟩
    . simpa using MemberDerives.operation (p := p) (q := q) (r := u) hblockDerives hnameDerives
        hhead' hparamsDerive
    . exact List.forall_mem_cons.2 ⟨haccepts', List.forall_mem_map.2 hacceptsParams'⟩
    . simp only [Operation.withoutPos, hsame, Schema.valuesOf_congr hsame haccepts', ← hsameParams,
        List.map_map]
      rfl

end Grammar

end IdlCompiler
