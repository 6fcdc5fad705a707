import IdlCompiler.Proofs.RoundTrip.Lines
import IdlCompiler.Proofs.RoundTrip.Members

/-!
This module contains the proof that the lines of a declaration are read as that declaration.
-/

namespace IdlCompiler

open Lexer Grammar

structure Header.Rereads (s : Schema) (domain : Domain) (h : Header) : Prop where
  name : IsIdent h.name
  attrs : ∀ a ∈ h.attrs, a.Spelled
  accepts : s.Accepts domain h.attrs
  values : h.values = s.valuesOf domain h.attrs

namespace Declaration

def Rereads (s : Schema) : Declaration → Prop
  | .enum e =>
    e.header.Rereads s .enum ∧ e.header.isPartial = false ∧ ∀ item ∈ e.items, item ≠ ""
  | .interface i =>
    i.header.Rereads s .interface ∧ (∀ base, i.base = some base → IsIdent base) ∧
      (∀ a ∈ i.attributes, a.Rereads s) ∧ ∀ o ∈ i.operations, o.Rereads s

def blocks : Declaration → List (List ExtAttr)
  | .enum e => [e.header.attrs]
  | .interface i =>
    i.header.attrs :: i.attributes.map (·.attrs) ++
      i.operations.flatMap fun o => o.attrs :: o.args.map (·.attrs)

def PlainArgs (d : Declaration) : Prop :=
  ∀ attrs ∈ d.blocks, ExtAttr.PlainArgs attrs

def ReadsItem (s : Schema) (d : Declaration) (ts : List Token) : Prop :=
  ∃ item, ItemDerives ts item ∧ item.Valid s ∧ (item.declaration s).withoutPos = d.withoutPos

end Declaration

namespace Lexer

variable {s : Schema}

def markText (isPartial : Bool) : String :=
  if isPartial then "partial " else ""

def baseText : Option String → String
  | some name => " : " ++ name
  | none => ""

theorem reads_markText (isPartial : Bool) :
    Reads Anything (markText isPartial) (PartialDerives · isPartial) := by
  cases isPartial with
  | false => exact reads_empty.imp fun ts hts => hts ▸ .none
  | true =>
    have hword : IsIdent "partial" := isIdent_of_chars rfl rfl rfl
    refine (reads_word hword).imp ?_
    rintro _ ⟨p, rfl⟩
    exact .some

theorem reads_baseText {base : Option String} (h : ∀ name, base = some name → IsIdent name) :
    Reads EndsWord (baseText base) (BaseDerives · base) := by
  cases base with
  | none => exact reads_empty.imp fun ts hts => hts ▸ .none
  | some name =>
    have hcolon : Reads Anything " : " (Single (.op ':')) := by
      refine ((reads_blank.append (reads_op ':' (by decide)) fun _ _ => trivial).append reads_blank
        fun _ _ => trivial).imp ?_
      rintro _ ⟨_, _, rfl, ⟨_, _, rfl, rfl, ⟨p, rfl⟩⟩, rfl⟩
      exact ⟨p, rfl⟩
    refine (hcolon.append (reads_ident (h name rfl)) fun _ _ => trivial).imp ?_
    rintro _ ⟨_, _, rfl, ⟨p, rfl⟩, ⟨q, rfl⟩⟩
    exact .some

theorem endsWord_baseText (base : Option String) (rest : List Char) (hrest : EndsWord rest) :
    EndsWord ((baseText base).toList ++ rest) := by
  cases base with
  | none => exact hrest
  | some name => exact endsWord_of_cons (by rw [baseText, String.toList_append]; rfl) rfl rest

def ReadsHead (attrs : List ExtAttr) (isPartial : Bool) (kind name : String) (base : Option String)
    (ts : List Token) : Prop :=
  ∃ ts₁ ts₂ ts₃ attrs' p q r,
    ts = ts₁ ++ ts₂ ++ ⟨.ident kind, p⟩ :: ⟨.ident name, q⟩ :: ts₃ ++ [⟨.op '{', r⟩] ∧
    BlockDerives ts₁ attrs' ∧ attrs'.map (·.withoutPos) = attrs.map (·.withoutPos) ∧
    PartialDerives ts₂ isPartial ∧ BaseDerives ts₃ base

theorem reads_head {attrs : List ExtAttr} {isPartial : Bool} {kind name : String}
    {base : Option String} (hattrs : ∀ a ∈ attrs, a.Spelled) (hplain : ExtAttr.PlainArgs attrs)
    (hkind : IsIdent kind) (hname : IsIdent name)
    (hbase : ∀ name, base = some name → IsIdent name) :
    ReadsLines [ExtAttr.blockText attrs ++ markText isPartial ++ (kind ++ " ") ++ name ++
      baseText base ++ " \x7b"] (ReadsHead attrs isPartial kind name base) := by
  have hopen : Reads Anything " \x7b" (Single (.op '{')) := by
    refine (reads_blank.append (reads_op '{' (by decide)) fun _ _ => trivial).imp ?_
    rintro _ ⟨_, _, rfl, rfl, ⟨p, rfl⟩⟩
    exact ⟨p, rfl⟩
  have hline := ((((reads_blockText hattrs hplain).append (reads_markText isPartial)
    fun _ _ => trivial).append (reads_word hkind) fun _ _ => trivial).append (reads_ident hname)
    fun _ _ => trivial).append (reads_baseText hbase) (endsWord_baseText base)
  refine ((hline.append hopen.weaken fun rest _ => endsWord_of_cons rfl rfl rest).readsLines
    (trimRight_append _ rfl rfl)).imp ?_
  rintro _ ⟨_, _, rfl, ⟨_, ts₃, rfl, ⟨_, _, rfl, ⟨_, _, rfl, ⟨ts₁, ts₂, rfl,
    ⟨attrs', hblock, hsame⟩, hpartial⟩, ⟨p, rfl⟩⟩, ⟨q, rfl⟩⟩, hbase⟩, ⟨r, rfl⟩⟩
  exact ⟨ts₁, ts₂, ts₃, attrs', p, q, r, by simp, hblock, hsame, hpartial, hbase⟩

theorem reads_end : ReadsLines ["\x7d;"] (Then (Single (.op '}')) (Single (.op ';'))) := by
  have hline : Reads Anything "\x7d;" (Then (Single (.op '}')) (Single (.op ';'))) :=
    (reads_op '}' (by decide)).append (reads_op ';' (by decide)) fun _ _ => trivial
  exact hline.weaken.readsLines rfl

theorem reads_indentation : Reads Anything "    " (· = []) := by
  have hblanks := ((reads_blank.append reads_blank fun _ _ => trivial).append reads_blank
    fun _ _ => trivial).append reads_blank fun _ _ => trivial
  refine hblanks.imp ?_
  rintro _ ⟨_, _, rfl, ⟨_, _, rfl, ⟨_, _, rfl, rfl, rfl⟩, rfl⟩, rfl⟩
  rfl

theorem Reads.indented {l : String} {P : List Token → Prop} (h : Reads Anything l P) :
    Reads Anything ("    " ++ l) P := by
  refine (reads_indentation.append h fun _ _ => trivial).imp ?_
  rintro _ ⟨_, _, rfl, rfl, hP⟩
  exact hP

theorem getLast?_source (value : String) :
    (Literal.source value).toList.getLast? = some '\x22' := by
  rw [Literal.source, String.toList_ofList, Literal.charsBy, List.getLast?_append]
  rfl

theorem reads_itemLines (items : List String) :
    ReadsLines (Enum.itemLines items) (ItemsDerive · items) := by
  induction items with
  | nil => exact readsLines_nil.imp fun ts hts => hts ▸ .nil
  | cons item items ih =>
    have hitem := (reads_source item).indented
    cases items with
    | nil =>
      refine (hitem.weaken.readsLines (trimRight_append _ (getLast?_source item) rfl)).imp ?_
      rintro _ ⟨p, rfl⟩
      exact .last
    | cons next items =>
      have hcomma : Reads Anything "," (Single (.op ',')) := reads_op ',' (by decide)
      have hline := (hitem.append hcomma fun _ _ => trivial).weaken.readsLines
        (trimRight_append _ rfl rfl)
      refine (hline.append ih).imp ?_
      rintro _ ⟨_, ts, rfl, ⟨_, _, rfl, ⟨p, rfl⟩, ⟨q, rfl⟩⟩, hderive⟩
      exact .more hderive

theorem reads_attributeLine {a : Attribute} (h : a.Rereads s) (hplain : ExtAttr.PlainArgs a.attrs) :
    ReadsLines ["    " ++ a.line] (a.IsReadFrom s) := by
  refine (h hplain).indented.weaken.readsLines ?_
  rw [Attribute.line, ← String.append_assoc]
  exact trimRight_append _ rfl rfl

theorem reads_operationLine {o : Operation} (h : o.Rereads s) (hplain : ExtAttr.PlainArgs o.attrs)
    (hplainArgs : ∀ a ∈ o.args, ExtAttr.PlainArgs a.attrs) :
    ReadsLines ["    " ++ o.line] (o.IsReadFrom s) := by
  refine (h hplain hplainArgs).indented.weaken.readsLines ?_
  rw [Operation.line, ← String.append_assoc]
  exact trimRight_append _ rfl rfl

def MembersReadFrom (s : Schema) (attributes : List Attribute) (operations : List Operation)
    (ts : List Token) : Prop :=
  ∃ members, MembersDerive ts members [] ∧ (∀ m ∈ members, m.Valid s) ∧
    (members.filterMap (·.attribute? s)).map (·.withoutPos) = attributes.map (·.withoutPos) ∧
    (members.filterMap (·.operation? s)).map (·.withoutPos) = operations.map (·.withoutPos)

theorem membersReadFrom_operations {operations : List Operation} {ts : List Token}
    (h : Each (Operation.IsReadFrom s) operations ts) : MembersReadFrom s [] operations ts := by
  induction operations generalizing ts with
  | nil => exact ⟨[], h ▸ .nil .none, by simp, rfl, rfl⟩
  | cons o operations ih =>
    rcases h with ⟨ts₁, ts₂, rfl, ⟨m, o', hm, hvalid, ho', hsame⟩, hrest⟩
    rcases ih hrest with ⟨members, hderive, hvalidAll, hattributes, hoperations⟩
    have hnone : m.attribute? s = none := by
      rcases m with _ | _
      . cases ho'
      . rfl
    refine ⟨m :: members, .cons hm hderive, ?_, ?_, ?_⟩
    . exact List.forall_mem_cons.2 ⟨hvalid, hvalidAll⟩
    . rw [List.filterMap_cons_none hnone, hattributes]
    . rw [List.filterMap_cons_some ho', List.map_cons, List.map_cons, hsame, hoperations]

theorem membersReadFrom_append {attributes : List Attribute} {operations : List Operation}
    {ts ts' : List Token} (h : Each (Attribute.IsReadFrom s) attributes ts)
    (h' : MembersReadFrom s [] operations ts') :
    MembersReadFrom s attributes operations (ts ++ ts') := by
  induction attributes generalizing ts with
  | nil =>
    rw [show ts = [] from h]
    exact h'
  | cons a attributes ih =>
    rcases h with ⟨ts₁, ts₂, rfl, ⟨m, a', hm, hvalid, ha', hsame⟩, hrest⟩
    rcases ih hrest with ⟨members, hderive, hvalidAll, hattributes, hoperations⟩
    have hnone : m.operation? s = none := by
      rcases m with _ | _
      . rfl
      . cases ha'
    refine ⟨m :: members, List.append_assoc .. ▸ .cons hm hderive, ?_, ?_, ?_⟩
    . exact List.forall_mem_cons.2 ⟨hvalid, hvalidAll⟩
    . rw [List.filterMap_cons_some ha', List.map_cons, List.map_cons, hsame, hattributes]
    . rw [List.filterMap_cons_none hnone, hoperations]

theorem itemDerives_of_parts {attrs : List ExtAttr} {isPartial : Bool} {kind name : String}
    {base : Option String} {body : Body} {ts₁ ts₂ ts₃ : List Token}
    (hhead : ReadsHead attrs isPartial kind name base ts₁) (hbody : BodyDerives kind ts₂ body)
    (hend : Then (Single (.op '}')) (Single (.op ';')) ts₃) :
    ∃ attrs' q, ItemDerives (ts₁ ++ ts₂ ++ ts₃) ⟨attrs', isPartial, ⟨name, q⟩, base, body⟩ ∧
      attrs'.map (·.withoutPos) = attrs.map (·.withoutPos) := by
  rcases hhead with ⟨us₁, us₂, us₃, attrs', p, q, r, rfl, hblock, hsame, hpartial, hbase⟩
  rcases hend with ⟨_, _, rfl, ⟨u, rfl⟩, ⟨v, rfl⟩⟩
  have hitem := @ItemDerives.intro us₁ us₂ us₃ ts₂ attrs' isPartial kind base body p r u v ⟨name, q⟩
    hblock hpartial hbase hbody
  exact ⟨attrs', q, by simpa [Name.token] using hitem, hsame⟩

end Lexer

namespace Declaration

variable {s : Schema}

theorem readsLines_enum {e : Enum} (h : Rereads s (.enum e)) (hplain : PlainArgs (.enum e)) :
    ReadsLines e.lines (ReadsItem s (.enum e)) := by
  rcases e with ⟨⟨name, pos, isPartial, attrs, values⟩, items⟩
  rcases h with ⟨⟨hname, hattrs, haccepts, hvalues⟩, hpartial, hitems⟩
  dsimp only at hname hattrs haccepts hvalues hpartial hitems
  subst hvalues hpartial
  have hkind : IsIdent "enum" := isIdent_of_chars rfl rfl rfl
  have hplainAttrs : ExtAttr.PlainArgs attrs := hplain attrs (List.mem_singleton.2 rfl)
  have hhead := @reads_head attrs false "enum" name none hattrs hplainAttrs hkind hname (by simp)
  have hlines : Enum.lines ⟨⟨name, pos, false, attrs, s.valuesOf .enum attrs⟩, items⟩ =
      [ExtAttr.blockText attrs ++ markText false ++ ("enum" ++ " ") ++ name ++ baseText none ++
        " \x7b"] ++ Enum.itemLines items ++ ["\x7d;"] := by
    simp [Enum.lines, markText, baseText]
  rw [hlines]
  refine ((hhead.append (reads_itemLines items)).append reads_end).imp ?_
  rintro _ ⟨_, ts₃, rfl, ⟨ts₁, ts₂, rfl, hread, hderive⟩, hend⟩
  rcases itemDerives_of_parts hread (.enum hderive) hend with ⟨attrs', q, hitem, hsame⟩
  have haccepts' := (Schema.accepts_congr hsame).2 haccepts
  refine ⟨_, hitem, ⟨fun _ => rfl, ?_⟩, ?_⟩
  . exact List.forall_mem_singleton.2 haccepts'
  -- Empty items are not declared, but none was written.
  . have hfilter : items.filter (· ≠ "") = items := by
      simpa using hitems
    simp only [Item.declaration, withoutPos, Header.withoutPos, hsame, hfilter,
      Schema.valuesOf_congr hsame haccepts']

theorem readsLines_interface {i : Interface} (h : Rereads s (.interface i))
    (hplain : PlainArgs (.interface i)) :
    ReadsLines i.lines (ReadsItem s (.interface i)) := by
  rcases i with ⟨⟨name, pos, isPartial, attrs, values⟩, base, attributes, operations⟩
  rcases h with ⟨⟨hname, hattrs, haccepts, hvalues⟩, hbase, hattributes, hoperations⟩
  dsimp only at hname hattrs haccepts hvalues hbase hattributes hoperations
  subst hvalues
  have hkind : IsIdent "interface" := isIdent_of_chars rfl rfl rfl
  have hplainAttrs : ExtAttr.PlainArgs attrs := hplain attrs List.mem_cons_self
  have hhead :=
    @reads_head attrs isPartial "interface" name base hattrs hplainAttrs hkind hname hbase
  have hattributeLines : ReadsLines (attributes.map fun a => "    " ++ a.line)
      (Each (Attribute.IsReadFrom s) attributes) :=
    readsLines_map fun a ha => reads_attributeLine (hattributes a ha)
      (hplain a.attrs (List.mem_append_left _ (List.mem_cons_of_mem _ (List.mem_map_of_mem ha))))
  have hoperationLines : ReadsLines (operations.map fun o => "    " ++ o.line)
      (Each (Operation.IsReadFrom s) operations) := by
    refine readsLines_map fun o ho => reads_operationLine (hoperations o ho) (hplain o.attrs ?_)
      fun a ha => hplain a.attrs ?_
    . exact List.mem_append_right _ (List.mem_flatMap.2 ⟨o, ho, List.mem_cons_self⟩)
    . exact List.mem_append_right _
        (List.mem_flatMap.2 ⟨o, ho, List.mem_cons_of_mem _ (List.mem_map_of_mem ha)⟩)
  have hlines : Interface.lines ⟨⟨name, pos, isPartial, attrs, s.valuesOf .interface attrs⟩, base,
      attributes, operations⟩ =
      [ExtAttr.blockText attrs ++ markText isPartial ++ ("interface" ++ " ") ++ name ++
        baseText base ++ " \x7b"] ++ ((attributes.map fun a => "    " ++ a.line) ++
          operations.map fun o => "    " ++ o.line) ++ ["\x7d;"] := by
    cases base <;> simp [Interface.lines, Interface.firstLine, markText, baseText]
  rw [hlines]
  refine ((hhead.append (hattributeLines.append hoperationLines)).append reads_end).imp ?_
  rintro _ ⟨_, ts₃, rfl, ⟨ts₁, _, rfl, hread, ⟨us₁, us₂, rfl, hus₁, hus₂⟩⟩, hend⟩
  rcases membersReadFrom_append hus₁ (membersReadFrom_operations hus₂) with
    ⟨members, hderive, hvalid, hsameAttributes, hsameOperations⟩
  rcases itemDerives_of_parts hread (.interface hderive) hend with ⟨attrs', q, hitem, hsame⟩
  have haccepts' := (Schema.accepts_congr hsame).2 haccepts
  refine ⟨_, hitem, ⟨?_, ?_⟩, ?_⟩
  . rintro ⟨items, hbody⟩
    cases hbody
  . intro a ha
    rcases List.mem_cons.1 ha with rfl | ha
    . exact haccepts'
    . rcases List.mem_flatMap.1 ha with ⟨m, hm, ha⟩
      exact hvalid m hm a ha
  . simp only [Item.declaration, withoutPos, Header.withoutPos, hsame, hsameAttributes,
      hsameOperations, Schema.valuesOf_congr hsame haccepts']

theorem readsLines_of_rereads {d : Declaration} (h : d.Rereads s) (hplain : d.PlainArgs) :
    ReadsLines d.lines (d.ReadsItem s) := by
  cases d with
  | enum e => exact readsLines_enum h hplain
  | interface i => exact readsLines_interface h hplain

end Declaration

end IdlCompiler
