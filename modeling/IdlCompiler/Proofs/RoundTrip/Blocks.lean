import IdlCompiler.Proofs.RoundTrip.Positions
import IdlCompiler.Proofs.RoundTrip.Types

/-!
This module contains the proof that the text of extended attributes is read as these extended
attributes.
-/

namespace IdlCompiler

open Lexer Grammar

/--
A string can be written between quotes without escapes.
-/
def Lexeme.Plain : Lexeme → Prop
  | .string value => '\x22' ∉ value.toList ∧ '\\' ∉ value.toList ∧ '\n' ∉ value.toList
  | _ => True

def ExtAttr.PlainArgs (attrs : List ExtAttr) : Prop :=
  ∀ a ∈ attrs, ∀ arg ∈ a.args, arg.Plain

structure ExtAttr.Spelled (a : ExtAttr) : Prop where
  name : IsIdent a.name.text
  args : ∀ arg ∈ a.args, IsLiteral arg ∧ arg.Spelled

namespace Grammar

variable {ts : List Token}

theorem SepBy.forall_mem {α : Type} {Derives : List Token → α → Prop} {as : List α} {Q : α → Prop}
    (hQ : ∀ ts a, Derives ts a → (∀ t ∈ ts, t.lexeme.Spelled) → Q a) (h : SepBy Derives ts as)
    (hspelled : ∀ t ∈ ts, t.lexeme.Spelled) : ∀ a ∈ as, Q a := by
  induction h with
  | last h =>
    intro a ha
    rw [List.mem_singleton.1 ha]
    exact hQ _ _ h hspelled
  | more h _ ih =>
    intro a ha
    rcases List.mem_cons.1 ha with rfl | ha
    . exact hQ _ _ h fun t ht => hspelled t (by simp [ht])
    . exact ih (fun t ht => hspelled t (by simp [ht])) a ha

theorem LiteralDerives.spelled {lexeme : Lexeme} (h : LiteralDerives ts lexeme)
    (hspelled : ∀ t ∈ ts, t.lexeme.Spelled) : IsLiteral lexeme ∧ lexeme.Spelled := by
  rcases h with ⟨hliteral⟩
  exact ⟨hliteral, hspelled _ (List.mem_singleton.2 rfl)⟩

theorem AttrDerives.spelled {a : ExtAttr} (h : AttrDerives ts a)
    (hspelled : ∀ t ∈ ts, t.lexeme.Spelled) : a.Spelled := by
  cases h with
  | bare => exact ⟨hspelled _ List.mem_cons_self, by simp⟩
  | equals harg =>
    refine ⟨hspelled _ List.mem_cons_self, ?_⟩
    intro arg ha
    rw [List.mem_singleton.1 ha]
    exact harg.spelled fun t ht => hspelled t (by simp [ht])
  | parens hargs =>
    exact ⟨hspelled _ List.mem_cons_self,
      hargs.forall_mem (fun _ _ h => h.spelled) fun t ht => hspelled t (by simp [ht])⟩

theorem BlockDerives.spelled {attrs : List ExtAttr} (h : BlockDerives ts attrs)
    (hspelled : ∀ t ∈ ts, t.lexeme.Spelled) : ∀ a ∈ attrs, a.Spelled := by
  cases h with
  | none => simp
  | some h => exact h.forall_mem (fun _ _ h => h.spelled) fun t ht => hspelled t (by simp [ht])

end Grammar

namespace Lexer

theorem reads_description {lexeme : Lexeme} (hliteral : IsLiteral lexeme)
    (hspelled : lexeme.Spelled) (hplain : lexeme.Plain) :
    Reads EndsWord lexeme.description (Single lexeme) := by
  cases lexeme with
  | ident name => exact reads_ident hspelled
  | number digits => exact reads_number hspelled
  | string value => exact (reads_quoted hplain.1 hplain.2.1 hplain.2.2).weaken
  | op char => cases hliteral
  | eof => cases hliteral

theorem reads_intercalate {α β γ : Type} {text : α → String} {Derives : List Token → β → Prop}
    {key : β → γ} {key' : α → γ} {xs : List α} (hne : xs ≠ [])
    (h : ∀ x ∈ xs, Reads EndsWord (text x) fun ts => ∃ y, Derives ts y ∧ key y = key' x) :
    Reads EndsWord (", ".intercalate (xs.map text)) fun ts =>
      ∃ ys, SepBy Derives ts ys ∧ ys.map key = xs.map key' := by
  induction xs with
  | nil => exact absurd rfl hne
  | cons x xs ih =>
    have hfirst := h x List.mem_cons_self
    by_cases hxs : xs = []
    . subst hxs
      rw [List.map_singleton, String.intercalate_singleton]
      refine hfirst.imp ?_
      rintro ts ⟨y, hderives, hkey⟩
      exact ⟨[y], .last hderives, by simp [hkey]⟩
    . have hrest := ih hxs fun y hy => h y (List.mem_cons_of_mem _ hy)
      rw [List.map_cons, String.intercalate_cons_of_ne_nil (by simpa using hxs)]
      refine ((hfirst.append reads_comma fun rest _ => endsWord_of_cons rfl rfl rest).append hrest
        fun _ _ => trivial).imp ?_
      rintro _ ⟨_, ts', rfl, ⟨ts, _, rfl, ⟨y, hderives, hkey⟩, ⟨p, rfl⟩⟩, ⟨ys, hsep, hkeys⟩⟩
      refine ⟨y :: ys, ?_, by simp [hkey, hkeys]⟩
      simpa using SepBy.more (p := p) hderives hsep

def ReadsAttr (a : ExtAttr) (ts : List Token) : Prop :=
  ∃ a', AttrDerives ts a' ∧ a'.withoutPos = a.withoutPos

theorem reads_attr {a : ExtAttr} (ha : a.Spelled) (hplain : ∀ arg ∈ a.args, arg.Plain) :
    Reads EndsWord a.text (ReadsAttr a) := by
  rcases a with ⟨⟨name, pos⟩, args⟩
  have hname : Reads EndsWord name (Single (.ident name)) := reads_ident ha.name
  have harg (arg : Lexeme) (h : arg ∈ args) : Reads EndsWord arg.description (Single arg) :=
    reads_description (ha.args arg h).1 (ha.args arg h).2 (hplain arg h)
  unfold ExtAttr.text
  split
  . next hargs =>
    refine hname.imp ?_
    rintro _ ⟨p, rfl⟩
    exact ⟨⟨⟨name, p⟩, []⟩, @AttrDerives.bare ⟨name, p⟩, by rw [← hargs]; rfl⟩
  . next arg hargs =>
    have hmem : arg ∈ args := by
      rw [show args = [arg] from hargs]
      exact List.mem_singleton.2 rfl
    have hequals := hname.append (reads_op '=' (by decide))
      fun rest _ => endsWord_of_cons rfl rfl rest
    refine (hequals.append (harg arg hmem) fun _ _ => trivial).imp ?_
    rintro _ ⟨_, _, rfl, ⟨_, _, rfl, ⟨p, rfl⟩, ⟨q, rfl⟩⟩, ⟨r, rfl⟩⟩
    exact ⟨⟨⟨name, p⟩, [arg]⟩, @AttrDerives.equals ⟨name, p⟩ _ _ _ (.intro (ha.args arg hmem).1),
      by rw [← hargs]; rfl⟩
  . next hnil _ =>
    have hopen := hname.append (reads_op '(' (by decide))
      fun rest _ => endsWord_of_cons rfl rfl rest
    have hclose : Reads EndsWord ")" (Single (.op ')')) := (reads_op ')' (by decide)).weaken
    have hargs : Reads EndsWord (", ".intercalate (args.map Lexeme.description)) fun ts =>
        ∃ args', SepBy LiteralDerives ts args' ∧ args'.map id = args.map id := by
      refine reads_intercalate hnil ?_
      intro arg h
      refine (harg arg h).imp ?_
      rintro _ ⟨p, rfl⟩
      exact ⟨arg, .intro (ha.args arg h).1, rfl⟩
    refine ((hopen.append hargs fun _ _ => trivial).append hclose
      fun rest _ => endsWord_of_cons rfl rfl rest).imp ?_
    rintro _ ⟨_, _, rfl, ⟨_, ts, rfl, ⟨_, _, rfl, ⟨p, rfl⟩, ⟨q, rfl⟩⟩, ⟨args', hsep, hargs'⟩⟩,
      ⟨r, rfl⟩⟩
    simp only [List.map_id] at hargs'
    subst hargs'
    exact ⟨⟨⟨name, p⟩, args'⟩, @AttrDerives.parens ⟨name, p⟩ _ _ _ _ hsep, rfl⟩

def ReadsBlock (attrs : List ExtAttr) (ts : List Token) : Prop :=
  ∃ attrs', BlockDerives ts attrs' ∧ attrs'.map (·.withoutPos) = attrs.map (·.withoutPos)

theorem reads_brackets {attrs : List ExtAttr} (hne : attrs ≠ []) (hattrs : ∀ a ∈ attrs, a.Spelled)
    (hplain : ExtAttr.PlainArgs attrs) :
    Reads Anything ("[" ++ ", ".intercalate (attrs.map ExtAttr.text) ++ "]") (ReadsBlock attrs) := by
  have hinner : Reads EndsWord (", ".intercalate (attrs.map ExtAttr.text)) fun ts =>
      ∃ attrs', SepBy AttrDerives ts attrs' ∧
        attrs'.map (·.withoutPos) = attrs.map (·.withoutPos) :=
    reads_intercalate hne fun b hb => reads_attr (hattrs b hb) (hplain b hb)
  refine (((reads_op '[' (by decide)).append hinner fun _ _ => trivial).append
    (reads_op ']' (by decide)) fun rest _ => endsWord_of_cons rfl rfl rest).imp ?_
  rintro _ ⟨_, _, rfl, ⟨_, ts, rfl, ⟨p, rfl⟩, ⟨attrs', hsep, hattrs'⟩⟩, ⟨q, rfl⟩⟩
  exact ⟨attrs', .some hsep, hattrs'⟩

theorem blockText_cons (a : ExtAttr) (attrs : List ExtAttr) :
    ExtAttr.blockText (a :: attrs) =
      "[" ++ ", ".intercalate ((a :: attrs).map ExtAttr.text) ++ "]" ++ " " := by
  rw [String.append_assoc]
  rfl

theorem reads_blockText {attrs : List ExtAttr} (hattrs : ∀ a ∈ attrs, a.Spelled)
    (hplain : ExtAttr.PlainArgs attrs) :
    Reads Anything (ExtAttr.blockText attrs) (ReadsBlock attrs) := by
  cases attrs with
  | nil => exact reads_empty.imp fun ts hts => ⟨[], hts ▸ .none, rfl⟩
  | cons a attrs =>
    rw [blockText_cons]
    refine ((reads_brackets (by simp) hattrs hplain).append reads_blank fun _ _ => trivial).imp ?_
    rintro _ ⟨ts, _, rfl, hts, rfl⟩
    rw [List.append_nil]
    exact hts

end Lexer

end IdlCompiler
