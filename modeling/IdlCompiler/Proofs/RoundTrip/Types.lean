import IdlCompiler.Proofs.Grammar.Derivation
import IdlCompiler.Proofs.RoundTrip.Spelling

/-!
This module contains the proof that the text of a type is read as that type.
-/

namespace IdlCompiler

namespace Lexer

theorem endsWord_of_cons {b : String} {c : Char} {cs : List Char} (hb : b.toList = c :: cs)
    (hc : isIdentChar c = false) (rest : List Char) : EndsWord (b.toList ++ rest) := by
  intro d hd
  rw [hb, List.cons_append, List.head?_cons, Option.mem_some_iff] at hd
  rw [← hd, hc]

theorem reads_comma : Reads Anything ", " (Single (.op ',')) := by
  have h := (reads_op ',' (by decide)).append reads_blank fun _ _ => trivial
  refine h.imp ?_
  rintro _ ⟨_, _, rfl, ⟨p, rfl⟩, rfl⟩
  exact ⟨p, rfl⟩

theorem reads_word {word : String} (h : IsIdent word) :
    Reads Anything (word ++ " ") (Single (.ident word)) := by
  refine ((reads_ident h).append reads_blank fun rest _ => endsWord_of_cons rfl rfl rest).imp ?_
  rintro _ ⟨_, _, rfl, ⟨p, rfl⟩, rfl⟩
  exact ⟨p, rfl⟩

theorem reads_angles {name text : String} {P : List Token → Prop} (hname : IsIdent name)
    (h : Reads EndsWord text P) :
    Reads EndsWord (name ++ "<" ++ text ++ ">") fun ts =>
      ∃ p q ts' r, ts = ⟨.ident name, p⟩ :: ⟨.op '<', q⟩ :: ts' ++ [⟨.op '>', r⟩] ∧ P ts' := by
  have hopen := (reads_ident hname).append (reads_op '<' (by decide))
    fun rest _ => endsWord_of_cons rfl rfl rest
  have hclose : Reads EndsWord ">" (Single (.op '>')) := (reads_op '>' (by decide)).weaken
  refine ((hopen.append h fun _ _ => trivial).append hclose
    fun rest _ => endsWord_of_cons rfl rfl rest).imp ?_
  rintro _ ⟨_, _, rfl, ⟨_, ts', rfl, ⟨_, _, rfl, ⟨p, rfl⟩, ⟨q, rfl⟩⟩, hP⟩, ⟨r, rfl⟩⟩
  exact ⟨p, q, ts', r, rfl, hP⟩

end Lexer

namespace Grammar

open Lexer

theorem TypesDerive.ne_nil {ts : List Token} {types : List IdlType} (h : TypesDerive ts types) :
    types ≠ [] := by
  cases h <;> simp

mutual

theorem TypeDerives.reads {ts : List Token} {t : IdlType} :
    TypeDerives ts t → (∀ token ∈ ts, token.lexeme.Spelled) →
      Reads EndsWord t.text (TypeDerives · t)
  | .simple hfree, hspelled => by
    refine (reads_ident (hspelled _ (List.mem_singleton.2 rfl))).imp ?_
    rintro _ ⟨p, rfl⟩
    exact .simple hfree
  | .longLong, _ => by
    have hlong : IsIdent "long" := isIdent_of_chars rfl rfl rfl
    refine ((reads_word hlong).append (reads_ident hlong) fun _ _ => trivial).imp ?_
    rintro _ ⟨_, _, rfl, ⟨p, rfl⟩, ⟨q, rfl⟩⟩
    exact .longLong
  | .optional h hnot, hspelled => by
    have helem := h.reads fun token ht => hspelled token (List.mem_append_left _ ht)
    have hmark : Reads EndsWord "?" (Single (.op '?')) := (reads_op '?' (by decide)).weaken
    rw [IdlType.text]
    refine (helem.append hmark fun rest _ => endsWord_of_cons rfl rfl rest).imp ?_
    rintro _ ⟨ts, _, rfl, hderives, ⟨p, rfl⟩⟩
    exact .optional hderives hnot
  | .sequence h, hspelled => by
    have hname : IsIdent "sequence" := isIdent_of_chars rfl rfl rfl
    have helem := h.reads fun token ht => hspelled token (by simp [ht])
    rw [IdlType.text]
    refine (reads_angles hname helem).imp ?_
    rintro _ ⟨p, q, ts, r, rfl, hderives⟩
    exact .sequence hderives
  | .union h, hspelled => by
    have hname : IsIdent "union" := isIdent_of_chars rfl rfl rfl
    have hmembers := h.reads fun token ht => hspelled token (by simp [ht])
    rw [IdlType.text]
    refine (reads_angles hname hmembers).imp ?_
    rintro _ ⟨p, q, ts, r, rfl, hderives⟩
    exact .union hderives
  | @TypeDerives.record _ _ key value _ _ _ _ hkey hvalue, hspelled => by
    have hname : IsIdent "record" := isIdent_of_chars rfl rfl rfl
    have hkey := hkey.reads fun token ht => hspelled token (by simp [ht])
    have hvalue := hvalue.reads fun token ht => hspelled token (by simp [ht])
    have hfirst := hkey.append reads_comma fun rest _ => endsWord_of_cons rfl rfl rest
    have hinner := hfirst.append hvalue fun _ _ => trivial
    have htext : (IdlType.record key value).text =
        "record" ++ "<" ++ (key.text ++ ", " ++ value.text) ++ ">" := by
      rw [IdlType.text, ← String.append_assoc, ← String.append_assoc]
      rfl
    rw [htext]
    refine (reads_angles hname hinner).imp ?_
    rintro _ ⟨p, q, _, u, rfl, ⟨_, ts', rfl, ⟨ts, _, rfl, hkeyDerives, ⟨r, rfl⟩⟩, hvalueDerives⟩⟩
    simpa using TypeDerives.record (p := p) (q := q) (r := r) (u := u) hkeyDerives hvalueDerives
  | .generic hfree hlong h, hspelled => by
    have hargs := h.reads fun token ht => hspelled token (by simp [ht])
    rw [IdlType.text]
    refine (reads_angles (hspelled _ List.mem_cons_self) hargs).imp ?_
    rintro _ ⟨p, q, ts, r, rfl, hderives⟩
    exact .generic hfree hlong hderives

theorem TypesDerive.reads {ts : List Token} {types : List IdlType} :
    TypesDerive ts types → (∀ token ∈ ts, token.lexeme.Spelled) →
      Reads EndsWord (", ".intercalate (IdlType.texts types)) (TypesDerive · types)
  | .last h, hspelled => by
    rw [IdlType.texts, IdlType.texts, String.intercalate_singleton]
    exact (h.reads hspelled).imp fun _ => .last
  | @TypesDerive.more _ _ _ types _ h hmore, hspelled => by
    have hfirst := h.reads fun token ht => hspelled token (by simp [ht])
    have hrest := hmore.reads fun token ht => hspelled token (by simp [ht])
    have hne : IdlType.texts types ≠ [] := by
      rw [IdlType.texts_eq_map, ne_eq, List.map_eq_nil_iff]
      exact hmore.ne_nil
    rw [IdlType.texts, String.intercalate_cons_of_ne_nil hne]
    refine ((hfirst.append reads_comma fun rest _ => endsWord_of_cons rfl rfl rest).append hrest
      fun _ _ => trivial).imp ?_
    rintro _ ⟨_, ts', rfl, ⟨ts, _, rfl, hderives, ⟨p, rfl⟩⟩, hmoreDerive⟩
    simpa using TypesDerive.more (p := p) hderives hmoreDerive

end

end Grammar

end IdlCompiler
