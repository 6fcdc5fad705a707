import IdlCompiler.Proofs.Grammar.Lexemes

/-!
This module contains where source files end: no part of a file has a token for the end of the file
in it, so the first such token is behind all parts.
-/

namespace IdlCompiler

/--
The tokens up to the first that stands for the end of the file, which is at `eof` if no other says
so.
-/
def TokenStream.upToEnd (eof : Pos) : List Token → List Token
  | [] => [⟨.eof, eof⟩]
  | t :: ts => if t.lexeme = .eof then [t] else t :: upToEnd eof ts

namespace Grammar

abbrev EofFree (ts : List Token) : Prop :=
  Only (· ≠ .eof) ts

variable {ts ts' : List Token}

theorem EofFree.upToEnd_append (h : EofFree ts) (eof : Pos) (rest : List Token) :
    TokenStream.upToEnd eof (ts ++ rest) = ts ++ TokenStream.upToEnd eof rest := by
  induction ts with
  | nil => rfl
  | cons t ts ih =>
    obtain ⟨hne, hfree⟩ := only_cons.1 h
    simp [TokenStream.upToEnd, hne, ih hfree]

theorem EofFree.exists_of_upToEnd_eq_append (h : EofFree ts) {eof : Pos} {all : List Token}
    (heq : TokenStream.upToEnd eof all = ts ++ ts') :
    ∃ rest, all = ts ++ rest ∧ TokenStream.upToEnd eof rest = ts' := by
  induction ts generalizing all with
  | nil => exact ⟨all, rfl, heq⟩
  | cons t ts ih =>
    obtain ⟨hne, hfree⟩ := only_cons.1 h
    cases all with
    | nil =>
      simp only [TokenStream.upToEnd, List.cons_append, List.cons.injEq] at heq
      exact absurd (heq.1 ▸ rfl) hne
    | cons t' all =>
      unfold TokenStream.upToEnd at heq
      split at heq
      . next hend =>
        rw [List.cons_append, List.cons.injEq] at heq
        exact absurd (heq.1 ▸ hend) hne
      . rw [List.cons_append, List.cons.injEq] at heq
        rcases ih hfree heq.2 with ⟨rest, rfl, hrest⟩
        exact ⟨rest, by rw [heq.1, List.cons_append], hrest⟩

theorem BlockDerives.eofFree {attrs : List ExtAttr} (h : BlockDerives ts attrs) : EofFree ts := by
  cases h with
  | none => simp
  | some h => simp [h.only (by simp) fun _ _ => AttrDerives.only inner_ne_eof]

theorem ParamDerives.eofFree {param : Param} (h : ParamDerives ts param) : EofFree ts := by
  rcases h with ⟨h, h'⟩
  simp [h.eofFree, h'.only inner_ne_eof]

theorem ParamsDerive.eofFree {params : List Param} {dangling : List ExtAttr}
    (h : ParamsDerive ts params dangling) : EofFree ts := by
  induction h with
  | none h => exact h.eofFree
  | last h => exact h.eofFree
  | more h _ ih => simp [h.eofFree, ih]

theorem MemberDerives.eofFree {member : MemberDecl} (h : MemberDerives ts member) : EofFree ts := by
  rcases h with ⟨h, h'⟩ | ⟨h, h', _, h''⟩
  . simp [h.eofFree, h'.only inner_ne_eof]
  . simp [h.eofFree, h'.only inner_ne_eof, h''.eofFree]

theorem MembersDerive.eofFree {members : List MemberDecl} {dangling : List ExtAttr}
    (h : MembersDerive ts members dangling) : EofFree ts := by
  induction h with
  | nil h => exact h.eofFree
  | cons h _ ih => simp [h.eofFree, ih]

theorem BodyDerives.eofFree {kind : String} {body : Body} (h : BodyDerives kind ts body) :
    EofFree ts := by
  cases h with
  | enum h => exact h.only inner_ne_eof
  | interface h => exact h.eofFree

theorem ItemDerives.eofFree {item : Item} (h : ItemDerives ts item) : EofFree ts := by
  rcases h with ⟨hattrs, hpartial, hbase, hbody⟩
  simp [Name.token, hattrs.eofFree, hpartial.only inner_ne_eof, hbase.only inner_ne_eof,
    hbody.eofFree]

end Grammar

end IdlCompiler
