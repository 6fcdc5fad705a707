import IdlCompiler.Proofs.Template.Lines

/-!
This module contains the paths that template texts can spell. Their names have no dots, so a path is
known by its text, and all paths of the directives of a text are of this kind.
-/

namespace IdlCompiler.Template

theorem not_mem_of_mem_splitOn {c : Char} {cs part : List Char} (h : part ∈ cs.splitOn c) :
    c ∉ part := by
  induction cs generalizing part with
  | nil =>
    rw [List.splitOn_nil, List.mem_singleton] at h
    simp [h]
  | cons d cs ih =>
    rw [List.splitOn_cons_eq_if_modifyHead] at h
    split at h
    . rcases List.mem_cons.1 h with rfl | hrest
      . simp
      . exact ih hrest
    . next hne =>
      rcases hsplit : cs.splitOn c with _ | ⟨first, rest⟩
      . exact absurd hsplit (List.splitOn_ne_nil c cs)
      . rw [hsplit, List.modifyHead_cons] at h
        rw [hsplit] at ih
        rcases List.mem_cons.1 h with rfl | hrest
        . have hfirst := ih List.mem_cons_self
          intro hmem
          rcases List.mem_cons.1 hmem with rfl | hmem
          . simp at hne
          . exact hfirst hmem
        . exact ih (List.mem_cons_of_mem _ hrest)

theorem mem_of_mem_trim {c : Char} {cs : List Char} (h : c ∈ Text.trim cs) : c ∈ cs := by
  unfold Text.trim Text.trimRight at h
  rw [List.mem_reverse] at h
  have hend := (List.dropWhile_sublist _).subset h
  rw [List.mem_reverse] at hend
  exact (List.dropWhile_sublist _).subset hend

def Path.Spelled (path : Path) : Prop :=
  path ≠ [] ∧ ∀ name ∈ path, '.' ∉ name.toList

theorem Path.spelled_ofChars (cs : List Char) : (Path.ofChars cs).Spelled := by
  unfold Path.ofChars
  constructor
  . simp
  . intro name hname
    rcases List.mem_map.1 hname with ⟨part, hpart, rfl⟩
    rw [String.toList_ofList]
    intro hdot
    exact not_mem_of_mem_splitOn hpart (mem_of_mem_trim hdot)

theorem Path.Spelled.eq_of_text_eq {p q : Path} (hp : p.Spelled) (hq : q.Spelled)
    (h : p.text = q.text) : p = q := by
  have hsplit {path : Path} (hpath : path.Spelled) :
      path.text.toList.splitOn '.' = path.map String.toList := by
    unfold Path.text
    rw [String.toList_intercalate]
    apply List.splitOn_intercalate
    . intro l hl
      rcases List.mem_map.1 hl with ⟨name, hname, rfl⟩
      exact hpath.2 name hname
    . simpa using hpath.1
  have hlists : p.map String.toList = q.map String.toList := by
    rw [← hsplit hp, ← hsplit hq, h]
  exact List.map_inj_right (fun _ _ => String.toList_inj.1) |>.1 hlists

def Directive.Spelled : Directive → Prop
  | .enter _ path => path.Spelled
  | .leave path => path.Spelled
  | .emit path => path.Spelled
  | _ => True

theorem Directive.spelled_ofChars (cs : List Char) : (Directive.ofChars cs).Spelled := by
  unfold Directive.ofChars
  split
  . trivial
  . split <;> exact Path.spelled_ofChars _

theorem Directive.spelled_of_mem_literals {cs : List Char} {d : Directive}
    (h : d ∈ Directive.literals cs) : d.Spelled := by
  unfold Directive.literals at h
  split at h
  . simp at h
  . rw [List.mem_singleton] at h
    subst h
    trivial

theorem Directive.spelled_of_ofChunk {chunk : List Char} {ds : List Directive}
    (h : Directive.ofChunk chunk = .ok ds) : ∀ d ∈ ds, d.Spelled := by
  unfold Directive.ofChunk at h
  split at h
  . cases h
  . next inner rest _ =>
    have hspelled := Directive.spelled_ofChars inner
    split at h
    . cases h
      simp [Directive.Spelled]
    . cases h
      intro d hd
      rcases List.mem_cons.1 hd with rfl | hliteral
      . exact hspelled
      . exact Directive.spelled_of_mem_literals hliteral

theorem Directive.spelled_of_ofLine {cs : List Char} {ds : List Directive}
    (h : Directive.ofLine cs = .ok ds) : ∀ d ∈ ds, d.Spelled := by
  obtain ⟨before, hsplit⟩ := Directive.exists_splitAt_eq_cons cs
  rw [Directive.ofLine_eq hsplit] at h
  rcases Except.bind_eq_ok_iff.1 h with ⟨parts, hparts, hds⟩
  cases hds
  intro d hd
  rcases List.mem_append.1 hd with hliteral | hpart
  . exact Directive.spelled_of_mem_literals hliteral
  . rcases List.mem_flatten.1 hpart with ⟨part, hmem, hd⟩
    have hmap : .ok part ∈ (Directive.chunks cs).map Directive.ofChunk := by
      rw [Except.mapM_eq_ok_iff.1 hparts]
      exact List.mem_map_of_mem hmem
    rcases List.mem_map.1 hmap with ⟨chunk, -, hchunk⟩
    exact Directive.spelled_of_ofChunk hchunk d hd

theorem Located.spelled_of_ofLines {line : Nat} {css : List (List Char)} {ls : List Located}
    (h : Located.ofLines line css = .ok ls) : ∀ l ∈ ls, l.directive.Spelled := by
  induction css generalizing line ls with
  | nil =>
    cases h
    simp
  | cons cs css ih =>
    obtain ⟨ds, hds, ⟨rfl, rfl⟩ | ⟨-, rest, hrest, rfl⟩⟩ := Located.exists_of_ofLines_cons h
    . simpa using Directive.spelled_of_ofLine hds
    . simp only [List.forall_mem_append, List.forall_mem_cons, List.forall_mem_map]
      exact ⟨Directive.spelled_of_ofLine hds, trivial, ih hrest⟩

theorem Located.spelled_of_ofText {text : String} {ls : List Located}
    (h : Located.ofText text = .ok ls) : ∀ l ∈ ls, l.directive.Spelled :=
  Located.spelled_of_ofLines h

end IdlCompiler.Template
