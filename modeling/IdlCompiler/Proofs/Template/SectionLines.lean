import IdlCompiler.Proofs.Template.Lines
import IdlCompiler.Proofs.Template.Nesting
import IdlCompiler.Proofs.Template.Rendering
import IdlCompiler.Proofs.Text.Blank
import IdlCompiler.Proofs.Text.Lines
import Mathlib

/-!
This module contains sections whose start and end stand on lines of their own. These two lines leave
no trace: what is rendered are the lines between them, as often as the value of the section says,
and what stands above and below.
-/

namespace IdlCompiler.Template

open Directive

section Lines

structure BareLine (cs : List Char) : Prop where
  newline_not_mem : '\n' ∉ cs
  not_opening : ¬ openingBraces <:+: cs

theorem exists_bareLines {cs : List Char} (h : ¬ openingBraces <:+: cs) :
    ∃ (css : List (List Char)) (last : List Char),
      cs = css.flatMap (· ++ ['\n']) ++ last ∧ (∀ l ∈ css, BareLine l) ∧ BareLine last := by
  obtain ⟨css, last, rfl, hcss, hlast⟩ := Text.exists_lines cs
  refine ⟨css, last, rfl, ?_, ⟨hlast, ?_⟩⟩
  . intro l hl
    refine ⟨hcss l hl, ?_⟩
    intro hbraces
    apply h
    have hline : l ++ ['\n'] <:+: css.flatMap (· ++ ['\n']) := by
      rw [List.flatMap_def]
      apply List.infix_of_mem_flatten
      exact List.mem_map_of_mem hl
    exact hbraces.trans ((List.prefix_append _ _).isInfix.trans
      (hline.trans (List.prefix_append _ _).isInfix))
  . intro hbraces
    exact h (hbraces.trans (List.suffix_append _ _).isInfix)

theorem exists_bareLines_of_ended {cs : List Char} (h : ¬ openingBraces <:+: cs)
    (hended : cs = [] ∨ cs.getLast? = some '\n') :
    ∃ css : List (List Char), cs = css.flatMap (· ++ ['\n']) ∧ ∀ l ∈ css, BareLine l := by
  obtain ⟨css, last, rfl, hcss, hlast⟩ := exists_bareLines h
  have hnil : last = [] := by
    by_contra hne
    rcases hended with hempty | hnewline
    . exact hne (List.append_eq_nil_iff.1 hempty).2
    . rw [List.getLast?_append_of_ne_nil _ hne] at hnewline
      exact hlast.newline_not_mem (List.mem_of_getLast? hnewline)
  subst hnil
  exact ⟨css, List.append_nil _, hcss⟩

end Lines

section Nodes

def literalNodes (cs : List Char) : List Node :=
  if cs = [] then [] else [.literal (String.ofList cs)]

def endedNodes (css : List (List Char)) : List Node :=
  css.flatMap fun cs => literalNodes cs ++ [.lineEnd]

theorem endedNodes_cons (cs : List Char) (css : List (List Char)) :
    endedNodes (cs :: css) = literalNodes cs ++ .lineEnd :: endedNodes css := by
  unfold endedNodes
  rw [List.flatMap_cons, List.append_assoc, List.singleton_append]

theorem unfoldAll_literalNodes (cs : List Char) : unfoldAll (literalNodes cs) = literals cs := by
  unfold literalNodes literals
  split <;> rfl

theorem unfoldAll_endedNodes (css : List (List Char)) :
    unfoldAll (endedNodes css) = (css.map literals).flatMap (· ++ [.lineEnd]) := by
  induction css with
  | nil => rfl
  | cons cs css ih =>
    rw [endedNodes_cons, unfoldAll_append, unfoldAll_literalNodes, unfoldAll, ih, List.map_cons,
      List.flatMap_cons, List.append_assoc]
    rfl

variable (root : Value) (scope : Scope)

theorem textAll_lineEnd : textAll root scope [.lineEnd] = "\n" := rfl

theorem textAll_literalNodes (cs : List Char) :
    textAll root scope (literalNodes cs) = String.ofList cs := by
  unfold literalNodes
  split
  . next hcs =>
    rw [hcs]
    rfl
  . exact String.empty_append

theorem textAll_endedNodes (css : List (List Char)) :
    textAll root scope (endedNodes css) = String.ofList (css.flatMap (· ++ ['\n'])) := by
  induction css with
  | nil => rfl
  | cons cs css ih =>
    rw [endedNodes_cons, textAll_append, textAll_cons, textAll_literalNodes, textAll_lineEnd, ih,
      List.flatMap_cons, String.ofList_append, String.ofList_append, String.append_assoc]

end Nodes

section Layout

def Node.IsText : Node → Prop
  | .literal _ => True
  | .lineEnd => True
  | _ => False

theorem tidyAll_other {ns : List Node} (h : ∀ n ∈ ns, n.IsText) : tidyAll .other ns = ns := by
  induction ns with
  | nil => rfl
  | cons n ns ih =>
    rw [List.forall_mem_cons] at h
    rw [tidyAll]
    cases n with
    | literal text => exact congrArg _ (ih h.2)
    | lineEnd => exact congrArg _ (ih h.2)
    | _ => exact absurd h.1 id

theorem isText_of_mem_literalNodes {cs : List Char} : ∀ n ∈ literalNodes cs, n.IsText := by
  unfold literalNodes
  split
  . simp
  . simp [Node.IsText]

theorem isText_of_mem_endedNodes {css : List (List Char)} : ∀ n ∈ endedNodes css, n.IsText := by
  intro n hn
  obtain ⟨cs, -, hn⟩ := List.mem_flatMap.1 hn
  rcases List.mem_append.1 hn with hn | hn
  . exact isText_of_mem_literalNodes n hn
  . rw [List.mem_singleton] at hn
    rw [hn]
    trivial

theorem exists_tidyAll_append (before : Before) (xs : List Node) :
    ∃ after, ∀ ys, tidyAll before (xs ++ ys) = tidyAll before xs ++ tidyAll after ys := by
  induction xs generalizing before with
  | nil => exact ⟨before, fun _ => rfl⟩
  | cons n xs ih =>
    obtain ⟨after, hafter⟩ := ih (n.after before)
    refine ⟨after, ?_⟩
    intro ys
    rw [List.cons_append, tidyAll, hafter, tidyAll, List.append_assoc]

def withoutLeadingNewline (s : String) : String :=
  match s.toList with
  | '\n' :: cs => String.ofList cs
  | _ => s

theorem textAll_tidyAll_start (root : Value) (scope : Scope) {css : List (List Char)}
    (h : ∀ l ∈ css, '\n' ∉ l) :
    textAll root scope (tidyAll .start (endedNodes css)) =
      withoutLeadingNewline (String.ofList (css.flatMap (· ++ ['\n']))) := by
  unfold withoutLeadingNewline
  -- Only a line end can be dropped at the start, which is the one of a first line that is empty.
  match css with
  | [] => rfl
  | [] :: css =>
    have htidy : tidyAll .start (endedNodes ([] :: css)) = endedNodes css := by
      rw [endedNodes_cons]
      exact tidyAll_other isText_of_mem_endedNodes
    rw [htidy, textAll_endedNodes, List.flatMap_cons, String.toList_ofList]
    rfl
  | (c :: cs) :: css =>
    have htidy : tidyAll .start (endedNodes ((c :: cs) :: css)) =
        endedNodes ((c :: cs) :: css) := by
      have hrest : ∀ n ∈ Node.lineEnd :: endedNodes css, n.IsText :=
        List.forall_mem_cons.2 ⟨trivial, isText_of_mem_endedNodes⟩
      rw [endedNodes_cons]
      exact congrArg _ (tidyAll_other hrest)
    have hc : c ≠ '\n' := by
      rintro rfl
      exact h _ List.mem_cons_self List.mem_cons_self
    rw [htidy, textAll_endedNodes, List.flatMap_cons, String.toList_ofList, List.cons_append,
      List.cons_append]
    split
    . next heq => exact absurd (List.cons.inj heq).1 hc
    . rfl

end Layout

section Tags

def SectionKind.sign : SectionKind → Char
  | .each => '#'
  | .ifPresent => '?'
  | .ifAbsent => '^'

structure SectionName (name : String) : Prop where
  ne_empty : name ≠ ""
  dot_not_mem : '.' ∉ name.toList
  opening_not_mem : '{' ∉ name.toList
  closing_not_mem : '}' ∉ name.toList
  newline_not_mem : '\n' ∉ name.toList
  trimmed : Text.trim name.toList = name.toList

variable {name : String} (hname : SectionName name)

include hname

theorem SectionName.path_ofChars : Path.ofChars name.toList = [name] := by
  unfold Path.ofChars
  rw [List.splitOn_eq_singleton hname.dot_not_mem, List.map_singleton, hname.trimmed,
    String.ofList_toList]

theorem SectionName.ofChars_sign (kind : SectionKind) :
    ofChars (kind.sign :: name.toList) = .enter kind [name] := by
  have htrim : Text.trim (kind.sign :: name.toList) ≠ ['\\'] := by
    intro h
    have hhead := Text.head?_trim (c := kind.sign) name.toList (by cases kind <;> rfl)
    rw [h] at hhead
    cases kind <;> simp [SectionKind.sign] at hhead
  unfold ofChars
  rw [if_neg htrim]
  cases kind <;> exact congrArg _ hname.path_ofChars

theorem SectionName.ofChars_slash : ofChars ('/' :: name.toList) = .leave [name] := by
  have htrim : Text.trim ('/' :: name.toList) ≠ ['\\'] := by
    intro h
    have hhead := Text.head?_trim (c := '/') name.toList rfl
    rw [h] at hhead
    simp at hhead
  unfold ofChars
  rw [if_neg htrim]
  exact congrArg _ hname.path_ofChars

end Tags

def sectionLines (pre : String) (kind : SectionKind) (name body rest : String) : String :=
  pre ++ ("\x7b\x7b" ++ String.singleton kind.sign ++ name ++ "\x7d\x7d\n") ++ (body ++ "\n") ++
    ("\x7b\x7b/" ++ name ++ "\x7d\x7d\n") ++ rest

def copies (kind : SectionKind) (member : Option Value) : Nat :=
  match kind, member with
  | .each, some v =>
    match v.items? with
    | some items => items.length
    | none => if v.isTruthy then 1 else 0
  | .ifPresent, some v => if v.isTruthy then 1 else 0
  | .ifAbsent, some v => if v.isTruthy then 0 else 1
  | .ifAbsent, none => 1
  | _, none => 0

def startLine (kind : SectionKind) (name : String) : List Char :=
  openingBraces ++ (kind.sign :: name.toList ++ closingBraces)

def endLine (name : String) : List Char :=
  openingBraces ++ ('/' :: name.toList ++ closingBraces)

section Rendering

variable (above : List (List Char)) (kind : SectionKind) (name : String)
  (inside below : List (List Char)) (last : List Char)

def allLines : List (List Char) :=
  above ++ startLine kind name :: (inside ++ endLine name :: below)

def allDirectives : List (List Directive) :=
  above.map literals ++ [.enter kind [name]] ::
    (inside.map literals ++ [.leave [name]] :: below.map literals)

def allNodes : List Node :=
  endedNodes above ++ .block kind [name] (.lineEnd :: endedNodes inside) ::
    .lineEnd :: (endedNodes below ++ literalNodes last)

theorem unfoldAll_allNodes :
    unfoldAll (allNodes above kind name inside below last) =
      (allDirectives above kind name inside below).flatMap (· ++ [.lineEnd]) ++ literals last := by
  unfold allNodes allDirectives
  simp only [unfoldAll_append, unfoldAll, Node.unfold, unfoldAll_endedNodes,
    unfoldAll_literalNodes, List.flatMap_append, List.flatMap_cons, List.append_assoc,
    List.cons_append, List.nil_append]

theorem tidyAll_allNodes :
    tidyAll .start (allNodes above kind name inside below last) =
      tidyAll .start (endedNodes above) ++
        .block kind [name] (endedNodes inside) :: (endedNodes below ++ literalNodes last) := by
  obtain ⟨after, hafter⟩ := exists_tidyAll_append .start (endedNodes above)
  have hinside : tidyAll .start (.lineEnd :: endedNodes inside) = endedNodes inside :=
    tidyAll_other isText_of_mem_endedNodes
  have hbelow : tidyAll .block (.lineEnd :: (endedNodes below ++ literalNodes last)) =
      endedNodes below ++ literalNodes last := by
    apply tidyAll_other
    rw [List.forall_mem_append]
    exact ⟨isText_of_mem_endedNodes, isText_of_mem_literalNodes⟩
  unfold allNodes
  rw [hafter, tidyAll, Node.tidy, hinside, Node.after, hbelow]
  rfl

variable {above kind name inside below last}

theorem map_ofLine_of_bareLine {css : List (List Char)} (h : ∀ l ∈ css, BareLine l) :
    css.map ofLine = (css.map literals).map .ok := by
  rw [List.map_map]
  apply List.map_congr_left
  intro l hl
  exact ofLine_of_not_opening (h l hl).not_opening

theorem not_mem_sign_cons {sign c : Char} (hsign : sign ∈ ['#', '?', '^', '/'])
    (hc : c ∉ ['#', '?', '^', '/']) (h : c ∉ name.toList) : c ∉ sign :: name.toList := by
  apply List.not_mem_cons_of_ne_of_not_mem _ h
  rintro rfl
  exact hc hsign

variable (hname : SectionName name)

include hname

theorem SectionName.ofLine_tag {sign : Char} (hsign : sign ∈ ['#', '?', '^', '/']) :
    ofLine (openingBraces ++ (sign :: name.toList ++ closingBraces)) =
      .ok [ofChars (sign :: name.toList)] :=
  ofLine_braced (not_mem_sign_cons hsign (by decide) hname.opening_not_mem)
    (not_mem_sign_cons hsign (by decide) hname.closing_not_mem)

theorem SectionName.newline_not_mem_tag {sign : Char} (hsign : sign ∈ ['#', '?', '^', '/']) :
    '\n' ∉ openingBraces ++ (sign :: name.toList ++ closingBraces) := by
  have hnewline := not_mem_sign_cons hsign (c := '\n') (by decide) hname.newline_not_mem
  simp only [List.mem_append, not_or]
  exact ⟨by decide, hnewline, by decide⟩

theorem SectionName.ofLine_startLine (kind : SectionKind) :
    ofLine (startLine kind name) = .ok [.enter kind [name]] := by
  unfold startLine
  rw [hname.ofLine_tag (by cases kind <;> decide), hname.ofChars_sign]

theorem SectionName.ofLine_endLine : ofLine (endLine name) = .ok [.leave [name]] := by
  unfold endLine
  rw [hname.ofLine_tag (by decide), hname.ofChars_slash]

theorem SectionName.newline_not_mem_of_mem_allLines (habove : ∀ l ∈ above, BareLine l)
    (hinside : ∀ l ∈ inside, BareLine l) (hbelow : ∀ l ∈ below, BareLine l) :
    ∀ l ∈ allLines above kind name inside below, '\n' ∉ l := by
  unfold allLines
  simp only [List.forall_mem_append, List.forall_mem_cons]
  refine ⟨?_, ?_, ?_, ?_, ?_⟩
  . exact fun l hl => (habove l hl).newline_not_mem
  . exact hname.newline_not_mem_tag (by cases kind <;> decide)
  . exact fun l hl => (hinside l hl).newline_not_mem
  . exact hname.newline_not_mem_tag (by decide)
  . exact fun l hl => (hbelow l hl).newline_not_mem

theorem SectionName.map_ofLine_allLines (habove : ∀ l ∈ above, BareLine l)
    (hinside : ∀ l ∈ inside, BareLine l) (hbelow : ∀ l ∈ below, BareLine l) :
    (allLines above kind name inside below).map ofLine =
      (allDirectives above kind name inside below).map .ok := by
  unfold allLines allDirectives
  simp only [List.map_append, List.map_cons, map_ofLine_of_bareLine habove,
    map_ofLine_of_bareLine hinside, map_ofLine_of_bareLine hbelow, hname.ofLine_startLine,
    hname.ofLine_endLine]

theorem SectionName.parse_of_allLines (habove : ∀ l ∈ above, BareLine l)
    (hinside : ∀ l ∈ inside, BareLine l) (hbelow : ∀ l ∈ below, BareLine l) (hlast : BareLine last)
    {text : String} (htext : text.toList =
      (allLines above kind name inside below).flatMap (· ++ ['\n']) ++ last) :
    parse text = .ok ⟨tidyAll .start (allNodes above kind name inside below last)⟩ := by
  have hplain : ∀ l ∈ allLines above kind name inside below, '\n' ∉ l :=
    hname.newline_not_mem_of_mem_allLines habove hinside hbelow
  have hread : (allLines above kind name inside below).map ofLine =
      (allDirectives above kind name inside below).map .ok :=
    hname.map_ofLine_allLines habove hinside hbelow
  have hlines := Text.splitOn_lines hplain hlast.newline_not_mem
  obtain ⟨ls, hls, hdirectives⟩ := Located.exists_ofLines_of_map 1 hread
    (ofLine_of_not_opening hlast.not_opening)
  rw [← hlines, ← htext] at hls
  apply parse_of_unfoldAll hls
  rw [hdirectives, unfoldAll_allNodes]

end Rendering

theorem textAll_block_eq_join_replicate {root : Value} {body : List Node} {text : String}
    (h : ∀ scope, textAll root scope body = text) (scope : Scope) (kind : SectionKind)
    (path : Path) :
    textAll root scope [.block kind path body] =
      String.join (List.replicate (copies kind (some (scope.follow root path).value)) text) := by
  have honce (b : Bool) :
      (if b = true then text else "") = String.join (List.replicate (if b then 1 else 0) text) := by
    cases b <;> simp
  cases kind with
  | each =>
    unfold copies
    dsimp only
    cases hitems : (scope.follow root path).value.items? with
    | some items =>
      rw [textAll_block_of_items hitems]
      simp only [h]
      rw [List.map_const', List.length_zipIdx]
    | none =>
      rw [textAll_block_of_once fun _ => hitems, h]
      exact honce _
  | ifPresent =>
    rw [textAll_block_of_once (by simp), h]
    exact honce _
  | ifAbsent =>
    rw [textAll_block_of_once (by simp), h]
    unfold copies
    dsimp only
    cases (scope.follow root path).value.isTruthy <;> simp

theorem copies_getD (kind : SectionKind) (member : Option Value) :
    copies kind (some (member.getD .null)) = copies kind member := by
  cases member with
  | none => cases kind <;> rfl
  | some v => rfl

theorem value_follow_root {name : String} (hname : name ≠ "") (data : Value) :
    (Scope.follow data [.named "" data] [name]).value = (data.member? name).getD .null := by
  have hiterated : Scope.iterated? name [.named "" data] = none := rfl
  have hentered : Scope.entered? name [.named "" data] = none := by
    simp [Scope.entered?, Ne.symm hname]
  have hmember : Scope.member? name [.named "" data] = data.member? name := by
    unfold Scope.member?
    rw [List.findSome?_singleton]
    rfl
  rw [Scope.follow_singleton hname, hiterated, hentered, hmember]
  rfl

/--
A section whose start and end stand on lines of their own renders to what is between these lines, as
often as its value says, and to what is above and below.
-/
theorem render_sectionLines {pre name body rest : String} (kind : SectionKind)
    (hpre : ¬ openingBraces <:+: pre.toList) (hbody : ¬ openingBraces <:+: body.toList)
    (hrest : ¬ openingBraces <:+: rest.toList)
    (hended : pre = "" ∨ pre.toList.getLast? = some '\n') (hname : SectionName name) :
    ∃ t, parse (sectionLines pre kind name body rest) = .ok t ∧
      ∀ data, t.render data =
        withoutLeadingNewline pre ++
          String.join (List.replicate (copies kind (data.member? name)) (body ++ "\n")) ++
            rest := by
  obtain ⟨above, habove, haboveBare⟩ := exists_bareLines_of_ended hpre (by simpa using hended)
  obtain ⟨inside, line, hinside, hinsideBare, hlineBare⟩ := exists_bareLines hbody
  obtain ⟨below, last, hbelow, hbelowBare, hlastBare⟩ := exists_bareLines hrest
  -- The line break behind the body ends its last line.
  have hbodyLines : (inside ++ [line]).flatMap (· ++ ['\n']) = (body ++ "\n").toList := by
    rw [String.toList_append, hinside, List.flatMap_append, List.flatMap_singleton,
      List.append_assoc]
    rfl
  have hbodyBare : ∀ l ∈ inside ++ [line], BareLine l :=
    List.forall_mem_append.2 ⟨hinsideBare, List.forall_mem_singleton.2 hlineBare⟩
  have htext : (sectionLines pre kind name body rest).toList =
      (allLines above kind name (inside ++ [line]) below).flatMap (· ++ ['\n']) ++ last := by
    unfold sectionLines allLines startLine endLine
    rw [List.flatMap_append, List.flatMap_cons, List.flatMap_append, List.flatMap_cons, hbodyLines]
    simp only [String.toList_append, habove, hbelow, String.toList_singleton]
    simp [openingBraces, closingBraces]
  have hparse := hname.parse_of_allLines haboveBare hbodyBare hbelowBare hlastBare htext
  refine ⟨_, hparse, ?_⟩
  intro data
  have hblock : textAll data [.named "" data] [.block kind [name] (endedNodes (inside ++ [line]))] =
      String.join (List.replicate (copies kind (data.member? name)) (body ++ "\n")) := by
    have hbodyText (scope : Scope) :
        textAll data scope (endedNodes (inside ++ [line])) = body ++ "\n" := by
      rw [textAll_endedNodes, hbodyLines, String.ofList_toList]
    rw [textAll_block_eq_join_replicate hbodyText, value_follow_root hname.ne_empty, copies_getD]
  have hrestText : textAll data [.named "" data] (endedNodes below ++ literalNodes last) =
      rest := by
    rw [textAll_append, textAll_endedNodes, textAll_literalNodes, ← String.ofList_append, ← hbelow,
      String.ofList_toList]
  have habovePlain : ∀ l ∈ above, '\n' ∉ l := fun l hl => (haboveBare l hl).newline_not_mem
  rw [render_eq_textAll]
  dsimp only
  rw [tidyAll_allNodes, textAll_append, textAll_cons, hblock, hrestText,
    textAll_tidyAll_start _ _ habovePlain, ← habove, String.ofList_toList, String.append_assoc]

theorem render_sectionLines_list :
    SectionName "an item" ∧
      ¬ openingBraces <:+: "\n\n\x7b\n".toList ∧
      ¬ openingBraces <:+: "\n- \x7d\x7d".toList ∧
      ¬ openingBraces <:+: "\n\x7d".toList ∧
      "\n\n\x7b\n".toList.getLast? = some '\n' ∧
      ∃ t, parse (sectionLines "\n\n\x7b\n" .each "an item" "\n- \x7d\x7d" "\n\x7d") = .ok t ∧
        t.render (.map [("an item", .list [.null, .int 1])]) =
          "\n\x7b\n\n- \x7d\x7d\n\n- \x7d\x7d\n\n\x7d" ∧
        t.render (.map [("an item", .unmade)]) = "\n\x7b\n\n\x7d" := by
  have hname : SectionName "an item" :=
    ⟨by decide, by decide, by decide, by decide, by decide, by decide⟩
  have hpre : ¬ openingBraces <:+: "\n\n\x7b\n".toList := by decide
  have hbody : ¬ openingBraces <:+: "\n- \x7d\x7d".toList := by decide
  have hrest : ¬ openingBraces <:+: "\n\x7d".toList := by decide
  have hended : "\n\n\x7b\n".toList.getLast? = some '\n' := by decide
  obtain ⟨t, ht, hrender⟩ :=
    render_sectionLines .each hpre hbody hrest (Or.inr hended) hname
  refine ⟨hname, hpre, hbody, hrest, hended, t, ht, ?_, ?_⟩
  . rw [hrender]
    decide
  . rw [hrender]
    decide

end IdlCompiler.Template
