import IdlCompiler.Proofs.Backend.Context
import IdlCompiler.Proofs.RoundTrip.Loading
import IdlCompiler.Proofs.Text.Lines

/-!
This module contains the macro that lists the strings of an enumeration. The strings stand in it
unescaped, so it is a macro over one line for each of them exactly if no string has a line break in
it, and if its lines can be padded.
-/

namespace IdlCompiler

namespace ClassView

def continuation : List Char :=
  [' ', '\\']

def Holds (text line : List Char) : Prop :=
  line = text ∨ ∃ n, line = text ++ List.replicate n ' ' ++ continuation

theorem Holds.prefix {text line : List Char} (h : Holds text line) : text <+: line := by
  rcases h with rfl | ⟨n, rfl⟩
  . exact List.prefix_rfl
  . rw [List.append_assoc]
    exact List.prefix_append _ _

section Continued

variable {heads : List String} {last : String} {width : Nat} {l : String}

theorem toList_pushn (s : String) (c : Char) (n : Nat) :
    (s.pushn c n).toList = s.toList ++ List.replicate n c := by
  rw [String.pushn_eq_repeat_push]
  induction n with
  | zero => simp [Nat.repeat]
  | succ n ih => rw [Nat.repeat, String.toList_push, ih, List.append_assoc, List.replicate_succ']

theorem foldl_max_le_iff {ns : List Nat} {first : Nat} :
    ns.foldl max first ≤ width ↔ first ≤ width ∧ ∀ n ∈ ns, n ≤ width := by
  induction ns generalizing first with
  | nil => simp
  | cons n ns ih => rw [List.foldl_cons, ih, Nat.max_le, List.forall_mem_cons, and_assoc]

theorem widthOf_le_iff : widthOf heads ≤ width ↔ ∀ l ∈ heads, l.length ≤ width := by
  unfold widthOf
  rw [foldl_max_le_iff, List.forall_mem_map]
  exact and_iff_right (Nat.zero_le _)

theorem length_le_widthOf (hl : l ∈ heads) : l.length ≤ widthOf heads :=
  widthOf_le_iff.1 (Nat.le_refl _) l hl

def headLine (width : Nat) (l : String) : List Char :=
  (padded width l).toList ++ continuation

theorem headLine_of_le (h : width ≤ widthLimit) (l : String) :
    headLine width l = l.toList ++ List.replicate (width - l.length) ' ' ++ continuation := by
  unfold headLine padded
  rw [if_pos h, toList_pushn]

theorem length_headLine (h : width ≤ widthLimit) (hl : l.length ≤ width) :
    (headLine width l).length = width + continuation.length := by
  rw [headLine_of_le h, List.length_append, List.length_append, List.length_replicate,
    String.length_toList]
  omega

theorem head?_headLine_of_lt (h : widthLimit < width) (l : String) :
    (headLine width l).head? = some '%' := by
  unfold headLine padded
  rw [if_neg (Nat.not_le.2 h), String.toList_append]
  rfl

theorem count_headLine : (headLine width l).count '\n' = l.toList.count '\n' := by
  have hcomplaint : "%!(BADWIDTH)".toList.count '\n' = 0 := by decide
  have hcontinuation : continuation.count '\n' = 0 := by decide
  unfold headLine padded
  rw [List.count_append, hcontinuation, Nat.add_zero]
  split
  . rw [toList_pushn, List.count_append, List.count_replicate]
    rfl
  . rw [String.toList_append, List.count_append, hcomplaint, Nat.zero_add]

theorem toList_continued (heads : List String) (last : String) :
    (continued (heads ++ [last])).toList =
      (heads.map (headLine (widthOf heads))).flatMap (· ++ ['\n']) ++ last.toList := by
  unfold continued
  dsimp only
  rw [List.dropLast_concat, List.getLast?_concat, Option.getD_some, String.toList_append,
    String.toList_join, List.flatMap_map, List.flatMap_map]
  congr 2
  funext l
  rw [String.toList_append, headLine, List.append_assoc]
  rfl

theorem length_splitOn_continued (heads : List String) (last : String) :
    ((continued (heads ++ [last])).toList.splitOn '\n').length =
      (heads ++ [last]).length + ((heads ++ [last]).map (·.toList.count '\n')).sum := by
  have hcounts : (heads.map (headLine (widthOf heads)) ++ [last.toList]).map (·.count '\n') =
      (heads ++ [last]).map (·.toList.count '\n') := by
    rw [List.map_append, List.map_append, List.map_map]
    congr 1
    apply List.map_congr_left
    intro l _
    exact count_headLine
  rw [Text.length_splitOn, toList_continued, Text.count_lines, hcounts, List.length_map,
    List.length_append, List.length_singleton]
  omega

theorem splitOn_continued (h : ∀ l ∈ heads ++ [last], '\n' ∉ l.toList) :
    (continued (heads ++ [last])).toList.splitOn '\n' =
      heads.map (headLine (widthOf heads)) ++ [last.toList] := by
  rw [List.forall_mem_append, List.forall_mem_singleton] at h
  rw [toList_continued]
  refine Text.splitOn_lines ?_ h.2
  intro line hline
  obtain ⟨l, hl, rfl⟩ := List.mem_map.1 hline
  rw [← List.count_eq_zero, count_headLine, List.count_eq_zero]
  exact h.1 l hl

section Padded

variable (h : ∀ l ∈ heads ++ [last], '\n' ∉ l.toList) (hwidth : widthOf heads ≤ widthLimit)

include h hwidth

theorem forall₂_holds :
    List.Forall₂ (fun l line => Holds l.toList line) (heads ++ [last])
      ((continued (heads ++ [last])).toList.splitOn '\n') := by
  rw [splitOn_continued h]
  apply List.rel_append
  . rw [List.forall₂_map_right_iff, List.forall₂_same]
    intro l _
    exact Or.inr ⟨_, headLine_of_le hwidth l⟩
  . exact List.Forall₂.cons (Or.inl rfl) List.Forall₂.nil

theorem continuation_suffix_and_length {line : List Char}
    (hline : line ∈ ((continued (heads ++ [last])).toList.splitOn '\n').dropLast) :
    continuation <:+ line ∧ line.length = widthOf heads + continuation.length := by
  rw [splitOn_continued h, List.dropLast_concat] at hline
  obtain ⟨l, hl, rfl⟩ := List.mem_map.1 hline
  exact ⟨List.suffix_append _ _, length_headLine hwidth (length_le_widthOf hl)⟩

end Padded

end Continued

def entryOf (item : String) : List Char :=
  "    X(".toList ++ item.toList.map (fun c => if c = ',' ∨ c = '-' then '_' else c) ++
    ", \"".toList ++ item.toList ++ "\")".toList

/--
Lines are a macro over strings: a definition and one entry for each string in order, continued at
the same column.
-/
structure IsListing (items : List String) (lines : List (List Char)) : Prop where
  length : lines.length = items.length + 1
  define : ∃ line, lines.head? = some line ∧ "#define".toList <+: line
  entries : List.Forall₂ (fun item line => Holds (entryOf item) line) items lines.tail
  continued : ∀ line ∈ lines.dropLast, continuation <:+ line
  aligned : ∃ width, ∀ line ∈ lines.dropLast, line.length = width
  ended : ∀ line, lines.getLast? = some line → ¬ continuation <:+ line

section Macro

variable {name : String} {items : List String}

def definition (name : String) : String :=
  "#define " ++ name ++ "_X(X)"

def entry (item : String) : String :=
  "    X(" ++ (Item.ofText item).safe ++ ", " ++ (Item.ofText item).name ++ ")"

theorem macroLines_ofText (name : String) (items : List String) :
    macroLines name (items.map Item.ofText) = definition name :: items.map entry := by
  unfold macroLines
  rw [List.map_map]
  rfl

theorem toList_entry (item : String) : (entry item).toList = entryOf item := by
  have hsafe : (Item.ofText item).safe.toList =
      item.toList.map fun c => if c = ',' ∨ c = '-' then '_' else c := by
    dsimp only [Item.ofText]
    unfold replaced
    rw [String.toList_map, String.toList_map, List.map_map]
    apply List.map_congr_left
    intro c _
    by_cases hcomma : c = ','
    . simp [hcomma]
    . simp [hcomma]
  unfold entry entryOf
  rw [String.toList_append, String.toList_append, String.toList_append, String.toList_append, hsafe]
  simp [Item.ofText]

theorem newline_not_mem_definition (h : '\n' ∉ name.toList) : '\n' ∉ (definition name).toList := by
  unfold definition
  rw [String.toList_append, String.toList_append]
  simp [h]

theorem count_entry (item : String) :
    (entry item).toList.count '\n' = 2 * item.toList.count '\n' := by
  have hsafe (c : Char) : ((if c = ',' ∨ c = '-' then '_' else c) == '\n') = (c == '\n') := by
    split
    . next hc => rcases hc with rfl | rfl <;> rfl
    . rfl
  have hmap : (item.toList.map fun c => if c = ',' ∨ c = '-' then '_' else c).count '\n' =
      item.toList.count '\n' := by
    unfold List.count
    rw [List.countP_map]
    exact List.countP_congr fun c _ => by rw [Function.comp_apply, hsafe]
  have hstart : "    X(".toList.count '\n' = 0 := by decide
  have hmiddle : ", \"".toList.count '\n' = 0 := by decide
  have hend : "\")".toList.count '\n' = 0 := by decide
  rw [toList_entry]
  unfold entryOf
  rw [List.count_append, List.count_append, List.count_append, List.count_append, hmap, hstart,
    hmiddle, hend]
  omega

theorem newline_not_mem_entry_iff {item : String} :
    '\n' ∉ (entry item).toList ↔ '\n' ∉ item.toList := by
  rw [← List.count_eq_zero, ← List.count_eq_zero, count_entry, Nat.mul_eq_zero]
  simp

theorem exists_macroLines_eq (name : String) (items : List String) :
    ∃ heads last, macroLines name (items.map Item.ofText) = heads ++ [last] :=
  ⟨_, _, (List.dropLast_concat_getLast (List.cons_ne_nil _ _)).symm⟩

theorem mem_macroLines_iff {l : String} :
    l ∈ macroLines name (items.map Item.ofText) ↔
      l = definition name ∨ ∃ item ∈ items, entry item = l := by
  rw [macroLines_ofText, List.mem_cons, List.mem_map]

theorem newline_not_mem_macroLines (hname : '\n' ∉ name.toList)
    (hitems : ∀ item ∈ items, '\n' ∉ item.toList) :
    ∀ l ∈ macroLines name (items.map Item.ofText), '\n' ∉ l.toList := by
  intro l hl
  rcases mem_macroLines_iff.1 hl with rfl | ⟨item, hitem, rfl⟩
  . exact newline_not_mem_definition hname
  . exact newline_not_mem_entry_iff.2 (hitems item hitem)

theorem getLast?_of_mem_macroLines {l : String}
    (hl : l ∈ macroLines name (items.map Item.ofText)) : l.toList.getLast? = some ')' := by
  rcases mem_macroLines_iff.1 hl with rfl | ⟨item, -, rfl⟩
  . unfold definition
    rw [String.toList_append, List.getLast?_append]
    rfl
  . unfold entry
    rw [String.toList_append, List.getLast?_append]
    rfl

theorem length_splitOn_macroLines (hname : '\n' ∉ name.toList) :
    ((continued (macroLines name (items.map Item.ofText))).toList.splitOn '\n').length =
      items.length + 1 + 2 * (items.map (·.toList.count '\n')).sum := by
  obtain ⟨heads, last, hsplit⟩ := exists_macroLines_eq name items
  have hdefinition := List.count_eq_zero.2 (newline_not_mem_definition hname)
  rw [hsplit, length_splitOn_continued, ← hsplit, macroLines_ofText, List.length_cons,
    List.length_map, List.map_cons, List.sum_cons, hdefinition, Nat.zero_add, List.map_map]
  congr 1
  simp only [Function.comp_def, count_entry, List.sum_map_mul_left]

theorem define_prefix_definition (name : String) :
    "#define".toList <+: (definition name).toList := by
  unfold definition
  rw [String.append_assoc, String.toList_append]
  exact (by decide : "#define".toList <+: "#define ".toList).trans (List.prefix_append _ _)

theorem not_continuation_suffix {cs : List Char} (h : cs.getLast? = some ')') :
    ¬ continuation <:+ cs := by
  rintro ⟨front, rfl⟩
  simp [continuation] at h

theorem isListing_of_plain (hname : '\n' ∉ name.toList)
    (hitems : ∀ item ∈ items, '\n' ∉ item.toList)
    (hlength : ∀ l ∈ (macroLines name (items.map Item.ofText)).dropLast, l.length ≤ widthLimit) :
    IsListing items
      ((continued (macroLines name (items.map Item.ofText))).toList.splitOn '\n') := by
  obtain ⟨heads, last, hsplit⟩ := exists_macroLines_eq name items
  have hnewline := newline_not_mem_macroLines hname hitems
  have hlast : last.toList.getLast? = some ')' :=
    getLast?_of_mem_macroLines (hsplit ▸ List.mem_concat_self)
  rw [hsplit, List.dropLast_concat] at hlength
  rw [hsplit] at hnewline
  have hwidth : widthOf heads ≤ widthLimit := widthOf_le_iff.2 hlength
  have hlines := splitOn_continued hnewline
  have hholds := forall₂_holds hnewline hwidth
  rw [hlines, ← hsplit, macroLines_ofText] at hholds
  obtain ⟨line, lines, hline, hentries, hcons⟩ := List.forall₂_cons_left_iff.1 hholds
  rw [List.forall₂_map_left_iff] at hentries
  rw [hsplit]
  constructor
  . rw [hlines, hcons, List.length_cons, ← hentries.length_eq]
  . rw [hlines, hcons]
    exact ⟨line, rfl, (define_prefix_definition name).trans hline.prefix⟩
  . rw [hlines, hcons]
    refine hentries.imp ?_
    intro item line hholds
    rwa [toList_entry] at hholds
  . exact fun line hline => (continuation_suffix_and_length hnewline hwidth hline).1
  . exact ⟨_, fun line hline => (continuation_suffix_and_length hnewline hwidth hline).2⟩
  . rw [hlines, List.getLast?_concat]
    rintro _ ⟨⟩
    exact not_continuation_suffix hlast

theorem plain_of_isListing
    (h : IsListing items
      ((continued (macroLines name (items.map Item.ofText))).toList.splitOn '\n')) :
    (∀ item ∈ items, '\n' ∉ item.toList) ∧
      ∀ l ∈ (macroLines name (items.map Item.ofText)).dropLast, l.length ≤ widthLimit := by
  obtain ⟨heads, last, hsplit⟩ := exists_macroLines_eq name items
  -- There are no more lines than strings and the definition, so no string has a line break in it.
  have hcount := h.length
  rw [hsplit, length_splitOn_continued, ← hsplit, macroLines_ofText, List.length_cons,
    List.length_map, Nat.add_eq_left, List.sum_eq_zero_iff, List.forall_mem_map,
    ← macroLines_ofText] at hcount
  have hplain : ∀ l ∈ macroLines name (items.map Item.ofText), '\n' ∉ l.toList :=
    fun l hl => List.count_eq_zero.1 (hcount l hl)
  constructor
  . intro item hitem
    rw [← newline_not_mem_entry_iff]
    exact hplain _ (mem_macroLines_iff.2 (Or.inr ⟨item, hitem, rfl⟩))
  . obtain ⟨line, hline, rest, hrest⟩ := h.define
    rw [hsplit] at hplain
    rw [hsplit, splitOn_continued hplain] at hline
    rw [hsplit, List.dropLast_concat, ← widthOf_le_iff]
    cases heads with
    | nil => exact Nat.zero_le _
    | cons l heads =>
      cases hline
      -- A line that is too long to be padded starts with a complaint, and not like a definition.
      by_contra hwidth
      have hhead := head?_headLine_of_lt (Nat.not_le.1 hwidth) l
      rw [← hrest, List.head?_append] at hhead
      cases hhead

end Macro

end ClassView

namespace OutputInfo

open ClassView

variable {s : Schema} {files : FileTree} {paths : List String} {parsed ds : List Declaration}

/--
Templates see the macro over the strings of an enumeration that was parsed. It has a line for its
name, one for each string and two more for each line break in a string. So it is a macro with the
strings line by line exactly if no string has a line break in it and no line that is continued is too
long to be padded.
-/
theorem isListing_text_iff (info : OutputInfo) {e : IdlCompiler.Enum} {k : Nat}
    (hload : (Declaration.load s files paths).result = .ok parsed) (hparsed : .enum e ∈ parsed)
    (hk : (enumsOf ds)[k]? = some e) :
    info.Shows Dialect.cxx.lang ds (info.view .cxx ds) ∧
      ∃ shown text, (info.view .cxx ds).enums[k]? = some shown ∧
        shown.toValue.member? "text" = some (.text text) ∧
        (text.toList.splitOn '\n').length =
          e.items.length + 1 + 2 * (e.items.map (·.toList.count '\n')).sum ∧
        (IsListing e.items (text.toList.splitOn '\n') ↔
          (∀ item ∈ e.items, '\n' ∉ item.toList) ∧
            ∀ l ∈ (macroLines shown.upperName shown.items).dropLast, l.length ≤ widthLimit) := by
  have hname : '\n' ∉ (Text.upperCase e.header.name).toList := by
    obtain ⟨c, cs, hchars, hletter, hcs⟩ := (Declaration.rereads_of_load hload _ hparsed).1.name
    apply Text.newline_not_mem_upperCase
    rw [hchars]
    exact Lexer.newline_not_mem (Lexer.isIdentChar_of_isLetter hletter) hcs
  refine ⟨shows_view info ds List.mem_cons_self, Enum.ofEnum e, (Enum.ofEnum e).listing, ?_, rfl,
    length_splitOn_macroLines hname, plain_of_isListing, ?_⟩
  . unfold view ofDeclarations
    rw [List.getElem?_map, hk]
    rfl
  . rintro ⟨hitems, hlength⟩
    exact isListing_of_plain hname hitems hlength

def stateFiles : FileTree where
  entries := [("a.idl", .file "enum State \x7b \"on-line\", \"a,b\", \"größe\" \x7d;\n")]

def state : IdlCompiler.Enum where
  header := ⟨"State", ⟨"a.idl", 1, 6⟩, false, [], []⟩
  items := ["on-line", "a,b", "größe"]

def stateInfo : OutputInfo where
  path := "a.h"
  version := 1
  initial := []
  registry := .builtin

def stateText : String :=
  "#define STATE_X(X)        \\
    X(on_line, \"on-line\") \\
    X(a_b, \"a,b\")         \\
    X(größe, \"größe\")"

theorem listing_state : (Enum.ofEnum state).listing = stateText := by
  cbv

theorem length_macroLines_state :
    ∀ l ∈ (macroLines (Enum.ofEnum state).upperName (Enum.ofEnum state).items).dropLast,
      l.length ≤ widthLimit := by
  have hall : (macroLines (Enum.ofEnum state).upperName (Enum.ofEnum state).items).dropLast.all
      (fun l => decide (l.length ≤ widthLimit)) = true := by
    cbv
  simpa using hall

theorem isListing_text_iff_state :
    (Declaration.load ⟨fun _ => []⟩ stateFiles ["a.idl"]).result = .ok [.enum state] ∧
      .enum state ∈ [Declaration.enum state] ∧ (enumsOf [.enum state])[0]? = some state ∧
      ∃ shown, (stateInfo.view .cxx [.enum state]).enums[0]? = some shown ∧
        shown.toValue.member? "text" = some (.text stateText) ∧
        IsListing ["on-line", "a,b", "größe"] (stateText.toList.splitOn '\n') := by
  have hload : (Declaration.load ⟨fun _ => []⟩ stateFiles ["a.idl"]).result =
      .ok [.enum state] := by
    cbv
  have hmem : .enum state ∈ [Declaration.enum state] := List.mem_cons_self
  have hk : (enumsOf [.enum state])[0]? = some state := rfl
  have hitems : ∀ item ∈ state.items, '\n' ∉ item.toList := by decide
  obtain ⟨-, shown, text, hshown, htext, -, hiff⟩ :=
    isListing_text_iff stateInfo hload hmem hk
  cases hshown
  have hstate : text = stateText := by
    cases htext
    exact listing_state
  subst hstate
  exact ⟨hload, hmem, hk, _, rfl, htext, hiff.2 ⟨hitems, length_macroLines_state⟩⟩

def brokenFiles : FileTree where
  entries := [("a.idl", .file "enum E \x7b \"a\\nb\" \x7d;\n")]

def broken : IdlCompiler.Enum where
  header := ⟨"E", ⟨"a.idl", 1, 6⟩, false, [], []⟩
  items := ["a\nb"]

theorem not_isListing_text_broken :
    (Declaration.load ⟨fun _ => []⟩ brokenFiles ["a.idl"]).result = .ok [.enum broken] ∧
      stateInfo.Shows Dialect.cxx.lang [.enum broken] (stateInfo.view .cxx [.enum broken]) ∧
      ∃ shown text, (stateInfo.view .cxx [.enum broken]).enums[0]? = some shown ∧
        shown.toValue.member? "text" = some (.text text) ∧
        text.toList.splitOn '\n' =
          ["#define E_X(X) \\".toList, "    X(a".toList, "b, \"a".toList, "b\")".toList] ∧
        ¬ IsListing ["a\nb"] (text.toList.splitOn '\n') := by
  have hload : (Declaration.load ⟨fun _ => []⟩ brokenFiles ["a.idl"]).result =
      .ok [.enum broken] := by
    cbv
  have hlines : (Enum.ofEnum broken).listing.toList.splitOn '\n' =
      ["#define E_X(X) \\".toList, "    X(a".toList, "b, \"a".toList, "b\")".toList] := by
    cbv
  refine ⟨hload, shows_view _ _ List.mem_cons_self, _, _, rfl, rfl, hlines, ?_⟩
  rw [hlines]
  intro h
  exact absurd h.length (by decide)

end OutputInfo

end IdlCompiler
