import IdlCompiler.Proofs.Declaration.Load
import IdlCompiler.Proofs.RoundTrip.Declarations

/-!
This module contains the round trip of declarations: what was loaded from files and written as one
source text is read from that text again.
-/

namespace IdlCompiler

open Lexer Grammar

namespace Grammar

variable {s : Schema} {ts : List Token}

theorem MembersDerive.rereads {members : List MemberDecl} {dangling : List ExtAttr}
    (h : MembersDerive ts members dangling) (hspelled : ∀ t ∈ ts, t.lexeme.Spelled)
    (hvalid : ∀ m ∈ members, m.Valid s) :
    (∀ a ∈ members.filterMap (·.attribute? s), a.Rereads s) ∧
      ∀ o ∈ members.filterMap (·.operation? s), o.Rereads s := by
  have hmember : ∀ m ∈ members, ∃ ts, MemberDerives ts m ∧ ∀ t ∈ ts, t.lexeme.Spelled := by
    induction h with
    | nil _ => simp
    | cons hfirst _ ih =>
      intro m hm
      rcases List.mem_cons.1 hm with rfl | hm
      . exact ⟨_, hfirst, fun t ht => hspelled t (List.mem_append_left _ ht)⟩
      . exact ih (fun t ht => hspelled t (List.mem_append_right _ ht))
          (fun m hm => hvalid m (List.mem_cons_of_mem _ hm)) m hm
  constructor
  . intro a ha
    rcases List.mem_filterMap.1 ha with ⟨m, hm, ha⟩
    rcases hmember m hm with ⟨ts, hderives, hts⟩
    exact hderives.rereads_attribute hts (hvalid m hm) ha
  . intro o ho
    rcases List.mem_filterMap.1 ho with ⟨m, hm, ho⟩
    rcases hmember m hm with ⟨ts, hderives, hts⟩
    exact hderives.rereads_operation hts (hvalid m hm) ho

theorem BaseDerives.isIdent {base : Option String} (h : BaseDerives ts base)
    (hspelled : ∀ t ∈ ts, t.lexeme.Spelled) (name : String) (hname : base = Option.some name) :
    IsIdent name := by
  cases h with
  | none => cases hname
  | some =>
    cases hname
    exact hspelled _ (List.mem_cons_of_mem _ (List.mem_singleton.2 rfl))

theorem ItemDerives.rereads {item : Item} (h : ItemDerives ts item)
    (hspelled : ∀ t ∈ ts, t.lexeme.Spelled) (hvalid : item.Valid s) :
    (item.declaration s).Rereads s := by
  rcases h with @⟨ts₁, ts₂, ts₃, ts₄, attrs, isPartial, kind, base, body, p, q, r, u, name, hattrs,
    hpartial, hbase, hbody⟩
  have hname : IsIdent name.text := hspelled name.token (by simp)
  have hspelledAttrs := hattrs.spelled fun t ht => hspelled t (by simp [ht])
  cases hbody with
  | @enum _ items hitems =>
    have haccepts : s.Accepts .enum attrs := hvalid.accepts (.enum, attrs) List.mem_cons_self
    refine ⟨⟨hname, hspelledAttrs, haccepts, rfl⟩, hvalid.not_partial ⟨items, rfl⟩, ?_⟩
    intro item hitem
    simpa using (List.mem_filter.1 hitem).2
  | @interface _ members dangling hmembers =>
    have haccepts : s.Accepts .interface attrs :=
      hvalid.accepts (.interface, attrs) List.mem_cons_self
    have hvalidMembers (m : MemberDecl) (hm : m ∈ members) : m.Valid s := fun a ha =>
      hvalid.accepts a (List.mem_cons_of_mem _ (List.mem_flatMap.2 ⟨m, hm, ha⟩))
    have hrereads := hmembers.rereads (fun t ht => hspelled t (by simp [ht])) hvalidMembers
    exact ⟨⟨hname, hspelledAttrs, haccepts, rfl⟩,
      hbase.isIdent fun t ht => hspelled t (by simp [ht]), hrereads.1, hrereads.2⟩

theorem FileDerives.exists_itemDerives {f : File} (h : FileDerives ts f) :
    ∀ i ∈ f.items, ∃ ts', ItemDerives ts' i ∧ ∀ t ∈ ts', t ∈ ts := by
  induction h with
  | nil _ _ => simp
  | cons hitem _ ih =>
    intro i hi
    rcases List.mem_cons.1 hi with rfl | hi
    . exact ⟨_, hitem, fun t ht => List.mem_append_left _ ht⟩
    . rcases ih i hi with ⟨ts', hderives, hsub⟩
      exact ⟨ts', hderives, fun t ht => List.mem_append_right _ (hsub t ht)⟩

end Grammar

theorem TokenStream.mem_of_mem_upToEnd {eof : Pos} {ts : List Token} {t : Token}
    (h : t ∈ upToEnd eof ts) (hend : t.lexeme ≠ .eof) : t ∈ ts := by
  induction ts with
  | nil =>
    rw [List.mem_singleton.1 h] at hend
    exact absurd rfl hend
  | cons t' ts ih =>
    unfold upToEnd at h
    split at h
    . next hlexeme =>
      rw [List.mem_singleton.1 h] at hend
      exact absurd hlexeme hend
    . rcases List.mem_cons.1 h with rfl | h
      . exact List.mem_cons_self
      . exact List.mem_cons_of_mem _ (ih h)

theorem Header.Rereads.setPartial {s : Schema} {domain : Domain} {h : Header}
    (hh : h.Rereads s domain) (isPartial : Bool) : { h with isPartial }.Rereads s domain :=
  ⟨hh.name, hh.attrs, hh.accepts, hh.values⟩

namespace Declaration

variable {s : Schema} {files : FileTree} {first : Declaration} {parts ds : List Declaration}

theorem rereads_of_ofSource {file : String} {src : List Text.Glyph}
    (h : (ofSource s file src).result = .ok ds) : ∀ d ∈ ds, d.Rereads s := by
  rcases exists_file_of_ofSource h with ⟨stream, f, hstream, hderives, hvalid, rfl⟩
  have hspelled := TokenStream.spelled_of_ofSource hstream
  intro d hd
  rcases List.mem_map.1 hd with ⟨i, hi, rfl⟩
  rcases hderives.exists_itemDerives i hi with ⟨ts, hitem, hsub⟩
  refine hitem.rereads ?_ (hvalid i hi)
  intro t ht
  exact hspelled t (TokenStream.mem_of_mem_upToEnd (hsub t ht) (hitem.eofFree t ht))

theorem rereads_of_loadFile {path : String} (h : (loadFile s files path).result = .ok ds) :
    ∀ d ∈ ds, d.Rereads s := by
  unfold loadFile at h
  split at h
  . simp [Outcome.fail] at h
  . exact rereads_of_ofSource h

theorem rereads_gather (hparts : ∀ d ∈ parts, d.Rereads s) (hfirst : first ∈ parts) :
    (gather parts first).Rereads s := by
  have hrereads := hparts first hfirst
  cases first with
  | enum e =>
    rcases hrereads with ⟨hheader, hpartial, hitems⟩
    refine ⟨hheader.setPartial _, ?_, hitems⟩
    -- The first part is complete, and so is what is gathered.
    rw [List.all_eq_false]
    exact ⟨.enum e, hfirst, by simp [header, hpartial]⟩
  | interface i =>
    rcases hrereads with ⟨hheader, hbase, _, _⟩
    refine ⟨hheader.setPartial _, hbase, ?_, ?_⟩
    . intro a ha
      rcases List.mem_flatMap.1 ha with ⟨d, hd, ha⟩
      have hd := hparts d hd
      cases d with
      | enum e => cases ha
      | interface j => exact hd.2.2.1 a ha
    . intro o ho
      rcases List.mem_flatMap.1 ho with ⟨d, hd, ho⟩
      have hd := hparts d hd
      cases d with
      | enum e => cases ho
      | interface j => exact hd.2.2.2 o ho

theorem rereads_gatherAll (h : ∀ d ∈ ds, d.Rereads s) : ∀ c ∈ gatherAll ds, c.Rereads s := by
  induction hn : ds.length using Nat.strongRecOn generalizing ds with
  | ind n ih =>
    cases ds with
    | nil =>
      rw [gatherAll]
      simp
    | cons d ds =>
      have hsub : ∀ d' ∈ d :: named d.name ds, d'.Rereads s := by
        intro d' hd'
        rcases List.mem_cons.1 hd' with rfl | hd'
        . exact h d' List.mem_cons_self
        . exact h d' (List.mem_cons_of_mem _ (List.mem_of_mem_filter hd'))
      have hrest : ∀ d' ∈ notNamed d.name ds, d'.Rereads s := fun d' hd' =>
        h d' (List.mem_cons_of_mem _ (List.mem_of_mem_filter hd'))
      have hlength : (notNamed d.name ds).length < n := by
        rw [← hn]
        exact Nat.lt_succ_of_le (List.length_filter_le _ _)
      rw [gatherAll]
      intro c hc
      rcases List.mem_cons.1 hc with rfl | hc
      . exact rereads_gather hsub List.mem_cons_self
      . exact ih _ hlength hrest rfl c hc

theorem rereads_of_load {cs : List Declaration} {paths : List String}
    (h : (load s files paths).result = .ok cs) : ∀ c ∈ cs, c.Rereads s := by
  rcases exists_of_load h with ⟨dss, hfiles, _, rfl⟩
  refine rereads_gatherAll ?_
  intro d hd
  rcases List.mem_flatten.1 hd with ⟨ds, hds, hd⟩
  rcases mem_of_map_loadFile_eq hfiles hds with ⟨path, hpath⟩
  exact rereads_of_loadFile hpath d hd

def allLines : List Declaration → List String
  | [] => []
  | [d] => d.lines
  | d :: ds => d.lines ++ "" :: allLines ds

theorem allLines_cons_cons (d d' : Declaration) (ds : List Declaration) :
    allLines (d :: d' :: ds) = d.lines ++ "" :: allLines (d' :: ds) := rfl

theorem textAll_eq_unlines (ds : List Declaration) : textAll ds = Text.unlines (allLines ds) := by
  unfold textAll
  induction ds with
  | nil => rfl
  | cons d ds ih =>
    cases ds with
    | nil => rfl
    | cons d' ds =>
      rw [List.map_cons, List.map_cons, String.intercalate_cons_cons, ← List.map_cons, ih,
        allLines_cons_cons]
      simp [Text.unlines, text, String.append_assoc]

theorem readsLines_allLines (h : ∀ d ∈ ds, d.Rereads s) (hplain : ∀ d ∈ ds, d.PlainArgs) :
    ReadsLines (allLines ds) (Each (ReadsItem s) ds) := by
  induction ds with
  | nil => exact readsLines_nil
  | cons d ds ih =>
    have hfirst := readsLines_of_rereads (h d List.mem_cons_self) (hplain d List.mem_cons_self)
    have hrest := ih (fun d hd => h d (List.mem_cons_of_mem _ hd))
      (fun d hd => hplain d (List.mem_cons_of_mem _ hd))
    cases ds with
    | nil => exact hfirst.imp fun ts hts => ⟨ts, [], by simp, hts, rfl⟩
    | cons d' ds =>
      have hempty : ReadsLines [""] (· = []) := reads_empty.readsLines rfl
      rw [allLines_cons_cons, ← List.singleton_append]
      refine (hfirst.append (hempty.append hrest)).imp ?_
      rintro _ ⟨ts₁, _, rfl, hts₁, ⟨_, ts₂, rfl, rfl, hts₂⟩⟩
      exact ⟨ts₁, ts₂, rfl, hts₁, hts₂⟩

theorem exists_fileDerives {eof : Pos} {ts : List Token} (h : Each (ReadsItem s) ds ts) :
    ∃ f, FileDerives (TokenStream.upToEnd eof ts) f ∧ f.Valid s ∧
      (f.declarations s).map (·.withoutPos) = ds.map (·.withoutPos) := by
  induction ds generalizing ts with
  | nil =>
    rw [show ts = [] from h]
    exact ⟨⟨[], [], false⟩, .nil .none .none, by simp [File.Valid], rfl⟩
  | cons d ds ih =>
    rcases h with ⟨ts₁, ts₂, rfl, ⟨item, hitem, hvalid, hsame⟩, hrest⟩
    rcases ih hrest with ⟨f, hderives, hvalidAll, hsameAll⟩
    rw [hitem.eofFree.upToEnd_append]
    refine ⟨⟨item :: f.items, f.dangling, f.danglingPartial⟩, .cons hitem hderives, ?_, ?_⟩
    . exact List.forall_mem_cons.2 ⟨hvalid, hvalidAll⟩
    . rw [List.map_cons, ← hsame, ← hsameAll]
      rfl

/--
Declarations that were loaded from files, written as one source text and read again, are the same
except for their positions, and so is what is written then. No string argument may need an escape,
since extended attributes are written without, and no line may be too long to be read.
-/
theorem exists_ofSource_textAll {paths : List String} {cs : List Declaration}
    (hload : (load s files paths).result = .ok cs) (hplain : ∀ c ∈ cs, c.PlainArgs)
    (hsize : ∀ l ∈ splitLines (Text.Glyph.ofString (textAll cs)), lineSize l < lineLimit)
    (file : String) :
    ∃ cs', (ofSource s file (Text.Glyph.ofString (textAll cs))).result = .ok cs' ∧
      cs'.map (·.withoutPos) = cs.map (·.withoutPos) ∧ textAll cs' = textAll cs := by
  have hlines := readsLines_allLines (rereads_of_load hload) hplain
  rw [textAll_eq_unlines] at hsize ⊢
  rcases exists_ofSource_unlines hlines hsize file with ⟨stream, hstream, heach⟩
  rcases exists_fileDerives heach with ⟨f, hderives, hvalid, hsame⟩
  have hread := readAll_of_fileDerives stream.endPos hderives hvalid
  refine ⟨f.declarations s, ?_, hsame, ?_⟩
  . unfold ofSource
    rw [hstream]
    exact Except.mapError_eq_ok_iff.2 hread
  . rw [← textAll_eq_unlines]
    exact textAll_congr hsame

def sampleFiles : FileTree where
  entries := [
    ("a.idl", .file
      "[unit=\"m\"] enum E \x7b \"x\\ty\", \"\" \x7d;
partial interface A : B \x7b long long f([in] long a,); \x7d;\n"),
    ("b.idl", .file
      "interface A \x7b [ guards ( g , \"h i\") ] attribute union<E, T<long>?> v; \x7d;\n")]

def sampleDeclarations : List Declaration :=
  [.enum {
      header := ⟨"E", ⟨"a.idl", 1, 17⟩, false, [⟨⟨"unit", ⟨"a.idl", 1, 2⟩⟩, [.string "m"]⟩], []⟩
      items := ["x\ty"] },
    .interface {
      header := ⟨"A", ⟨"a.idl", 2, 19⟩, false, [], []⟩
      base := some "B"
      attributes := [{
        name := "v"
        type := .union [.simple "E", .optional (.generic "T" [.simple "long"])]
        pos := ⟨"b.idl", 1, 68⟩
        attrs := [⟨⟨"guards", ⟨"b.idl", 1, 17⟩⟩, [.ident "g", .string "h i"]⟩]
        values := [] }]
      operations := [{
        name := "f"
        result := .simple "long long"
        args := [⟨"a", .simple "long", ⟨"a.idl", 2, 49⟩, [⟨⟨"in", ⟨"a.idl", 2, 40⟩⟩, []⟩], []⟩]
        pos := ⟨"a.idl", 2, 37⟩
        attrs := []
        values := [] }] }]

theorem plainArgs_sampleDeclarations : ∀ c ∈ sampleDeclarations, c.PlainArgs := by
  simp [sampleDeclarations, PlainArgs, blocks, ExtAttr.PlainArgs, Lexeme.Plain]

set_option maxRecDepth 4000 in
theorem lineSize_sampleDeclarations :
    ∀ l ∈ splitLines (Text.Glyph.ofString (textAll sampleDeclarations)),
      lineSize l < lineLimit := by
  have hall : (splitLines (Text.Glyph.ofString (textAll sampleDeclarations))).all
      (fun l => decide (lineSize l < lineLimit)) = true := by
    cbv
  simpa using hall

theorem exists_ofSource_textAll_sample :
    (load ⟨fun _ => []⟩ sampleFiles ["a.idl", "b.idl"]).result = .ok sampleDeclarations ∧
      (∀ c ∈ sampleDeclarations, c.PlainArgs) ∧
      (∀ l ∈ splitLines (Text.Glyph.ofString (textAll sampleDeclarations)),
        lineSize l < lineLimit) ∧
      ∃ cs', (ofSource ⟨fun _ => []⟩ "c.idl"
          (Text.Glyph.ofString (textAll sampleDeclarations))).result = .ok cs' ∧
        cs'.map (·.withoutPos) = sampleDeclarations.map (·.withoutPos) ∧
        textAll cs' = textAll sampleDeclarations := by
  have hload :
      (load ⟨fun _ => []⟩ sampleFiles ["a.idl", "b.idl"]).result = .ok sampleDeclarations := by
    cbv
  exact ⟨hload, plainArgs_sampleDeclarations, lineSize_sampleDeclarations,
    exists_ofSource_textAll hload plainArgs_sampleDeclarations lineSize_sampleDeclarations "c.idl"⟩

end Declaration

end IdlCompiler
