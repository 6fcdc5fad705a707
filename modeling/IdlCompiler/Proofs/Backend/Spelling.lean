import IdlCompiler.Proofs.Backend.Context
import IdlCompiler.Proofs.Backend.Headers
import IdlCompiler.Proofs.Text.Intercalated

/-!
This module contains that the headers of native code match the spellings of its types. The spelling
of a type is written piece by piece, and the header that a piece needs is among the headers of the
class view, wherever in a type of a member the piece stands. Sequences are spelled as vectors, while
their header is that of the container that the extended attributes around them ask for.
-/

namespace IdlCompiler

inductive Piece where
  | optional
  | sequence
  | union
  | record
  | projection (p : Projection)
  | plain (text : String)

namespace Piece

def text : Piece → String
  | .optional => "std::optional<"
  | .sequence => "std::vector<"
  | .union => "std::variant<"
  | .record => "std::map<"
  | .projection p => p.target
  | .plain text => text

def header? (container : String) : Piece → Option String
  | .optional => some "<optional>"
  | .sequence => some container
  | .union => some "<variant>"
  | .record => some "<map>"
  | .projection p => if p.requires = "" then none else some p.requires
  | .plain _ => none

def ofName (name : String) : Option Projection → Piece
  | some p => .projection p
  | none => .plain name

def commas (args : List (List Piece)) : List Piece :=
  [.plain ", "].intercalate args

def genericArgs (head : Piece) : List (List Piece) → List (List Piece)
  | first :: rest =>
    if head.text = "std::span" then (first ++ [.plain " const"]) :: rest else first :: rest
  | [] => []

def spell (pieces : List Piece) : String :=
  String.join (pieces.map text)

theorem spell_cons (piece : Piece) (pieces : List Piece) :
    spell (piece :: pieces) = piece.text ++ spell pieces := by
  unfold spell
  rw [List.map_cons, String.join_cons]

theorem spell_append (first second : List Piece) :
    spell (first ++ second) = spell first ++ spell second := by
  unfold spell
  rw [List.map_append, String.join_append]

theorem spell_plain (text : String) : spell [.plain text] = text := by
  rw [spell_cons]
  exact String.append_empty

theorem spell_commas (args : List (List Piece)) :
    spell (commas args) = ", ".intercalate (args.map spell) :=
  Text.join_map_intercalate text (.plain ", ") args

theorem map_spell_genericArgs (head : Piece) (args : List (List Piece)) :
    (genericArgs head args).map spell = Dialect.genericArgs head.text (args.map spell) := by
  cases args with
  | nil => rfl
  | cons first rest =>
    simp only [genericArgs, Dialect.genericArgs, List.map_cons]
    split
    . rw [List.map_cons, spell_append, spell_plain]
    . rw [List.map_cons]

theorem forall_mem_commas {P : Piece → Prop} (hplain : ∀ text, P (.plain text))
    {args : List (List Piece)} (h : ∀ arg ∈ args, ∀ piece ∈ arg, P piece) :
    ∀ piece ∈ commas args, P piece := by
  intro piece hpiece
  by_cases hcomma : piece = .plain ", "
  . rw [hcomma]
    exact hplain ", "
  . obtain ⟨arg, harg, hmem⟩ := (Text.mem_intercalate_iff hcomma).1 hpiece
    exact h arg harg piece hmem

theorem forall_mem_genericArgs {P : Piece → Prop} (hplain : ∀ text, P (.plain text))
    {head : Piece} {args : List (List Piece)} (h : ∀ arg ∈ args, ∀ piece ∈ arg, P piece) :
    ∀ arg ∈ genericArgs head args, ∀ piece ∈ arg, P piece := by
  cases args with
  | nil => exact h
  | cons first rest =>
    rw [List.forall_mem_cons] at h
    dsimp only [genericArgs]
    split
    . rw [List.forall_mem_cons, List.forall_mem_append, List.forall_mem_singleton]
      exact ⟨⟨h.1, hplain " const"⟩, h.2⟩
    . rw [List.forall_mem_cons]
      exact h

theorem text_ofName (name : String) (p : Option Projection) :
    (ofName name p).text = (p.map (·.target)).getD name := by
  cases p <;> rfl

end Piece

namespace IdlType

open Piece

mutual

def pieces (r : Registry) : IdlType → List Piece
  | .simple name => [ofName name (r.simple? Registry.cxx name)]
  | .optional elem => .optional :: (pieces r elem ++ [.plain ">"])
  | .sequence elem => .sequence :: (pieces r elem ++ [.plain ">"])
  | .union members => .union :: (commas (piecesAll r members) ++ [.plain ">"])
  | .record key value => .record :: (commas [pieces r key, pieces r value] ++ [.plain ">"])
  | .generic name args =>
    let head := ofName name (r.generic? Registry.cxx name)
    head :: .plain "<" :: (commas (genericArgs head (piecesAll r args)) ++ [.plain ">"])

def piecesAll (r : Registry) : List IdlType → List (List Piece)
  | [] => []
  | t :: ts => pieces r t :: piecesAll r ts

end

mutual

theorem spell_pieces (r : Registry) (t : IdlType) :
    spell (t.pieces r) = t.spelled Dialect.cxx r := by
  cases t with
  | simple name =>
    rw [pieces, spell_cons, text_ofName]
    exact String.append_empty
  | optional elem =>
    rw [pieces, spell_cons, spell_append, spell_plain, spell_pieces, spelled]
    exact String.append_assoc.symm
  | sequence elem =>
    rw [pieces, spell_cons, spell_append, spell_plain, spell_pieces, spelled]
    exact String.append_assoc.symm
  | union members =>
    rw [pieces, spell_cons, spell_append, spell_plain, spell_commas, map_spell_piecesAll, spelled]
    exact String.append_assoc.symm
  | record key value =>
    rw [pieces, spell_cons, spell_append, spell_plain, spell_commas, List.map_cons, List.map_cons,
      List.map_nil, spell_pieces, spell_pieces, spelled]
    exact String.append_assoc.symm
  | generic name args =>
    rw [pieces, spell_cons, spell_cons, spell_append, spell_plain, spell_commas,
      map_spell_genericArgs, map_spell_piecesAll, text_ofName, spelled]
    dsimp only [Dialect.cxx, Piece.text]
    simp only [String.append_assoc]

theorem map_spell_piecesAll (r : Registry) (ts : List IdlType) :
    (piecesAll r ts).map spell = spelledAll Dialect.cxx r ts := by
  cases ts with
  | nil => rfl
  | cons t ts => rw [piecesAll, List.map_cons, spell_pieces, map_spell_piecesAll, spelledAll]

end

theorem piecesAll_eq_map (r : Registry) (ts : List IdlType) :
    piecesAll r ts = ts.map (pieces r) := by
  induction ts with
  | nil => rfl
  | cons t ts ih => rw [piecesAll, ih, List.map_cons]

def opening (r : Registry) : IdlType → Piece
  | .simple name => ofName name (r.simple? Registry.cxx name)
  | .optional _ => .optional
  | .sequence _ => .sequence
  | .union _ => .union
  | .record _ _ => .record
  | .generic name _ => ofName name (r.generic? Registry.cxx name)

theorem forall_mem_pieces {P : Piece → Prop} (hplain : ∀ text, P (.plain text)) {r : Registry}
    {t : IdlType} (hopening : P (t.opening r))
    (helems : ∀ elem ∈ t.elems, ∀ piece ∈ elem.pieces r, P piece) :
    ∀ piece ∈ t.pieces r, P piece := by
  have hclosed {inner : List Piece} (h : ∀ piece ∈ inner, P piece) :
      ∀ piece ∈ inner ++ [.plain ">"], P piece := by
    rw [List.forall_mem_append, List.forall_mem_singleton]
    exact ⟨h, hplain ">"⟩
  have hargs : ∀ arg ∈ t.elems.map (pieces r), ∀ piece ∈ arg, P piece := by
    rw [List.forall_mem_map]
    exact helems
  cases t with
  | simple name =>
    rw [pieces, List.forall_mem_singleton]
    exact hopening
  | optional elem =>
    rw [pieces, List.forall_mem_cons]
    exact ⟨hopening, hclosed (helems elem (List.mem_singleton_self elem))⟩
  | sequence elem =>
    rw [pieces, List.forall_mem_cons]
    exact ⟨hopening, hclosed (helems elem (List.mem_singleton_self elem))⟩
  | union members =>
    rw [pieces, List.forall_mem_cons, piecesAll_eq_map]
    exact ⟨hopening, hclosed (forall_mem_commas hplain hargs)⟩
  | record key value =>
    rw [pieces, List.forall_mem_cons]
    exact ⟨hopening, hclosed (forall_mem_commas hplain hargs)⟩
  | generic name args =>
    rw [pieces, List.forall_mem_cons, List.forall_mem_cons, piecesAll_eq_map]
    exact ⟨hopening, hplain "<",
      hclosed (forall_mem_commas hplain (forall_mem_genericArgs hplain hargs))⟩

theorem exists_part_of_mem_pieces {r : Registry} (t : IdlType) :
    ∀ piece ∈ t.pieces r,
      (∃ text, piece = .plain text) ∨ ∃ part ∈ t.parts, piece = part.opening r := by
  apply forall_mem_pieces
  . intro text
    exact Or.inl ⟨text, rfl⟩
  . refine Or.inr ⟨t, ?_, rfl⟩
    rw [parts_eq]
    exact List.mem_cons_self
  . intro elem helem piece hpiece
    have := sizeOf_lt_of_mem_elems helem
    rcases exists_part_of_mem_pieces elem piece hpiece with hplain | ⟨part, hpart, hopening⟩
    . exact Or.inl hplain
    . refine Or.inr ⟨part, ?_, hopening⟩
      rw [parts_eq, List.mem_cons, List.mem_flatMap]
      exact Or.inr ⟨elem, helem, hpart⟩
termination_by sizeOf t

end IdlType

namespace SpellingContext

variable {r : Registry} {declared : List String} {container header : String}

theorem header_mem_ofName {name : String} {p : Option Projection} {others : List Requirement}
    (h : (Piece.ofName name p).header? container = some header) :
    .header header ∈ (match p with
      | some p => Requirement.ofProjection p
      | none => others) := by
  cases p with
  | none => cases h
  | some p =>
    dsimp only [Piece.ofName, Piece.header?] at h
    dsimp only [Requirement.ofProjection]
    split at h
    . cases h
    . next hrequires =>
      rw [if_neg hrequires, ← Option.some.inj h]
      exact List.mem_singleton_self _

theorem header_mem_ownRequirements (declared : List String) {part : IdlType}
    (h : (part.opening r).header? container = some header) :
    .header header ∈ ownRequirements ⟨.cxx, r, declared⟩ container part := by
  cases part with
  | simple name => exact header_mem_ofName h
  | generic name args => exact header_mem_ofName h
  | _ =>
    rw [IdlType.opening, Piece.header?] at h
    rw [← Option.some.inj h]
    exact List.mem_singleton_self _

theorem header_mem_requirements (declared : List String) {t : IdlType} {piece : Piece}
    (hpiece : piece ∈ t.pieces r) (h : piece.header? container = some header) :
    .header header ∈ requirements ⟨.cxx, r, declared⟩ container t := by
  rcases t.exists_part_of_mem_pieces piece hpiece with ⟨text, rfl⟩ | ⟨part, hpart, rfl⟩
  . cases h
  . rw [mem_requirements_iff]
    exact ⟨part, hpart, header_mem_ownRequirements declared h⟩

end SpellingContext

namespace Requirement

theorem enclosingFlags_of_unset {span unique : AttrValue} {enclosing : List AttrValues}
    (hspan : span ≠ .flag true) (hunique : unique ≠ .flag true)
    (h : ∀ values ∈ enclosing, values.flag "span" = false ∧ values.flag "unique" = false) :
    (enclosingFlags span unique enclosing).1 ≠ .flag true ∧
      (enclosingFlags span unique enclosing).2 ≠ .flag true := by
  have hflag {values : AttrValues} {name : String} {known : AttrValue} (hknown : known ≠ .flag true)
      (h : values.flag name = false) : (values.get? name).getD known ≠ .flag true := by
    unfold AttrValues.flag at h
    cases hvalue : values.get? name with
    | none => exact hknown
    | some value =>
      rintro rfl
      simp [hvalue] at h
  induction enclosing generalizing span unique with
  | nil => exact ⟨hspan, hunique⟩
  | cons values rest ih =>
    rw [List.forall_mem_cons] at h
    have hspan' := hflag hspan h.1.1
    have hunique' := hflag hunique h.1.2
    rw [enclosingFlags]
    split
    . exact ⟨hspan', hunique'⟩
    . exact ih hspan' hunique' h.2

theorem containerHeader_of_unset {enclosing : List AttrValues}
    (h : ∀ values ∈ enclosing, values.flag "span" = false ∧ values.flag "unique" = false) :
    containerHeader enclosing = "<vector>" := by
  have hunset : AttrValue.absent ≠ .flag true := by
    intro h
    cases h
  rcases enclosingFlags_of_unset hunset hunset h with ⟨hspan, hunique⟩
  unfold containerHeader
  dsimp only
  rw [if_neg hspan, if_neg hunique]

end Requirement

namespace OutputInfo

variable {ds : List Declaration} {i : Interface} {enclosing : List AttrValues} {t : IdlType}

/--
Templates for native code see the headers of all pieces that the types of members are spelled with.
Sequences need the header of the container that the extended attributes around them ask for, which
is that of vectors unless one of them is `span` or `unique`.
-/
theorem header_mem_headers_of_mem_pieces (info : OutputInfo) (hi : .interface i ∈ ds)
    (ht : (enclosing, t) ∈ i.placedTypes) :
    ∃ view, info.Shows Registry.cxx ds view ∧
      Piece.spell (t.pieces info.registry) = t.spelled Dialect.cxx info.registry ∧
      (∀ piece ∈ t.pieces info.registry,
        ∀ header ∈ piece.header? (Requirement.containerHeader enclosing),
          header ∈ view.headers) ∧
      ((∀ values ∈ enclosing, values.flag "span" = false ∧ values.flag "unique" = false) →
        Requirement.containerHeader enclosing = "<vector>") := by
  refine ⟨info.view .cxx ds, shows_view info ds List.mem_cons_self, t.spell_pieces info.registry,
    ?_, Requirement.containerHeader_of_unset⟩
  intro piece hpiece header hheader
  unfold view
  rw [ClassView.mem_headers_iff]
  refine ⟨i, hi, ?_⟩
  rw [SpellingContext.mem_ofInterface_iff]
  exact Or.inl ⟨_, ht, SpellingContext.header_mem_requirements _ hpiece hheader⟩

def pathsByName : IdlType :=
  .record (.simple "string") (.optional (.simple "path"))

def spanned : Interface where
  header := ⟨"I", ⟨"a.idl", 1, 11⟩, false, [], []⟩
  base := none
  attributes := [⟨"m", pathsByName, ⟨"a.idl", 1, 46⟩, [], []⟩]
  operations := [
    ⟨"f", .sequence (.simple "int"), [], ⟨"a.idl", 1, 70⟩, [⟨⟨"span", ⟨"a.idl", 1, 50⟩⟩, []⟩],
      [("unique", .flag false), ("span", .flag true)]⟩]

def spannedInfo : OutputInfo where
  path := "a.hpp"
  version := 1
  initial := []
  registry := .builtin

theorem header_mem_headers_of_mem_pieces_spanned :
    ([[]], pathsByName) ∈ spanned.placedTypes ∧
      ∃ view, spannedInfo.Shows Registry.cxx [.interface spanned] view ∧
        pathsByName.spelled .cxx .builtin =
          "std::map<std::string, std::optional<std::filesystem::path>>" ∧
        ∀ header ∈ ["<map>", "<string>", "<optional>", "<filesystem>"],
          header ∈ view.headers := by
  have ht : ([[]], pathsByName) ∈ spanned.placedTypes := List.mem_cons_self
  have hpieces : pathsByName.pieces .builtin =
      [.record, .projection ⟨"<string>", "std::string"⟩, .plain ", ", .optional,
        .projection ⟨"<filesystem>", "std::filesystem::path"⟩, .plain ">", .plain ">"] := by
    cbv
  obtain ⟨view, hview, hspell, hheaders, -⟩ :=
    header_mem_headers_of_mem_pieces spannedInfo
      (List.mem_singleton_self (Declaration.interface spanned)) ht
  have hregistry : spannedInfo.registry = .builtin := rfl
  rw [hregistry, hpieces] at hspell hheaders
  refine ⟨ht, view, hview, ?_, ?_⟩
  . rw [← hspell]
    decide
  . intro header hheader
    simp only [List.mem_cons, List.not_mem_nil, or_false] at hheader
    rcases hheader with rfl | rfl | rfl | rfl
    . exact hheaders .record (by simp) _ rfl
    . exact hheaders (.projection ⟨"<string>", "std::string"⟩) (by simp) _ rfl
    . exact hheaders .optional (by simp) _ rfl
    . exact hheaders (.projection ⟨"<filesystem>", "std::filesystem::path"⟩) (by simp) _ rfl

theorem vector_not_mem_headers_spanned :
    ([[("unique", .flag false), ("span", .flag true)]], .sequence (.simple "int")) ∈
        spanned.placedTypes ∧
      (IdlType.sequence (.simple "int")).spelled .cxx .builtin = "std::vector<int>" ∧
      spannedInfo.Shows Registry.cxx [.interface spanned]
        (spannedInfo.view .cxx [.interface spanned]) ∧
      "<vector>" ∉ (spannedInfo.view .cxx [.interface spanned]).headers := by
  refine ⟨?_, ?_, shows_view _ _ List.mem_cons_self, ?_⟩
  . exact List.mem_cons_of_mem _ List.mem_cons_self
  . cbv
  . have hrequirements : SpellingContext.ofInterface
        ⟨.cxx, spannedInfo.registry, [Declaration.interface spanned].map (·.name)⟩ spanned =
        [.header "<string>", .header "<filesystem>", .header "<optional>", .header "<map>",
          .header "<span>"] := by
      cbv
    intro hvector
    rw [view, ClassView.mem_headers_iff] at hvector
    rcases hvector with ⟨i, hi, hmem⟩
    cases List.mem_singleton.1 hi
    rw [hrequirements] at hmem
    simp at hmem

end OutputInfo

end IdlCompiler
