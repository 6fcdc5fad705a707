import IdlCompiler.Proofs.Declaration.Load
import IdlCompiler.Proofs.Grammar.Composition
import IdlCompiler.Proofs.Layout.Alike
import IdlCompiler.Proofs.Token.Lexemes

/-!
This module contains what two sources with a line break between them declare. It is what the first
declares and then what the second declares, unless the first ends with extended attributes or a mark
for which it has no declaration: these go to the first declaration of the second.
-/

namespace IdlCompiler

open Grammar Text

theorem Except.Alike.exists_ok_iff {α β γ : Type} {f : α → γ} {g : β → γ}
    {x : Except Diagnostic α} {y : Except Diagnostic β} (h : Alike (fun a b => f a = g b) x y)
    (c : γ) : (∃ a, x = .ok a ∧ f a = c) ↔ ∃ b, y = .ok b ∧ g b = c := by
  cases h with
  | ok hfg => simp [hfg]
  | error _ => simp

namespace TokenStream

variable {file fileA fileB : String} {src a b : List Glyph} {stream streamA streamB : TokenStream}

def Closed (stream : TokenStream) : Prop :=
  ∀ t ∈ stream.tokens.getLast?, t.lexeme = .op ';'

theorem exists_ofSource_append (ha : ofSource fileA a = .ok streamA)
    (hb : ofSource fileB b = .ok streamB) {newline : Glyph} (hnewline : newline.char = '\n')
    (file : String) :
    ∃ stream, ofSource file (a ++ newline :: b) = .ok stream ∧
      SameLexemes stream.tokens (streamA.tokens ++ streamB.tokens) := by
  have hlexemes := allLexemes_append_newline (allLexemes_of_ofSource ha)
    (allLexemes_of_ofSource hb) hnewline
  rcases exists_ofSource_of_allLexemes hlexemes file with ⟨stream, hstream, hsame⟩
  exact ⟨stream, hstream, by rw [SameLexemes, hsame, List.map_append]⟩

end TokenStream

namespace Declaration

variable {s : Schema} {file fileA fileB : String} {src a b : List Glyph}
  {stream stream' : TokenStream} {as bs ds : List Declaration}

theorem ofSource_eq_ok_iff (h : TokenStream.ofSource file src = .ok stream) :
    (ofSource s file src).result = .ok ds ↔ (ofTokens s stream).result = .ok ds := by
  unfold ofSource
  rw [h]
  exact Except.mapError_eq_ok_iff

theorem ofTokens_eq_ok_iff :
    (ofTokens s stream).result = .ok ds ↔
      ∃ f, FileDerives stream.untilEnd f ∧ f.Valid s ∧ f.declarations s = ds := by
  constructor
  . exact fileDerives_of_readAll
  . rintro ⟨f, hderives, hvalid, rfl⟩
    exact readAll_of_fileDerives stream.endPos hderives hvalid

def Declares (s : Schema) (file : String) (src : List Glyph) (ds : List Declaration) : Prop :=
  ∃ cs, (ofSource s file src).result = .ok cs ∧ cs.map (·.withoutPos) = ds.map (·.withoutPos)

theorem declares_iff (h : TokenStream.ofSource file src = .ok stream)
    (hsame : SameLexemes stream.tokens stream'.tokens) (ds : List Declaration) :
    Declares s file src ds ↔
      ∃ f, FileDerives stream'.untilEnd f ∧ f.Valid s ∧
        (f.declarations s).map (·.withoutPos) = ds.map (·.withoutPos) := by
  simp only [Declares, ofSource_eq_ok_iff h]
  rw [(ofTokens_alike hsame).result.exists_ok_iff]
  simp only [ofTokens_eq_ok_iff]
  constructor
  . rintro ⟨cs, ⟨f, hderives, hvalid, rfl⟩, hmap⟩
    exact ⟨f, hderives, hvalid, hmap⟩
  . rintro ⟨f, hderives, hvalid, hmap⟩
    exact ⟨_, ⟨f, hderives, hvalid, rfl⟩, hmap⟩

theorem attrs_declaration (i : Item) : (i.declaration s).header.attrs = i.attrs := by
  unfold Item.declaration
  cases i.body <;> rfl

theorem isPartial_declaration (i : Item) : (i.declaration s).header.isPartial = i.isPartial := by
  unfold Item.declaration
  cases i.body <;> rfl

theorem header_withoutPos (d : Declaration) : d.withoutPos.header = d.header.withoutPos := by
  cases d <;> rfl

theorem front_eq_of_same {i i' : Item} (h : Same (i.declaration s) (i'.declaration s)) :
    (i.attrs = [] ↔ i'.attrs = []) ∧ i.isPartial = i'.isPartial := by
  have hheader : (i.declaration s).header.withoutPos = (i'.declaration s).header.withoutPos := by
    rw [← header_withoutPos, ← header_withoutPos]
    exact congrArg header h
  constructor
  . have hattrs : i.attrs.map (·.withoutPos) = i'.attrs.map (·.withoutPos) := by
      rw [← attrs_declaration (s := s) i, ← attrs_declaration (s := s) i']
      exact congrArg Header.attrs hheader
    rw [← List.map_eq_nil_iff (f := (·.withoutPos)), hattrs, List.map_eq_nil_iff]
  . rw [← isPartial_declaration (s := s) i, ← isPartial_declaration (s := s) i']
    exact congrArg (·.isPartial) hheader

theorem declarations_followedBy (f g : File) :
    (f.followedBy g).declarations s = f.declarations s ++ g.declarations s :=
  List.map_append

theorem getLast?_eq_semicolon_iff {items ts₁ ts₂ : List Token} {attrs : List ExtAttr}
    {isPartial : Bool} (hitems : items = [] ∨ ∃ us q, items = us ++ [⟨.op ';', q⟩])
    (hattrs : BlockDerives ts₁ attrs) (hpartial : PartialDerives ts₂ isPartial) :
    (∀ t ∈ (items ++ (ts₁ ++ ts₂)).getLast?, t.lexeme = .op ';') ↔ ts₁ = [] ∧ ts₂ = [] := by
  cases hpartial with
  | some => simp [List.getLast?_append]
  | none =>
    cases hattrs with
    | some _ => simp [List.getLast?_append, List.getLast?_cons]
    | none =>
      rcases hitems with rfl | ⟨us, q, rfl⟩
      . simp
      . simp

theorem exists_items_of_fileDerives {f : File} (hsource : TokenStream.ofSource file src = .ok stream)
    (hderives : FileDerives stream.untilEnd f) :
    ∃ items ts₁ ts₂, stream.tokens = items ++ (ts₁ ++ ts₂) ∧ BlockDerives ts₁ f.dangling ∧
      PartialDerives ts₂ f.danglingPartial ∧ (stream.Closed ↔ ts₁ = [] ∧ ts₂ = []) ∧
      ∀ rest g, FileDerives (items ++ rest) g ↔ ∃ g', FileDerives rest g' ∧ g = f.followedBy g' := by
  rcases hderives.exists_items with ⟨items, ts₁, ts₂, p, hall, hattrs, hpartial, hitems, hiff⟩
  have htokens : stream.tokens = items ++ (ts₁ ++ ts₂) := by
    rw [TokenStream.untilEnd_eq_toList (TokenStream.ne_eof_of_ofSource hsource),
      TokenStream.toList, ← List.append_assoc, ← List.append_assoc] at hall
    rw [(List.append_inj' hall rfl).1, List.append_assoc]
  refine ⟨items, ts₁, ts₂, htokens, hattrs, hpartial, ?_, hiff⟩
  rw [TokenStream.Closed, htokens]
  exact getLast?_eq_semicolon_iff hitems hattrs hpartial

/--
Two sources with a line break between them declare what the first and then what the second declares,
if the first one ends with a semicolon or has no tokens. If the second declares something, then this
is the only way.
-/
theorem ofSource_append_newline (ha : (ofSource s fileA a).result = .ok as)
    (hb : (ofSource s fileB b).result = .ok bs) {newline : Glyph} (hnewline : newline.char = '\n')
    (file : String) :
    ∃ stream, TokenStream.ofSource fileA a = .ok stream ∧
      (stream.Closed → Declares s file (a ++ newline :: b) (as ++ bs)) ∧
      (bs ≠ [] → Declares s file (a ++ newline :: b) (as ++ bs) → stream.Closed) := by
  rcases exists_file_of_ofSource ha with ⟨streamA, f, hsourceA, hderivesA, hvalidA, rfl⟩
  rcases exists_file_of_ofSource hb with ⟨streamB, g, hsourceB, hderivesB, hvalidB, rfl⟩
  rcases exists_items_of_fileDerives hsourceA hderivesA with
    ⟨items, ts₁, ts₂, htokens, hattrs, hpartial, hclosed, hitems⟩
  rcases TokenStream.exists_ofSource_append hsourceA hsourceB hnewline file with
    ⟨stream, hsource, hsame⟩
  -- What dangles at the end of the first source comes in front of the second one.
  have hall : TokenStream.untilEnd ⟨streamA.tokens ++ streamB.tokens, streamB.endPos⟩ =
      items ++ (ts₁ ++ (ts₂ ++ streamB.untilEnd)) := by
    show TokenStream.upToEnd _ (streamA.tokens ++ streamB.tokens) = _
    rw [EofFree.upToEnd_append (TokenStream.ne_eof_of_ofSource hsourceA), htokens, List.append_assoc,
      List.append_assoc]
    rfl
  have hiff (ds : List Declaration) : Declares s file (a ++ newline :: b) ds ↔
      ∃ all, FileDerives (items ++ (ts₁ ++ (ts₂ ++ streamB.untilEnd))) all ∧ all.Valid s ∧
        (all.declarations s).map (·.withoutPos) = ds.map (·.withoutPos) := by
    rw [← hall]
    exact declares_iff hsource hsame ds
  refine ⟨streamA, hsourceA, ?_, ?_⟩
  . intro hends
    rcases hclosed.1 hends with ⟨rfl, rfl⟩
    refine (hiff _).2 ⟨f.followedBy g, (hitems _ _).2 ⟨g, hderivesB, rfl⟩, ?_, ?_⟩
    . intro i hi
      rcases List.mem_append.1 hi with hi | hi
      . exact hvalidA i hi
      . exact hvalidB i hi
    . rw [declarations_followedBy]
  . intro hne hdeclares
    rcases (hiff _).1 hdeclares with ⟨all, hderives, -, hmap⟩
    rcases (hitems _ _).1 hderives with ⟨g', hderives', rfl⟩
    rw [declarations_followedBy, List.map_append, List.map_append,
      List.append_cancel_left_eq] at hmap
    -- The first item of the second source is read with what dangles in front of it, and is still
    -- the same, so nothing dangles.
    cases hg : g.items with
    | nil => simp [File.declarations, hg] at hne
    | cons item rest =>
      cases hg' : g'.items with
      | nil => simp [File.declarations, hg, hg'] at hmap
      | cons item' rest' =>
        simp only [File.declarations, hg, hg', List.map_cons, List.cons.injEq] at hmap
        rcases front_eq_of_same hmap.1 with ⟨hsameAttrs, hsamePartial⟩
        exact hclosed.2 (hderivesB.eq_nil_of_front hattrs hpartial hderives' (by rw [hg]; rfl)
          (by rw [hg']; rfl) hsameAttrs hsamePartial)

def bareInterface (name : String) (pos : Pos) (isPartial : Bool) : Declaration :=
  .interface ⟨⟨name, pos, isPartial, [], []⟩, none, [], []⟩

theorem ofSource_append_newline_bareInterface :
    (ofSource ⟨fun _ => []⟩ "a.idl" (Glyph.ofString "interface A {};")).result =
        .ok [bareInterface "A" ⟨"a.idl", 1, 11⟩ false] ∧
      (ofSource ⟨fun _ => []⟩ "b.idl" (Glyph.ofString "partial interface B {}; [x]")).result =
        .ok [bareInterface "B" ⟨"b.idl", 1, 19⟩ true] ∧
      (⟨'\n', 1⟩ : Glyph).char = '\n' ∧
      ∃ stream, TokenStream.ofSource "a.idl" (Glyph.ofString "interface A {};") = .ok stream ∧
        (stream.Closed → Declares ⟨fun _ => []⟩ "c.idl" (Glyph.ofString "interface A {};" ++
            ⟨'\n', 1⟩ :: Glyph.ofString "partial interface B {}; [x]")
          ([bareInterface "A" ⟨"a.idl", 1, 11⟩ false] ++
            [bareInterface "B" ⟨"b.idl", 1, 19⟩ true])) ∧
        ([bareInterface "B" ⟨"b.idl", 1, 19⟩ true] ≠ [] →
          Declares ⟨fun _ => []⟩ "c.idl" (Glyph.ofString "interface A {};" ++
              ⟨'\n', 1⟩ :: Glyph.ofString "partial interface B {}; [x]")
            ([bareInterface "A" ⟨"a.idl", 1, 11⟩ false] ++
              [bareInterface "B" ⟨"b.idl", 1, 19⟩ true]) → stream.Closed) := by
  have ha : (ofSource ⟨fun _ => []⟩ "a.idl" (Glyph.ofString "interface A {};")).result =
      .ok [bareInterface "A" ⟨"a.idl", 1, 11⟩ false] := by
    cbv
  have hb : (ofSource ⟨fun _ => []⟩ "b.idl" (Glyph.ofString "partial interface B {}; [x]")).result =
      .ok [bareInterface "B" ⟨"b.idl", 1, 19⟩ true] := by
    cbv
  exact ⟨ha, hb, rfl, ofSource_append_newline ha hb rfl "c.idl"⟩

theorem not_declares_append_newline_of_partial :
    (ofSource ⟨fun _ => []⟩ "a.idl" (Glyph.ofString "partial")).result = .ok [] ∧
      (ofSource ⟨fun _ => []⟩ "b.idl" (Glyph.ofString "interface A {};")).result =
        .ok [bareInterface "A" ⟨"b.idl", 1, 11⟩ false] ∧
      ¬Declares ⟨fun _ => []⟩ "c.idl"
        (Glyph.ofString "partial" ++ ⟨'\n', 1⟩ :: Glyph.ofString "interface A {};")
        ([] ++ [bareInterface "A" ⟨"b.idl", 1, 11⟩ false]) := by
  refine ⟨?_, ?_, ?_⟩
  . cbv
  . cbv
  . rintro ⟨cs, hread, hmap⟩
    have hresult : (ofSource ⟨fun _ => []⟩ "c.idl"
        (Glyph.ofString "partial" ++ ⟨'\n', 1⟩ :: Glyph.ofString "interface A {};")).result =
        .ok [bareInterface "A" ⟨"c.idl", 2, 11⟩ true] := by
      cbv
    rw [hresult, Except.ok.injEq] at hread
    subst hread
    simp [bareInterface, withoutPos, Header.withoutPos] at hmap

end Declaration

end IdlCompiler
