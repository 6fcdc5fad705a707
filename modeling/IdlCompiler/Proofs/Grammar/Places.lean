import IdlCompiler.Proofs.Grammar.Composition

/-!
This module contains the places of source files where extended attributes may stand: in front of
something that is declared, which owns them, or in front of a closing bracket or the end, where they
dangle. Every opening square bracket of a file opens a block at one of its places.
-/

namespace IdlCompiler

inductive Owner where
  | declaration (d : Declaration)
  | attribute (a : Attribute)
  | operation (o : Operation)
  | argument (a : Argument)

namespace Owner

def attrs : Owner → List ExtAttr
  | .declaration d => d.header.attrs
  | .attribute a => a.attrs
  | .operation o => o.attrs
  | .argument a => a.attrs

def values : Owner → AttrValues
  | .declaration d => d.header.values
  | .attribute a => a.values
  | .operation o => o.values
  | .argument a => a.values

def domain : Owner → Domain
  | .declaration (.enum _) => .enum
  | .declaration (.interface _) => .interface
  | .attribute _ => .attribute
  | .operation _ => .operation
  | .argument _ => .argument

def Starts (ts : List Token) : Owner → Prop
  | .declaration d => ∃ mark p tail, Grammar.PartialDerives mark d.header.isPartial ∧
      ts = mark ++ ⟨.ident d.keyword, p⟩ :: ⟨.ident d.name, d.header.pos⟩ :: tail
  | .attribute a => ∃ p us tail, Grammar.TypedNameDerives us a.type ⟨a.name, a.pos⟩ ∧
      ts = ⟨.ident "attribute", p⟩ :: (us ++ tail)
  | .operation o => ∃ us p tail, Grammar.TypedNameDerives us o.result ⟨o.name, o.pos⟩ ∧
      ts = us ++ ⟨.op '(', p⟩ :: tail
  | .argument a => ∃ us tail, Grammar.TypedNameDerives us a.type ⟨a.name, a.pos⟩ ∧ ts = us ++ tail

end Owner

namespace Grammar

open Cursor

/--
Nothing is declared at the start of these tokens: a closing bracket or the end of the file comes
next, the latter maybe behind the mark that a declaration is partial.
-/
def Dangles (ts : List Token) : Prop :=
  isAtOp ')' ts ∨ isAtOp '}' ts ∨ isAtEnd (Declaration.readPartial ts).2.val

structure Place where
  attrs : List ExtAttr
  owner : Option Owner

namespace Place

def dangling (attrs : List ExtAttr) : Place :=
  ⟨attrs, none⟩

def Precedes (place : Place) (ts : List Token) : Prop :=
  match place.owner with
  | some o => o.Starts ts
  | none => Dangles ts

end Place

/--
The tokens `ts` with `tail` behind them have the extended attributes of `places`: every opening square
bracket opens a block of one of them, and the names of all attributes occur in source order.
-/
structure Placed (ts tail : List Token) (places : List Place) : Prop where
  exists_place : ∀ before p after, ts = before ++ ⟨.op '[', p⟩ :: after →
    ∃ place ∈ places, ∃ block rest, ⟨.op '[', p⟩ :: after = block ++ rest ∧
      BlockDerives block place.attrs ∧ place.attrs ≠ [] ∧ place.Precedes (rest ++ tail)
  names : ((places.flatMap (·.attrs)).map (·.name.token)).Sublist ts

abbrev Unopened (ts : List Token) : Prop :=
  Only (· ≠ .op '[') ts

variable {ts ts' tail : List Token} {ps ps' : List Place} {s : Schema}

theorem AttrDerives.exists_cons {attr : ExtAttr} (h : AttrDerives ts attr) :
    ∃ rest, ts = attr.name.token :: rest := by
  cases h <;> exact ⟨_, rfl⟩

theorem SepBy.names_sublist {attrs : List ExtAttr} (h : SepBy AttrDerives ts attrs) :
    (attrs.map (·.name.token)).Sublist ts := by
  induction h with
  | last h =>
    rcases h.exists_cons with ⟨rest, rfl⟩
    exact (List.nil_sublist rest).cons_cons _
  | more h _ ih =>
    rcases h.exists_cons with ⟨rest, rfl⟩
    exact List.Sublist.cons_cons _ ((ih.cons _).trans (List.sublist_append_right _ _))

theorem BlockDerives.names_sublist {attrs : List ExtAttr} (h : BlockDerives ts attrs) :
    (attrs.map (·.name.token)).Sublist ts := by
  cases h with
  | none => exact .slnil
  | some h => exact (h.names_sublist.trans (List.sublist_append_left _ _)).cons _

theorem BlockDerives.eq_nil_of_bracket {attrs : List ExtAttr} {before after : List Token} {p : Pos}
    (h : BlockDerives ts attrs) (heq : ts = before ++ ⟨.op '[', p⟩ :: after) :
    before = [] ∧ attrs ≠ [] := by
  cases h with
  | none => simp at heq
  | some hsep =>
    cases before with
    | nil => exact ⟨rfl, hsep.ne_nil⟩
    | cons t before =>
      have hfree := hsep.only (by simp) fun _ _ => AttrDerives.only inner_ne_opening
      rw [List.cons_append, List.cons_append, List.cons.injEq] at heq
      have hinner : Unopened (before ++ ⟨.op '[', p⟩ :: after) := by
        rw [← heq.2]
        simp [hfree]
      simp at hinner

namespace Placed

theorem of_unopened (h : Unopened ts) : Placed ts tail [] where
  exists_place := by
    rintro before p after rfl
    simp at h
  names := List.nil_sublist ts

theorem append (h : Placed ts (ts' ++ tail) ps) (h' : Placed ts' tail ps') :
    Placed (ts ++ ts') tail (ps ++ ps') where
  exists_place := by
    intro before p after heq
    rcases List.append_eq_append_iff.1 heq with ⟨mid, rfl, hts'⟩ | ⟨mid, hts, hafter⟩
    . rcases h'.exists_place mid p after hts' with ⟨place, hmem, hplace⟩
      exact ⟨place, List.mem_append_right _ hmem, hplace⟩
    . cases mid with
      | nil =>
        rcases h'.exists_place [] p after hafter.symm with ⟨place, hmem, hplace⟩
        exact ⟨place, List.mem_append_right _ hmem, hplace⟩
      | cons t mid =>
        rw [List.cons_append, List.cons.injEq] at hafter
        rcases hafter with ⟨rfl, rfl⟩
        rcases h.exists_place before p mid hts with
          ⟨place, hmem, block, rest, hblock, hderives, hne, hprecedes⟩
        refine ⟨place, List.mem_append_left _ hmem, block, rest ++ ts', ?_, hderives, hne, ?_⟩
        . rw [← List.cons_append, hblock, List.append_assoc]
        . rw [List.append_assoc]
          exact hprecedes
  names := by
    rw [List.flatMap_append, List.map_append]
    exact h.names.append h'.names

theorem block {place : Place} (h : BlockDerives ts place.attrs) (hprecedes : place.Precedes tail) :
    Placed ts tail [place] where
  exists_place := by
    intro before p after heq
    rcases h.eq_nil_of_bracket heq with ⟨rfl, hne⟩
    exact ⟨place, List.mem_singleton_self _, ts, [], by simp [heq], h, hne, hprecedes⟩
  names := by
    rw [List.flatMap_singleton]
    exact h.names_sublist

theorem block_append {place : Place} (h : BlockDerives ts place.attrs)
    (hprecedes : place.Precedes (ts' ++ tail)) (h' : Placed ts' tail ps) :
    Placed (ts ++ ts') tail (place :: ps) :=
  (block h hprecedes).append h'

theorem unopened_append (h : Unopened ts) (h' : Placed ts' tail ps) :
    Placed (ts ++ ts') tail ps :=
  (of_unopened h).append h'

theorem append_unopened (h : Placed ts (ts' ++ tail) ps) (h' : Unopened ts') :
    Placed (ts ++ ts') tail ps := by
  have hplaced := h.append (of_unopened h')
  rwa [List.append_nil] at hplaced

end Placed

def Param.place (s : Schema) (p : Param) : Place :=
  ⟨p.attrs, some (.argument (p.argument s))⟩

namespace MemberDecl

def places (s : Schema) : MemberDecl → List Place
  | .attribute attrs type name =>
    [⟨attrs, some (.attribute ⟨name.text, type, name.pos, attrs, s.valuesOf .attribute attrs⟩)⟩]
  | .operation attrs result name params dangling =>
    ⟨attrs, some (.operation ⟨name.text, result, params.map (·.argument s), name.pos, attrs,
      s.valuesOf .operation attrs⟩)⟩ :: (params.map (·.place s) ++ [.dangling dangling])

end MemberDecl

def Body.places (s : Schema) : Body → List Place
  | .enum _ => []
  | .interface members dangling => members.flatMap (·.places s) ++ [.dangling dangling]

def Item.places (s : Schema) (i : Item) : List Place :=
  ⟨i.attrs, some (.declaration (i.declaration s))⟩ :: i.body.places s

def File.places (s : Schema) (f : File) : List Place :=
  f.items.flatMap (·.places s) ++ [.dangling f.dangling]

theorem ParamDerives.placed {param : Param} (h : ParamDerives ts param) :
    Placed ts tail [param.place s] := by
  rcases h with ⟨hattrs, hname⟩
  exact .block_append hattrs ⟨_, tail, hname, rfl⟩ (.of_unopened (hname.only inner_ne_opening))

theorem ParamsDerive.placed {params : List Param} {dangling : List ExtAttr}
    (h : ParamsDerive ts params dangling) (hclose : isAtOp ')' tail) :
    Placed ts tail (params.map (·.place s) ++ [.dangling dangling]) := by
  induction h with
  | none hattrs => exact .block hattrs (.inl hclose)
  | last hparam =>
    have hempty : Placed [] tail [.dangling []] := .block .none (.inl hclose)
    have hplaced := (hparam.placed (s := s)).append hempty
    rwa [List.append_nil] at hplaced
  | @more ts ts' param params dangling p hparam _ ih =>
    have hcomma : Unopened [⟨.op ',', p⟩] := by simp
    exact hparam.placed.append (.unopened_append hcomma ih)

theorem MemberDerives.placed {member : MemberDecl} (h : MemberDerives ts member) :
    Placed ts tail (member.places s) := by
  rcases h with @⟨ts, ts', attrs, type, name, p, q, hattrs, hname⟩ |
    @⟨ts, ts', ts'', attrs, result, name, params, dangling, p, q, r, hattrs, hname, -, hparams⟩
  . rw [List.append_assoc]
    refine .block_append hattrs ?_ (.of_unopened (by simp [hname.only inner_ne_opening]))
    exact ⟨p, ts', ⟨.op ';', q⟩ :: tail, hname, by simp⟩
  . have hclose : isAtOp ')' ([⟨.op ')', q⟩, ⟨.op ';', r⟩] ++ tail) := by simp [isAtOp]
    have hopen : Unopened (ts' ++ [⟨.op '(', p⟩]) := by simp [hname.only inner_ne_opening]
    have hplaced := Placed.unopened_append hopen
      ((hparams.placed (s := s) hclose).append_unopened (by simp))
    simp only [List.append_assoc, List.singleton_append] at hplaced
    rw [List.append_assoc, List.append_assoc]
    refine .block_append hattrs ?_ hplaced
    exact ⟨ts', p, _, hname, by simp; rfl⟩

theorem MembersDerive.placed {members : List MemberDecl} {dangling : List ExtAttr}
    (h : MembersDerive ts members dangling) (hclose : isAtOp '}' tail) :
    Placed ts tail (members.flatMap (·.places s) ++ [.dangling dangling]) := by
  induction h with
  | nil hattrs => exact .block hattrs (.inr (.inl hclose))
  | cons hmember _ ih =>
    rw [List.flatMap_cons, List.append_assoc]
    exact hmember.placed.append ih

theorem BodyDerives.placed {kind : String} {body : Body} (h : BodyDerives kind ts body)
    (hclose : isAtOp '}' tail) : Placed ts tail (body.places s) := by
  cases h with
  | enum hitems => exact .of_unopened (hitems.only inner_ne_opening)
  | interface hmembers => exact hmembers.placed hclose

theorem BodyDerives.starts {kind : String} {attrs : List ExtAttr} {isPartial : Bool} {name : Name}
    {base : Option String} {body : Body} {mark : List Token} (h : BodyDerives kind ts body)
    (hmark : PartialDerives mark isPartial) (p : Pos) (rest : List Token) :
    Owner.Starts (mark ++ ⟨.ident kind, p⟩ :: name.token :: rest)
      (.declaration (Item.declaration s ⟨attrs, isPartial, name, base, body⟩)) := by
  cases h <;> exact ⟨mark, p, rest, hmark, rfl⟩

theorem ItemDerives.placed {item : Item} (h : ItemDerives ts item) :
    Placed ts tail (item.places s) := by
  rcases h with @⟨ts₁, ts₂, ts₃, ts₄, attrs, isPartial, kind, base, body, p, q, r, u, name, hattrs,
    hpartial, hbase, hbody⟩
  have hclose : isAtOp '}' ([⟨.op '}', r⟩, ⟨.op ';', u⟩] ++ tail) := by simp [isAtOp]
  have hhead : Unopened (ts₂ ++ ⟨.ident kind, p⟩ :: name.token :: (ts₃ ++ [⟨.op '{', q⟩])) := by
    simp [hpartial.only inner_ne_opening, hbase.only inner_ne_opening, Name.token]
  have hplaced := Placed.unopened_append hhead
    ((hbody.placed (s := s) hclose).append_unopened (by simp))
  simp only [List.append_assoc, List.nil_append, List.cons_append] at hplaced
  simp only [List.append_assoc, List.cons_append]
  refine .block_append hattrs ?_ hplaced
  rw [List.append_assoc]
  exact hbody.starts hpartial p _

theorem FileDerives.placed {f : File} (h : FileDerives ts f) : Placed ts [] (f.places s) := by
  induction h with
  | @nil ts₁ ts₂ dangling isPartial p hattrs hpartial =>
    have hnone : takeWord? "partial" [⟨.eof, p⟩] = Option.none := rfl
    have hend : Dangles (ts₂ ++ [⟨.eof, p⟩] ++ []) := by
      rcases Declaration.readPartial_of_partialDerives hpartial hnone with ⟨_, hread⟩
      rw [List.append_nil]
      exact .inr (.inr (by rw [hread]; simp [isAtEnd]))
    rw [List.append_assoc]
    exact .block_append hattrs hend (.of_unopened (by simp [hpartial.only inner_ne_opening]))
  | cons hitem _ ih =>
    rw [File.places, List.flatMap_cons, List.append_assoc]
    exact hitem.placed.append ih

end Grammar

end IdlCompiler
