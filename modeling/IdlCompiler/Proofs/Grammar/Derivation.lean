import IdlCompiler.Declaration.Reader

/-!
This module contains the grammar of interface definitions: what a source file consists of, and which
lists of tokens each part of it is written as. Nothing is said here about how a file is read.

Four rules make the grammar unambiguous. A member that starts with the word `attribute` is an
attribute, `long` with another `long` directly behind it is the one name `long long`, `long` takes
no arguments, and `sequence`, `union` and `record` start no other type than their own.
-/

namespace IdlCompiler

def Name.token (n : Name) : Token :=
  ⟨.ident n.text, n.pos⟩

theorem Name.token_inj {n m : Name} : n.token = m.token ↔ n = m := by
  rcases n with ⟨text, pos⟩
  rcases m with ⟨text', pos'⟩
  simp [token]

namespace Grammar

structure Param where
  attrs : List ExtAttr
  type : IdlType
  name : Name

/--
A member of an interface. The extended attributes in front of the closing parenthesis of an
operation belong to no argument.
-/
inductive MemberDecl where
  | attribute (attrs : List ExtAttr) (type : IdlType) (name : Name)
  | operation (attrs : List ExtAttr) (result : IdlType) (name : Name) (params : List Param)
    (dangling : List ExtAttr)

/--
What stands between the braces of a declaration. The extended attributes in front of the closing
brace of an interface belong to no member.
-/
inductive Body where
  | enum (items : List String)
  | interface (members : List MemberDecl) (dangling : List ExtAttr)

structure Item where
  attrs : List ExtAttr
  isPartial : Bool
  name : Name
  base : Option String
  body : Body

/--
A source file. What stands in front of its end belongs to no declaration.
-/
structure File where
  items : List Item
  dangling : List ExtAttr
  danglingPartial : Bool

def reserved : List String :=
  ["sequence", "union", "record"]

def IsLiteral : Lexeme → Prop
  | .string _ => True
  | .number _ => True
  | .ident _ => True
  | _ => False

inductive SepBy {α : Type} (Derives : List Token → α → Prop) : List Token → List α → Prop where
  | last {ts a} : Derives ts a → SepBy Derives ts [a]
  | more {ts ts' a as p} :
    Derives ts a → SepBy Derives ts' as → SepBy Derives (ts ++ ⟨.op ',', p⟩ :: ts') (a :: as)

mutual

inductive TypeDerives : List Token → IdlType → Prop where
  | simple {name p} : name ∉ reserved → TypeDerives [⟨.ident name, p⟩] (.simple name)
  | longLong {p q} : TypeDerives [⟨.ident "long", p⟩, ⟨.ident "long", q⟩] (.simple "long long")
  | optional {ts t p} :
    TypeDerives ts t → (∀ elem, t ≠ .optional elem) →
      TypeDerives (ts ++ [⟨.op '?', p⟩]) (.optional t)
  | sequence {ts t p q r} :
    TypeDerives ts t →
      TypeDerives (⟨.ident "sequence", p⟩ :: ⟨.op '<', q⟩ :: ts ++ [⟨.op '>', r⟩]) (.sequence t)
  | union {ts members p q r} :
    TypesDerive ts members →
      TypeDerives (⟨.ident "union", p⟩ :: ⟨.op '<', q⟩ :: ts ++ [⟨.op '>', r⟩]) (.union members)
  | record {ts ts' key value p q r u} :
    TypeDerives ts key → TypeDerives ts' value →
      TypeDerives
        (⟨.ident "record", p⟩ :: ⟨.op '<', q⟩ :: ts ++ ⟨.op ',', r⟩ :: ts' ++ [⟨.op '>', u⟩])
        (.record key value)
  | generic {ts name args p q r} :
    name ∉ reserved → name ≠ "long" → TypesDerive ts args →
      TypeDerives (⟨.ident name, p⟩ :: ⟨.op '<', q⟩ :: ts ++ [⟨.op '>', r⟩]) (.generic name args)

inductive TypesDerive : List Token → List IdlType → Prop where
  | last {ts t} : TypeDerives ts t → TypesDerive ts [t]
  | more {ts ts' t types p} :
    TypeDerives ts t → TypesDerive ts' types →
      TypesDerive (ts ++ ⟨.op ',', p⟩ :: ts') (t :: types)

end

inductive LiteralDerives : List Token → Lexeme → Prop where
  | intro {lexeme p} : IsLiteral lexeme → LiteralDerives [⟨lexeme, p⟩] lexeme

inductive AttrDerives : List Token → ExtAttr → Prop where
  | bare {name : Name} : AttrDerives [name.token] ⟨name, []⟩
  | equals {name : Name} {ts lexeme p} :
    LiteralDerives ts lexeme → AttrDerives (name.token :: ⟨.op '=', p⟩ :: ts) ⟨name, [lexeme]⟩
  | parens {name : Name} {ts args p q} :
    SepBy LiteralDerives ts args →
      AttrDerives (name.token :: ⟨.op '(', p⟩ :: ts ++ [⟨.op ')', q⟩]) ⟨name, args⟩

inductive BlockDerives : List Token → List ExtAttr → Prop where
  | none : BlockDerives [] []
  | some {ts attrs p q} :
    SepBy AttrDerives ts attrs → BlockDerives (⟨.op '[', p⟩ :: ts ++ [⟨.op ']', q⟩]) attrs

/--
A type and the name behind it, which is not `long` if the type is.
-/
inductive TypedNameDerives : List Token → IdlType → Name → Prop where
  | intro {ts type} {name : Name} :
    TypeDerives ts type → ¬(type = .simple "long" ∧ name.text = "long") →
      TypedNameDerives (ts ++ [name.token]) type name

inductive ParamDerives : List Token → Param → Prop where
  | intro {ts ts' attrs type name} :
    BlockDerives ts attrs → TypedNameDerives ts' type name →
      ParamDerives (ts ++ ts') ⟨attrs, type, name⟩

inductive ParamsDerive : List Token → List Param → List ExtAttr → Prop where
  | none {ts dangling} : BlockDerives ts dangling → ParamsDerive ts [] dangling
  | last {ts param} : ParamDerives ts param → ParamsDerive ts [param] []
  | more {ts ts' param params dangling p} :
    ParamDerives ts param → ParamsDerive ts' params dangling →
      ParamsDerive (ts ++ ⟨.op ',', p⟩ :: ts') (param :: params) dangling

inductive MemberDerives : List Token → MemberDecl → Prop where
  | attribute {ts ts' attrs type name p q} :
    BlockDerives ts attrs → TypedNameDerives ts' type name →
      MemberDerives (ts ++ ⟨.ident "attribute", p⟩ :: ts' ++ [⟨.op ';', q⟩])
        (.attribute attrs type name)
  | operation {ts ts' ts'' attrs result name params dangling p q r} :
    BlockDerives ts attrs → TypedNameDerives ts' result name →
      ts'.head?.map (·.lexeme) ≠ some (.ident "attribute") → ParamsDerive ts'' params dangling →
      MemberDerives (ts ++ ts' ++ ⟨.op '(', p⟩ :: ts'' ++ [⟨.op ')', q⟩, ⟨.op ';', r⟩])
        (.operation attrs result name params dangling)

inductive MembersDerive : List Token → List MemberDecl → List ExtAttr → Prop where
  | nil {ts dangling} : BlockDerives ts dangling → MembersDerive ts [] dangling
  | cons {ts ts' member members dangling} :
    MemberDerives ts member → MembersDerive ts' members dangling →
      MembersDerive (ts ++ ts') (member :: members) dangling

inductive ItemsDerive : List Token → List String → Prop where
  | nil : ItemsDerive [] []
  | last {value p} : ItemsDerive [⟨.string value, p⟩] [value]
  | more {ts value items p q} :
    ItemsDerive ts items → ItemsDerive (⟨.string value, p⟩ :: ⟨.op ',', q⟩ :: ts) (value :: items)

inductive BodyDerives : String → List Token → Body → Prop where
  | enum {ts items} : ItemsDerive ts items → BodyDerives "enum" ts (.enum items)
  | interface {ts members dangling} :
    MembersDerive ts members dangling → BodyDerives "interface" ts (.interface members dangling)

inductive PartialDerives : List Token → Bool → Prop where
  | none : PartialDerives [] false
  | some {p} : PartialDerives [⟨.ident "partial", p⟩] true

inductive BaseDerives : List Token → Option String → Prop where
  | none : BaseDerives [] none
  | some {name p q} : BaseDerives [⟨.op ':', p⟩, ⟨.ident name, q⟩] (some name)

inductive ItemDerives : List Token → Item → Prop where
  | intro {ts₁ ts₂ ts₃ ts₄ attrs isPartial kind base body p q r u} {name : Name} :
    BlockDerives ts₁ attrs → PartialDerives ts₂ isPartial → BaseDerives ts₃ base →
      BodyDerives kind ts₄ body →
      ItemDerives
        (ts₁ ++ ts₂ ++ ⟨.ident kind, p⟩ :: name.token :: ts₃ ++ ⟨.op '{', q⟩ :: ts₄ ++
          [⟨.op '}', r⟩, ⟨.op ';', u⟩])
        ⟨attrs, isPartial, name, base, body⟩

inductive FileDerives : List Token → File → Prop where
  | nil {ts₁ ts₂ dangling isPartial p} :
    BlockDerives ts₁ dangling → PartialDerives ts₂ isPartial →
      FileDerives (ts₁ ++ ts₂ ++ [⟨.eof, p⟩]) ⟨[], dangling, isPartial⟩
  | cons {ts ts' item items dangling isPartial} :
    ItemDerives ts item → FileDerives ts' ⟨items, dangling, isPartial⟩ →
      FileDerives (ts ++ ts') ⟨item :: items, dangling, isPartial⟩

end Grammar

end IdlCompiler
