/-!
This module contains the marks by which a text tells how it is to be shown on a terminal. Where marks
have no effect they are left out.
-/

namespace IdlCompiler.Text.Mark

def isInner (c : Char) : Bool :=
  c.isAlphanum || c = '_' || c = '=' || c = ',' || c = ';'

def after? : List Char → Option (List Char)
  | '<' :: cs =>
    let inner := if cs.head? = some '/' then cs.drop 1 else cs
    match inner.dropWhile isInner with
    | '>' :: rest => some rest
    | _ => none
  | _ => none

def remove : Nat → List Char → List Char
  | 0, cs => cs
  | _, [] => []
  | fuel + 1, c :: cs =>
    match after? (c :: cs) with
    | some rest => remove fuel rest
    | none => c :: remove fuel cs

def hasClosing : List Char → Bool
  | [] => false
  | c :: cs => ['<', '/', '>'].isPrefixOf (c :: cs) || hasClosing cs

def shown (cs : List Char) : List Char :=
  if hasClosing cs then remove cs.length cs else cs

def restyle : List Char → List Char
  | '\x1b' :: '[' :: '0' :: 'm' :: cs =>
    '\x1b' :: '[' :: '0' :: 'm' :: '\x1b' :: '[' :: 'm' :: restyle cs
  | c :: cs => c :: restyle cs
  | [] => []

/--
A line on a terminal. Marks that come into being when others are left out are left out too, twice
before and twice after its style is set.
-/
def line (s : String) : String :=
  String.ofList (shown (shown (restyle (shown (shown s.toList))))) ++ "\n"

end IdlCompiler.Text.Mark
