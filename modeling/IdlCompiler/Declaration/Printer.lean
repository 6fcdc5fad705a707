import IdlCompiler.Declaration.Basic
import IdlCompiler.Token.Literal

/-!
This module contains the writing of declarations as source text.
-/

namespace IdlCompiler

def Enum.itemLines : List String → List String
  | [] => []
  | [item] => ["    " ++ Literal.source item]
  | item :: items => ("    " ++ Literal.source item ++ ",") :: itemLines items

def Enum.lines (e : Enum) : List String :=
  [ExtAttr.blockText e.header.attrs ++ "enum " ++ e.header.name ++ " \x7b"] ++
    itemLines e.items ++ ["\x7d;"]

def Attribute.line (a : Attribute) : String :=
  ExtAttr.blockText a.attrs ++ "attribute " ++ a.type.text ++ " " ++ a.name ++ ";"

def Argument.text (a : Argument) : String :=
  ExtAttr.blockText a.attrs ++ a.type.text ++ " " ++ a.name

def Operation.line (o : Operation) : String :=
  ExtAttr.blockText o.attrs ++ o.result.text ++ " " ++ o.name ++ "(" ++
    ", ".intercalate (o.args.map Argument.text) ++ ");"

def Interface.firstLine (i : Interface) : String :=
  let mark := if i.header.isPartial then "partial " else ""
  let base :=
    match i.base with
    | some name => " : " ++ name
    | none => ""
  ExtAttr.blockText i.header.attrs ++ mark ++ "interface " ++ i.header.name ++ base ++ " \x7b"

def Interface.lines (i : Interface) : List String :=
  [i.firstLine] ++ i.attributes.map (fun a => "    " ++ a.line) ++
    i.operations.map (fun o => "    " ++ o.line) ++ ["\x7d;"]

namespace Declaration

def lines : Declaration → List String
  | .enum e => e.lines
  | .interface i => i.lines

def text (d : Declaration) : String :=
  String.join (d.lines.map (· ++ "\n"))

def textAll (ds : List Declaration) : String :=
  "\n".intercalate (ds.map text)

end Declaration

end IdlCompiler
