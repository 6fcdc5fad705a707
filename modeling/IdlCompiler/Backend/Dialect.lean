import IdlCompiler.IdlType.Basic
import IdlCompiler.Registry

/-!
This module contains the spelling of types in the languages that class views are made for.
-/

namespace IdlCompiler

/--
How a language spells the types that are made of others. Each spelling takes the spellings of the
types inside, with commas between them.
-/
structure Dialect where
  lang : String
  optional : String → String
  sequence : String → String
  union : String → String
  record : String → String
  generic : String → String → String
  genericMark : String
  hasHeaders : Bool

namespace Dialect

def cxx : Dialect where
  lang := Registry.cxx
  optional args := "std::optional<" ++ args ++ ">"
  sequence args := "std::vector<" ++ args ++ ">"
  union args := "std::variant<" ++ args ++ ">"
  record args := "std::map<" ++ args ++ ">"
  generic head args := head ++ "<" ++ args ++ ">"
  genericMark := "<>"
  hasHeaders := true

def py3 : Dialect where
  lang := Registry.py3
  optional args := args ++ " | None"
  sequence args := "list[" ++ args ++ "]"
  union args := "Union[" ++ args ++ "]"
  record args := "dict[" ++ args ++ "]"
  generic head args := head ++ "[" ++ args ++ "]"
  genericMark := "[]"
  hasHeaders := false

def ofLang? (lang : String) : Option Dialect :=
  [cxx, py3].find? fun d => d.lang = lang

def genericArgs (head : String) (args : List String) : List String :=
  match args with
  | first :: rest => if head = "std::span" then (first ++ " const") :: rest else first :: rest
  | [] => []

end Dialect

namespace IdlType

mutual

def spelled (d : Dialect) (r : Registry) : IdlType → String
  | .simple name => ((r.simple? d.lang name).map (·.target)).getD name
  | .optional elem => d.optional (elem.spelled d r)
  | .sequence elem => d.sequence (elem.spelled d r)
  | .union members => d.union (", ".intercalate (spelledAll d r members))
  | .record key value => d.record (key.spelled d r ++ ", " ++ value.spelled d r)
  | .generic name args =>
    let head := ((r.generic? d.lang name).map (·.target)).getD name
    d.generic head (", ".intercalate (Dialect.genericArgs head (spelledAll d r args)))

def spelledAll (d : Dialect) (r : Registry) : List IdlType → List String
  | [] => []
  | t :: ts => t.spelled d r :: spelledAll d r ts

end

end IdlType

end IdlCompiler
