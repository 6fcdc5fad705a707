/-!
This module contains registries, which bind the names of types to their spellings in the languages
that code is generated for.
-/

namespace IdlCompiler

structure Projection where
  requires : String
  target : String
  deriving DecidableEq, Repr

structure TypeBinding where
  lang : String
  name : String
  projection : Projection
  deriving DecidableEq, Repr

/--
The bindings of the names of simple types and of the heads of generic types. A binding hides the ones
behind it of the same language and name.
-/
structure Registry where
  simple : List TypeBinding := []
  generic : List TypeBinding := []
  deriving Repr

namespace Registry

def cxx : String := "cxx"

def py3 : String := "py3"

def defineSimple (r : Registry) (b : TypeBinding) : Registry :=
  { r with simple := b :: r.simple }

def defineGeneric (r : Registry) (b : TypeBinding) : Registry :=
  { r with generic := b :: r.generic }

def lookup (bindings : List TypeBinding) (lang name : String) : Option Projection :=
  (bindings.find? fun b => b.lang = lang ∧ b.name = name).map (·.projection)

def simple? (r : Registry) (lang name : String) : Option Projection :=
  lookup r.simple lang name

def generic? (r : Registry) (lang name : String) : Option Projection :=
  lookup r.generic lang name

def isSimple (r : Registry) (name : String) : Bool :=
  r.simple.any (·.name = name)

def names (bindings : List TypeBinding) : List String :=
  (bindings.map (·.name)).eraseDups.mergeSort

def both (name : String) (native stub : Projection) : List TypeBinding :=
  [⟨cxx, name, native⟩, ⟨py3, name, stub⟩]

def sized (bits : String) : List TypeBinding :=
  both ("int" ++ bits ++ "_t") ⟨"<cstdint>", "std::int" ++ bits ++ "_t"⟩ ⟨"", "int"⟩ ++
    both ("uint" ++ bits ++ "_t") ⟨"<cstdint>", "std::uint" ++ bits ++ "_t"⟩ ⟨"", "int"⟩

def scalar (name stub : String) : List TypeBinding :=
  both name ⟨"", name⟩ ⟨"", stub⟩

def builtin : Registry where
  simple :=
    both "string" ⟨"<string>", "std::string"⟩ ⟨"", "str"⟩ ++
    both "string_view" ⟨"<string_view>", "std::string_view"⟩ ⟨"", "str"⟩ ++
    both "path" ⟨"<filesystem>", "std::filesystem::path"⟩ ⟨"pathlib", "pathlib.Path"⟩ ++
    sized "8" ++ sized "16" ++ sized "32" ++ sized "64" ++
    scalar "void" "None" ++ scalar "int" "int" ++ scalar "unsigned" "int" ++
    scalar "short" "int" ++ scalar "long long" "int" ++ scalar "size_t" "int" ++
    scalar "char" "str" ++ scalar "bool" "bool" ++ scalar "float" "float" ++
    scalar "tuple" "tuple"

end Registry

end IdlCompiler
