import IdlCompiler.Scalar

/-!
This module contains the statements of TOML documents as they are written.
-/

namespace IdlCompiler.Toml

abbrev Key : Type :=
  List String

inductive Literal where
  | scalar (value : Scalar)
  | array (items : List Literal)
  | table (entries : List (Key × Literal))
  deriving Inhabited

inductive Statement where
  | table (key : Key)
  | tableItem (key : Key)
  | entry (key : Key) (value : Literal)
  deriving Inhabited

end IdlCompiler.Toml
