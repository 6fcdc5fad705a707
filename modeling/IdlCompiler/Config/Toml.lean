import IdlCompiler.Config.Toml.Reader
import IdlCompiler.Config.Toml.Tables

/-!
This module contains the reading of TOML documents.
-/

namespace IdlCompiler.Toml

def parse? (text : String) : Option Document :=
  let cs := text.toList
  let cs := if cs.head? = some '\ufeff' then cs.drop 1 else cs
  if isAllowed cs then
    match statements? [] (2 * cs.length + 4) cs with
    | some statements => (Tables.run? {} [] statements).map fun t => .table t.root
    | none => none
  else
    none

end IdlCompiler.Toml
