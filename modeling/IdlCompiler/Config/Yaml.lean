import IdlCompiler.Config.Yaml.Meaning

/-!
This module contains the reading of YAML documents.
-/

namespace IdlCompiler.Yaml

def parse? (text : String) : Option Document :=
  let cs := text.toList
  let cs := if cs.head? = some '\ufeff' then cs.drop 1 else cs
  if cs.all isAllowed then
    match Stream.document? (tokens cs) with
    | some (some node) => node.root?
    | some none => some (.scalar .null)
    | none => none
  else
    none

end IdlCompiler.Yaml
