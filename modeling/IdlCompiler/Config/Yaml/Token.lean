/-!
This module contains the tokens of YAML documents. Blocks have tokens of their own for where they
start and end, which the text shows only by its indentation.
-/

namespace IdlCompiler.Yaml

inductive Token where
  | streamEnd
  | version (major minor : Nat)
  | handle (name uri : String)
  | documentStart
  | documentEnd
  | sequenceStart
  | mappingStart
  | blockEnd
  | openBracket
  | closeBracket
  | openBrace
  | closeBrace
  | item
  | comma
  | key
  | value
  | alias (name : String)
  | anchor (name : String)
  | tag (handle suffix : String)
  | scalar (text : String) (plain : Bool)
  deriving DecidableEq, Repr

end IdlCompiler.Yaml
