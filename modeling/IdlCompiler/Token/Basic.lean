import IdlCompiler.Diagnostic

/-!
This module contains the tokens of interface definitions and streams of them.
-/

namespace IdlCompiler

inductive Lexeme where
  | ident (name : String)
  | number (digits : String)
  | string (value : String)
  | op (char : Char)
  | eof
  deriving DecidableEq, Repr

namespace Lexeme

def kind : Lexeme → String
  | .ident _ => "ident"
  | .number _ => "number"
  | .string _ => "string"
  | .op _ => "op"
  | .eof => "eof"

def text : Lexeme → String
  | .ident name => name
  | .number digits => digits
  | .string value => "\"" ++ value ++ "\""
  | .op char => String.singleton char
  | .eof => "<eof>"

def literal : Lexeme → String
  | .string value => value
  | other => other.text

def description : Lexeme → String
  | .op char => "`" ++ String.singleton char ++ "'"
  | other => other.text

end Lexeme

structure Token where
  lexeme : Lexeme
  pos : Pos
  deriving DecidableEq, Repr

structure TokenStream where
  tokens : List Token
  endPos : Pos
  deriving DecidableEq, Repr

namespace TokenStream

def eof (s : TokenStream) : Token :=
  ⟨.eof, s.endPos⟩

def toList (s : TokenStream) : List Token :=
  s.tokens ++ [s.eof]

end TokenStream

end IdlCompiler
