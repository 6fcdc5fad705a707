import IdlCompiler.Template.Error
import IdlCompiler.Template.Value
import IdlCompiler.Text.Quoted
import IdlCompiler.Token.Lexer

/-!
This module contains the errors that stop a run of the compiler. An error is a cause with any number
of contexts around it, each of which says what was being done.
-/

namespace IdlCompiler

inductive Error where
  | source (d : Diagnostic)
  | lineTooLong
  | template (e : Template.Error)
  | invalidConfiguration
  | unknownLanguage
  | noSuchFile (path : String)
  | malformedDefine (text : String)
  | unknownDomain (name : String)
  | emptyChoice (rule : String)
  | undumpable (fault : Value.JsonFault)
  | usage (text : String)
  | fault (text : String)
  | within (context : String) (cause : Error)
  deriving DecidableEq, Repr

namespace Error

/--
A message as it is shown. The angle quotes mark private parts of messages, so where they occur in a
message they are shown as question marks.
-/
def shown (message : String) : String :=
  message.map fun c => if c = '‹' ∨ c = '›' then '?' else c

def text : Error → String
  | .source d => d.text
  | .lineTooLong => "bufio.Scanner: token too long"
  | .template e => e.text
  | .invalidConfiguration => "invalid configuration"
  | .unknownLanguage => "unknown language"
  | .noSuchFile path => "open " ++ path ++ ": file does not exist"
  | .malformedDefine text =>
    shown ("define " ++ Text.quoted text ++ ": expected <var>=<value>")
  | .unknownDomain name => shown ("unknown attribute domain " ++ Text.quoted name)
  | .emptyChoice rule =>
    shown ("attribute " ++ Text.quoted rule ++ ": choice needs at least one value")
  | .undumpable f => f.text
  | .usage text => text
  | .fault text => text
  | .within context cause =>
    if context = "" then cause.text else shown context ++ ": " ++ cause.text

def parts : Error → List String
  | .within context cause => shown context :: cause.parts
  | .noSuchFile path => [shown ("open " ++ path), "file does not exist"]
  | e => [e.text]

def tidied : List Char → List Char
  | [] => []
  | c :: cs => if c = '\n' && cs.head?.all (· = '\n') then tidied cs else c :: tidied cs

def display (e : Error) : String :=
  let parts := e.parts.map fun part => String.ofList (tidied part.toList)
  ": ".intercalate (parts.filter (· ≠ ""))

def root : Error → Error
  | .within _ cause => cause.root
  | e => e

def ofLexError (file : String) : LexError → Error
  | .diagnostic d => .source d
  | .lineTooLong => .within ("reading " ++ file) .lineTooLong

end Error

end IdlCompiler
