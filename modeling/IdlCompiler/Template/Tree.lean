import IdlCompiler.Template.Directive

/-!
This module contains templates as trees of sections: their nesting, the removal of line ends that
only lay out directives, and their dump.
-/

namespace IdlCompiler

namespace Template

inductive Node where
  | literal (text : String)
  | emit (path : Path)
  | lineEnd
  | continuation
  | block (kind : SectionKind) (path : Path) (body : List Node)
  deriving Repr, Inhabited

structure OpenSection where
  kind : SectionKind
  path : Path
  before : List Node

/--
Nest directives into nodes. The nodes read since the innermost open section was entered are in
`nodes`, the last one first; `last` is the number of the last line.
-/
def nest (last : Nat) (sections : List OpenSection) (nodes : List Node) :
    List Located → Except Error (List Node)
  | [] =>
    match sections with
    | [] => .ok nodes.reverse
    | s :: _ => .error ⟨last, .notClosed s.path.text⟩
  | ⟨line, directive⟩ :: rest =>
    match directive with
    | .literal text => nest last sections (.literal text :: nodes) rest
    | .emit path => nest last sections (.emit path :: nodes) rest
    | .lineEnd => nest last sections (.lineEnd :: nodes) rest
    | .continuation => nest last sections (.continuation :: nodes) rest
    | .enter kind path => nest last (⟨kind, path, nodes⟩ :: sections) [] rest
    | .leave path =>
      match sections with
      | [] => .error ⟨line, .closedRoot path.text⟩
      | s :: sections =>
        if s.path.text = path.text then
          nest last sections (.block s.kind s.path nodes.reverse :: s.before) rest
        else
          .error ⟨line, .closedOther s.path.text path.text⟩

/--
What stands before a node of a section, as far as it matters for the layout.
-/
inductive Before where
  | start
  | block
  | continuation
  | joined
  | other
  deriving DecidableEq, Repr

def Before.dropsLineEnd : Before → Bool
  | .start => true
  | .block => true
  | .continuation => true
  | _ => false

def Node.after (before : Before) : Node → Before
  | .lineEnd => if before = .continuation then .joined else .other
  | .continuation => .continuation
  | .block _ _ _ => .block
  | .literal _ => .other
  | .emit _ => .other

def isIndent (c : Char) : Bool :=
  c = ' ' || c = '\t' || c = '\r' || c = '\n' || c = '\x0b' || c = '\x0c'

mutual

/--
Drop a node if it is a line end that only lays out directives, and the indentation of a literal on a
line that is joined onto the line before it.
-/
def Node.tidy (before : Before) : Node → List Node
  | .lineEnd => if before.dropsLineEnd then [] else [.lineEnd]
  | .literal text =>
    if before = .joined then [.literal (String.ofList (text.toList.dropWhile isIndent))]
    else [.literal text]
  | .block kind path body => [.block kind path (tidyAll .start body)]
  | .emit path => [.emit path]
  | .continuation => [.continuation]

def tidyAll (before : Before) : List Node → List Node
  | [] => []
  | n :: ns => n.tidy before ++ tidyAll (n.after before) ns

end

def quotedLiteral (text : String) : String :=
  let escaped := text.toList.flatMap fun
    | '\\' => ['\\', '\\']
    | '\x27' => ['\\', '\x27']
    | '\t' => ['\\', 't']
    | '\r' => ['\\', 'r']
    | c => [c]
  "'" ++ String.ofList escaped ++ "'"

def SectionKind.mark : SectionKind → String
  | .each => ""
  | .ifPresent => "? "
  | .ifAbsent => "! "

mutual

def Node.dump (margin : String) : Node → String
  | .literal text => margin ++ ": " ++ quotedLiteral text ++ "\n"
  | .emit path => margin ++ "> " ++ path.text ++ "\n"
  | .lineEnd => ""
  | .continuation => margin ++ "LINE_CONT\n"
  | .block kind path body =>
    margin ++ kind.mark ++ path.text ++ " \x7b\n" ++ dumpAll (margin ++ "     ") body ++
      margin ++ "\x7d\n"

def dumpAll (margin : String) : List Node → String
  | [] => ""
  | n :: ns => n.dump margin ++ dumpAll margin ns

end

end Template

structure Template where
  nodes : List Template.Node
  deriving Repr

namespace Template

def parse (text : String) : Except Error Template := do
  let directives ← Located.ofText text
  let last := (directives.getLast?.map (·.line)).getD 1
  let nodes ← nest last [] [] directives
  return ⟨tidyAll .start nodes⟩

def dump (t : Template) : String :=
  dumpAll "" t.nodes

end Template

end IdlCompiler
