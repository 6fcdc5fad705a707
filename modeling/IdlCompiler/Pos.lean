/-!
This module contains positions in source files.
-/

namespace IdlCompiler

/--
A place in a source file. Lines and columns count from one, columns in characters; zero means
unknown. Lines are counted without a bound, so positions are those of 32-bit counters only below
`2 ^ 32` lines.
-/
structure Pos where
  file : String := ""
  line : Nat := 0
  col : Nat := 0
  deriving DecidableEq, Repr, Inhabited

namespace Pos

/--
The position as diagnostics show it: the known ones of file, line and column, divided by colons, or
a dash if nothing is known. A column without a line is not shown.
-/
def text (p : Pos) : String :=
  let place :=
    if p.line = 0 then ""
    else if p.col = 0 then toString p.line
    else toString p.line ++ ":" ++ toString p.col
  if p.file = "" then
    if place = "" then "-" else place
  else if place = "" then
    p.file
  else
    p.file ++ ":" ++ place

end Pos

end IdlCompiler
