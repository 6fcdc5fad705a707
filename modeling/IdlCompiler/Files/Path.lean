/-!
This module contains operations on paths, whose parts are divided by slashes.
-/

namespace IdlCompiler.Path

def isAbsolute (path : String) : Bool :=
  path.toList.head? = some '/'

/--
Resolve the parts of a path, those before being in `done`, the last one first. A part that leads
upward takes back the part before it; above the root there is nothing.
-/
def resolve (absolute : Bool) (done : List (List Char)) : List (List Char) → List (List Char)
  | [] => done.reverse
  | part :: parts =>
    if part = [] ∨ part = ['.'] then
      resolve absolute done parts
    else if part = ['.', '.'] then
      match done with
      | [] => resolve absolute (if absolute then [] else [part]) parts
      | last :: before =>
        resolve absolute (if last = ['.', '.'] then part :: done else before) parts
    else
      resolve absolute (part :: done) parts

def clean (path : String) : String :=
  let absolute := isAbsolute path
  let parts := resolve absolute [] (path.toList.splitOn '/')
  let text := String.ofList (['/'].intercalate parts)
  if absolute then "/" ++ text else if text = "" then "." else text

def dir (path : String) : String :=
  clean (String.ofList (path.toList.reverse.dropWhile (· ≠ '/')).reverse)

def extension (path : String) : String :=
  let name := (path.toList.reverse.takeWhile (· ≠ '/'))
  if '.' ∈ name then
    String.ofList ('.' :: (name.takeWhile (· ≠ '.')).reverse)
  else
    ""

def join (directory path : String) : String :=
  if directory = "" then
    if path = "" then "" else clean path
  else
    clean (directory ++ "/" ++ path)

end IdlCompiler.Path
