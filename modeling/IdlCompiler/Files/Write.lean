import IdlCompiler.Files.FileTree

/-!
This module contains the writing of files that are made while they are open. A file that could not be
completed is removed.
-/

namespace IdlCompiler

structure FileFaults where
  makeDirectory : Option Error := none
  create : Option Error := none
  close : Option Error := none

namespace FileTree

def create (t : FileTree) (path : String) (faults : FileFaults := {}) : FileTree × Option Error :=
  let dir := Path.dir path
  match if dir = "." then none else faults.makeDirectory with
  | some e => (t, some (.within ("creating " ++ dir) e))
  | none =>
    let t := if dir = "." then t else t.makeDirectories dir
    match faults.create with
    | some e => (t, some (.within ("creating " ++ path) e))
    | none => (t.write path "", none)

def complete (t : FileTree) (path content : String) (failure : Option Error)
    (faults : FileFaults := {}) : FileTree × Option Error :=
  let t := t.write path content
  match failure.or (faults.close.map (.within ("closing " ++ path) ·)) with
  | some e => (t.remove path, some e)
  | none => (t, none)

def writeParts (t : FileTree) (path : String) (parts : List String) (failure : Option Error)
    (faults : FileFaults := {}) : FileTree × Option Error :=
  match t.create path faults with
  | (t, some e) => (t, some e)
  | (t, none) => t.complete path (String.join parts) failure faults

end FileTree

end IdlCompiler
