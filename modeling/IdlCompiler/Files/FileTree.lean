import IdlCompiler.Error
import IdlCompiler.Files.Path

/-!
This module contains file trees. Files are known by cleaned paths; the directories above a file are
made with it, and a directory reads as an empty file.
-/

namespace IdlCompiler

inductive FileEntry where
  | file (content : String)
  | directory
  deriving DecidableEq, Repr

structure FileTree where
  entries : List (String × FileEntry) := [("/", .directory)]
  deriving Repr

namespace FileTree

/--
The key under which a path is known. The directory where relative paths start is the root, and so is
the one above it.
-/
def key (path : String) : String :=
  let path := Path.clean path
  if path = "." ∨ path = ".." then "/" else path

def get? (t : FileTree) (path : String) : Option FileEntry :=
  t.entries.lookup (key path)

def read? (t : FileTree) (path : String) : Option String :=
  match t.get? path with
  | some (.file content) => some content
  | some .directory => some ""
  | none => none

def read (t : FileTree) (path : String) : Except Error String :=
  match t.read? path with
  | some content => .ok content
  | none => .error (.noSuchFile (key path))

def put (t : FileTree) (path : String) (entry : FileEntry) : FileTree :=
  ⟨(key path, entry) :: t.entries.filter (·.1 ≠ key path)⟩

def makeDirectories (t : FileTree) (path : String) : FileTree :=
  go (path.length + 2) path t
where
  go : Nat → String → FileTree → FileTree
    | 0, _, t => t
    | fuel + 1, path, t =>
      match t.get? path with
      | some _ => t
      | none => go fuel (Path.dir (key path)) (t.put path .directory)

def write (t : FileTree) (path content : String) : FileTree :=
  (t.put path (.file content)).makeDirectories (Path.dir (key path))

def remove (t : FileTree) (path : String) : FileTree :=
  ⟨t.entries.filter (·.1 ≠ key path)⟩

def ofFiles (files : List (String × String)) : FileTree :=
  files.foldl (fun t file => t.write file.1 file.2) {}

end FileTree

end IdlCompiler
