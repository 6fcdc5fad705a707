import IdlCompiler.CommandLine.Run
import Std.Time

/-!
This module contains the program: it reads the files that a run needs, runs the compiler on them, and
brings what the run did to the files back to where they came from.
-/

namespace IdlCompiler

def CommandLine.paths (c : CommandLine) : List String :=
  c.options.config.toList ++ c.args

def Config.paths (config : Config) (defines : List (String × String)) : List String :=
  (config.outputs.filter (!·.isSkipped)).flatMap fun o =>
    config.templatePath o :: (o.renderedPath defines).toOption.toList

def pathsOf (files : FileTree) (words : List String) : List String :=
  match CommandLine.read words with
  | .error _ => []
  | .ok c =>
    let outputs? : Except Error (List String) := do
      let config ← Config.load files (c.options.config.getD "")
      return config.paths (← Define.readAll c.options.defines)
    c.paths ++ outputs?.toOption.getD []

def FileTree.addFiles (t : FileTree) : List String → IO FileTree
  | [] => return t
  | path :: paths => do
    let t ←
      try
        let bytes ← IO.FS.readBinFile path
        pure (t.write path (String.ofList ((Text.Glyph.ofBytes bytes.toList).map (·.char))))
      catch _ => pure t
    t.addFiles paths

def writeChanges (before : FileTree) : List (String × FileEntry) → IO Unit
  | [] => return
  | (path, entry) :: rest => do
    match entry with
    | .file content =>
      if before.get? path ≠ some entry then
        IO.FS.createDirAll (Path.dir path)
        IO.FS.writeFile path content
    | .directory => pure ()
    writeChanges before rest

def removeMissing (after : FileTree) : List (String × FileEntry) → IO Unit
  | [] => return
  | (path, entry) :: rest => do
    if entry ≠ .directory && (after.get? path).isNone then
      IO.FS.removeFile path
    removeMissing after rest

def presentTime : IO String := do
  let time := Std.Time.DateTime.ofTimestampWithZone (← Std.Time.Timestamp.now) .UTC
  return time.format "uuuu-MM-dd" ++ "T" ++ time.format "HH:mm:ss.SSS" ++ "Z"

end IdlCompiler

open IdlCompiler in
def main (words : List String) : IO UInt32 := do
  let named ← FileTree.addFiles {} (pathsOf {} words)
  let files ← named.addFiles (pathsOf named words)
  let result := runCompiler (← presentTime) files words
  removeMissing result.files files.entries
  writeChanges files result.files.entries
  (← IO.getStdout).putStr result.output
  (← IO.getStderr).putStr result.errors
  return UInt32.ofNat result.exitCode
