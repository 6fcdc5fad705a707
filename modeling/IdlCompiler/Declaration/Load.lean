import IdlCompiler.Declaration.Merge
import IdlCompiler.Declaration.Reader
import IdlCompiler.Files.FileTree

/-!
This module contains the loading of the declarations of several files.
-/

namespace IdlCompiler.Declaration

def loadFile (s : Schema) (files : FileTree) (path : String) : Outcome Error (List Declaration) :=
  match files.read path with
  | .error e => .fail (.within ("opening " ++ path) e)
  | .ok content => ofSource s path (Text.Glyph.ofString content)

def loadMore (s : Schema) (files : FileTree) (known : List Declaration) :
    List String → Outcome Error (List Declaration)
  | [] => pure known
  | path :: paths => do
    let ds ← loadFile s files path
    let known ← (insertAll known ds).mapError Error.source
    loadMore s files known paths

/--
The merged declarations of files. Every name is there once, where it was declared first.
-/
def load (s : Schema) (files : FileTree) (paths : List String) : Outcome Error (List Declaration) :=
  loadMore s files [] paths

end IdlCompiler.Declaration
