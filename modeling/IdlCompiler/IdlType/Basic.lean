/-!
This module contains the type expressions of interface definitions, their text and the names that
occur in them.
-/

namespace IdlCompiler

/--
A type expression. The name `long long` is a single one.
-/
inductive IdlType where
  | simple (name : String)
  | optional (elem : IdlType)
  | sequence (elem : IdlType)
  | union (members : List IdlType)
  | record (key value : IdlType)
  | generic (name : String) (args : List IdlType)
  deriving Repr, Inhabited

namespace IdlType

mutual

def text : IdlType → String
  | .simple name => name
  | .optional elem => elem.text ++ "?"
  | .sequence elem => "sequence<" ++ elem.text ++ ">"
  | .union members => "union<" ++ ", ".intercalate (texts members) ++ ">"
  | .record key value => "record<" ++ key.text ++ ", " ++ value.text ++ ">"
  | .generic name args => name ++ "<" ++ ", ".intercalate (texts args) ++ ">"

def texts : List IdlType → List String
  | [] => []
  | t :: ts => t.text :: texts ts

end

def elems : IdlType → List IdlType
  | .simple _ => []
  | .optional elem => [elem]
  | .sequence elem => [elem]
  | .union members => members
  | .record key value => [key, value]
  | .generic _ args => args

mutual

/--
The type and the types inside it, outer before inner and in source order. What is inside a type is
left out unless `enter` holds of it.
-/
def visited (enter : IdlType → Bool) : IdlType → List IdlType
  | .simple name => [.simple name]
  | .optional elem =>
    .optional elem :: if enter (.optional elem) then visited enter elem else []
  | .sequence elem =>
    .sequence elem :: if enter (.sequence elem) then visited enter elem else []
  | .union members =>
    .union members :: if enter (.union members) then visitedAll enter members else []
  | .record key value =>
    .record key value ::
      if enter (.record key value) then visited enter key ++ visited enter value else []
  | .generic name args =>
    .generic name args :: if enter (.generic name args) then visitedAll enter args else []

def visitedAll (enter : IdlType → Bool) : List IdlType → List IdlType
  | [] => []
  | t :: ts => visited enter t ++ visitedAll enter ts

end

def parts (t : IdlType) : List IdlType :=
  t.visited fun _ => true

def simpleName? : IdlType → Option String
  | .simple name => some name
  | _ => none

def simpleNames (t : IdlType) : List String :=
  t.parts.filterMap simpleName?

theorem texts_eq_map (ts : List IdlType) : texts ts = ts.map text := by
  induction ts with
  | nil => rfl
  | cons t ts ih => rw [texts, ih, List.map_cons]

theorem visitedAll_eq_flatMap (enter : IdlType → Bool) (ts : List IdlType) :
    visitedAll enter ts = ts.flatMap (visited enter) := by
  induction ts with
  | nil => rfl
  | cons t ts ih => rw [visitedAll, ih, List.flatMap_cons]

end IdlType

end IdlCompiler
