import IdlCompiler.Template.Scope
import IdlCompiler.Template.Tree

/-!
This module contains the rendering of templates. A rendering is a list of steps, from which both its
text and its trace are read off.
-/

namespace IdlCompiler.Template

inductive Step where
  | literal (text : String)
  | lineEnd
  | enter (scope : Scope)
  | emit (scope : Scope)

def Step.text : Step → String
  | .literal text => text
  | .lineEnd => "\n"
  | .enter _ => ""
  | .emit scope => scope.value.emitted

def Step.trace? : Step → Option String
  | .literal _ => none
  | .lineEnd => none
  | .enter scope => some ("+ " ++ scope.label ++ scope.value.summary)
  | .emit scope => some ("> " ++ scope.label ++ scope.value.summary)

mutual

def Node.steps (root : Value) (scope : Scope) : Node → List Step
  | .literal text => [.literal text]
  | .lineEnd => [.lineEnd]
  | .continuation => []
  | .emit path => [.emit (scope.follow root path)]
  | .block kind path body =>
    let inner := scope.follow root path
    .enter inner ::
      if inner.value.isTruthy = (kind != .ifAbsent) then
        match kind, inner.value.items? with
        | .each, some items =>
          items.zipIdx.flatMap fun (item, index) =>
            .enter (.index index item :: inner) ::
              stepsAll root (.index index item :: inner) body
        | _, _ => stepsAll root inner body
      else
        []

def stepsAll (root : Value) (scope : Scope) : List Node → List Step
  | [] => []
  | n :: ns => n.steps root scope ++ stepsAll root scope ns

end

def steps (t : Template) (data : Value) : List Step :=
  .enter [.named "" data] :: stepsAll data [.named "" data] t.nodes

def render (t : Template) (data : Value) : String :=
  String.join ((t.steps data).map Step.text)

def trace (t : Template) (data : Value) : List String :=
  (t.steps data).filterMap Step.trace?

end IdlCompiler.Template
