import IdlCompiler.Config.Yaml.Layout

/-!
This module contains the nodes of a YAML document and how they are read from its tokens.
-/

namespace IdlCompiler.Yaml

inductive Node where
  | scalar (tag : String) (plain : Bool) (text : String)
  | sequence (items : List Node)
  | mapping (entries : List (Node × Node))
  /-- Another mention of a node by its anchor. There is no target inside of that node. -/
  | alias (name : String) (target : Option Node)
  deriving Inhabited

def Node.empty : Node :=
  .scalar "" true ""

/--
What is left of the tokens, and what was told before: the meaning of handles, and the anchors with
their nodes, of which the last one is first. An anchor has no node until the end of its node is read.
-/
structure Stream where
  tokens : List Token
  handles : List (String × String) := []
  anchors : List (String × Option Node) := []

namespace Stream

def commonHandles : List (String × String) :=
  [("!", "!"), ("!!", "tag:yaml.org,2002:")]

def tag? (s : Stream) (handle suffix : String) : Option String :=
  let full? :=
    if handle = "" then some suffix
    else (s.handles.lookup handle).map (· ++ suffix)
  match full? with
  | none => none
  | some "" => none
  | some "!" => some ""
  | some full => some (shortened full)
where
  shortened (full : String) : String :=
    let long := "tag:yaml.org,2002:".toList
    if long.isPrefixOf full.toList then "!!" ++ String.ofList (full.toList.drop long.length) else full

def openAnchor (s : Stream) : Option String → Stream
  | some name => { s with anchors := (name, none) :: s.anchors }
  | none => s

def closeAnchor (s : Stream) (older : Nat) (node : Node) : Option String → Stream
  | some name =>
    { s with anchors := s.anchors.set (s.anchors.length - older - 1) (name, some node) }
  | none => s

def properties? (s : Stream) : Option (Option String × Option String × Stream) :=
  match s.tokens with
  | .anchor name :: .tag handle suffix :: tokens =>
    (s.tag? handle suffix).map (some name, some ·, { s with tokens })
  | .tag handle suffix :: .anchor name :: tokens =>
    (s.tag? handle suffix).map (some name, some ·, { s with tokens })
  | .anchor name :: tokens => some (some name, none, { s with tokens })
  | .tag handle suffix :: tokens => (s.tag? handle suffix).map (none, some ·, { s with tokens })
  | tokens => some (none, none, { s with tokens })

inductive Shape where
  | items
  | flatItems
  | entries
  | brackets
  | braces
  deriving DecidableEq

/--
The shape of the collection that a token starts. Inside of brackets there are no blocks, and only the
value of a key can have items that are not indented.
-/
def shape? (block flat : Bool) : Token → Option Shape
  | .item => if flat then some .flatItems else none
  | .sequenceStart => if block then some .items else none
  | .mappingStart => if block then some .entries else none
  | .openBracket => some .brackets
  | .openBrace => some .braces
  | _ => none

def afterItem? (s : Stream) (closing : Token) : Option Stream :=
  match s.tokens with
  | .comma :: tokens => some { s with tokens }
  | t :: _ => if t = closing then some s else none
  | [] => none

mutual

def node? (block flat : Bool) : Nat → Stream → Option (Node × Stream)
  | 0, _ => none
  | fuel + 1, s =>
    match s.tokens with
    | .alias name :: tokens =>
      (s.anchors.lookup name).map fun target => (.alias name target, { s with tokens })
    | _ =>
      match s.properties? with
      | none => none
      | some (anchor, tag, s) =>
        let older := s.anchors.length
        match s.tokens with
        | [] => none
        | .scalar text plain :: tokens =>
          let node := Node.scalar (tag.getD "") plain text
          some (node, ({ s with tokens }.openAnchor anchor).closeAnchor older node anchor)
        | t :: tokens =>
          match shape? block flat t with
          | some shape =>
            match collection? shape fuel ({ s with tokens := t :: tokens }.openAnchor anchor) with
            | some (node, s) => some (node, s.closeAnchor older node anchor)
            | none => none
          | none =>
            if anchor.isSome || tag.isSome then
              let node := Node.scalar (tag.getD "") true ""
              some (node, (s.openAnchor anchor).closeAnchor older node anchor)
            else
              none

def collection? (shape : Shape) : Nat → Stream → Option (Node × Stream)
  | 0, _ => none
  | fuel + 1, s =>
    let inner := { s with tokens := s.tokens.drop 1 }
    match shape with
    | .items => items? true [] fuel inner
    | .flatItems => items? false [] fuel s
    | .entries => entries? [] fuel inner
    | .brackets => flowItems? [] fuel inner
    | .braces => flowEntries? [] fuel inner

def items? (isBlock : Bool) (acc : List Node) : Nat → Stream → Option (Node × Stream)
  | 0, _ => none
  | fuel + 1, s =>
    match s.tokens with
    | .item :: t :: tokens =>
      let s := { s with tokens := t :: tokens }
      if t = .item || t = .blockEnd || (!isBlock && (t = .key || t = .value)) then
        items? isBlock (.empty :: acc) fuel s
      else
        match node? true false fuel s with
        | some (node, s) => items? isBlock (node :: acc) fuel s
        | none => none
    | [.item] => none
    | t :: tokens =>
      if !isBlock then some (.sequence acc.reverse, { s with tokens := t :: tokens })
      else if t = .blockEnd then some (.sequence acc.reverse, { s with tokens })
      else none
    | [] => none

def entryPart? : Nat → Stream → Option (Node × Stream)
  | 0, _ => none
  | fuel + 1, s =>
    match s.tokens with
    | [] => none
    | t :: _ =>
      if t = .key || t = .value || t = .blockEnd then some (.empty, s) else node? true true fuel s

def entries? (acc : List (Node × Node)) : Nat → Stream → Option (Node × Stream)
  | 0, _ => none
  | fuel + 1, s =>
    match s.tokens with
    | .blockEnd :: tokens => some (.mapping acc.reverse, { s with tokens })
    | .key :: tokens =>
      match entryPart? fuel { s with tokens } with
      | none => none
      | some (key, s) =>
        match s.tokens with
        | .value :: tokens =>
          match entryPart? fuel { s with tokens } with
          | some (value, s) => entries? ((key, value) :: acc) fuel s
          | none => none
        | _ => entries? ((key, .empty) :: acc) fuel s
    | _ => none

def flowValue? (closing : Token) : Nat → Stream → Option (Node × Stream)
  | 0, _ => none
  | fuel + 1, s =>
    match s.tokens with
    | .value :: t :: tokens =>
      let s := { s with tokens := t :: tokens }
      if t = .comma || t = closing then some (.empty, s) else node? false false fuel s
    | [.value] => none
    | _ => some (.empty, s)

/--
Read the items between brackets that follow those in `acc`, the last one first. An item that is
marked as a key is a mapping with one entry. If such a key is empty, the token in its place is passed.
-/
def flowItems? (acc : List Node) : Nat → Stream → Option (Node × Stream)
  | 0, _ => none
  | fuel + 1, s =>
    match s.tokens with
    | .closeBracket :: tokens => some (.sequence acc.reverse, { s with tokens })
    | .key :: t :: tokens =>
      let key? :=
        if t = .value || t = .comma || t = .closeBracket then some (.empty, { s with tokens })
        else node? false false fuel { s with tokens := t :: tokens }
      match key? with
      | none => none
      | some (key, s) =>
        match flowValue? .closeBracket fuel s with
        | some (value, s) =>
          (s.afterItem? .closeBracket).bind (flowItems? (.mapping [(key, value)] :: acc) fuel)
        | none => none
    | _ =>
      match node? false false fuel s with
      | some (node, s) => (s.afterItem? .closeBracket).bind (flowItems? (node :: acc) fuel)
      | none => none

def flowEntries? (acc : List (Node × Node)) : Nat → Stream → Option (Node × Stream)
  | 0, _ => none
  | fuel + 1, s =>
    match s.tokens with
    | .closeBrace :: tokens => some (.mapping acc.reverse, { s with tokens })
    | .key :: t :: tokens =>
      let s := { s with tokens := t :: tokens }
      let key? :=
        if t = .value || t = .comma || t = .closeBrace then some (.empty, s)
        else node? false false fuel s
      match key? with
      | none => none
      | some (key, s) =>
        match flowValue? .closeBrace fuel s with
        | some (value, s) =>
          (s.afterItem? .closeBrace).bind (flowEntries? ((key, value) :: acc) fuel)
        | none => none
    | _ =>
      match node? false false fuel s with
      | some (node, s) =>
        (s.afterItem? .closeBrace).bind (flowEntries? ((node, .empty) :: acc) fuel)
      | none => none

end

def directives? (version : Bool) (handles : List (String × String)) :
    List Token → Option (List (String × String) × List Token)
  | .version major minor :: tokens =>
    if version || major ≠ 1 || minor ≠ 1 then none else directives? true handles tokens
  | .handle name uri :: tokens =>
    if handles.any (·.1 = name) then none else directives? version ((name, uri) :: handles) tokens
  | tokens => some (handles, tokens)

def enough (tokens : List Token) : Nat :=
  4 * tokens.length + 8

def document? (tokens : List Token) : Option (Option Node) :=
  match directives? false [] tokens with
  | none => none
  | some (_, []) => none
  | some (handles, t :: rest) =>
    let isFirst := rest.length + 1 = tokens.length
    let s : Stream := { tokens := t :: rest, handles := handles ++ commonHandles }
    if t = .streamEnd ∧ isFirst then some none
    else if t = .documentStart then
      match rest with
      | [] => none
      | t :: _ =>
        let isEmpty := t = .documentStart || t = .documentEnd || t = .streamEnd || isDirective t
        if isEmpty then some (some .empty) else content? { s with tokens := rest }
    else if isFirst then content? s
    else none
where
  isDirective : Token → Bool
    | .version _ _ => true
    | .handle _ _ => true
    | _ => false
  content? (s : Stream) : Option (Option Node) :=
    match node? true false (enough s.tokens) s with
    | some (_, ⟨[], _, _⟩) => none
    | some (node, _) => some (some node)
    | none => none

end Stream

end IdlCompiler.Yaml
