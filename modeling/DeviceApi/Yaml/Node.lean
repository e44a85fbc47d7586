import DeviceApi.Yaml.PlainScalar
import DeviceApi.Yaml.TokenStream

/-!
# Nodes of a YAML document

The tokens of a text describe a graph: an alias is the very node that its anchor names, which
may be a node that the alias is part of.
-/

namespace DeviceApi.Yaml

/-- The parts of a node; other nodes are given by their numbers. -/
inductive Content where
  | scalar (text : String)
  | sequence (items : List Nat)
  | mapping (pairs : List (Nat × Nat))
  deriving Repr

/-- A node with its tag. -/
structure Node where
  tag : Tag
  content : Content
  deriving Repr

/-- The nodes of a document. -/
structure Graph where
  nodes : Array Node
  deriving Repr

/-- The state of reading nodes. -/
structure Composer where
  stream : TokenStream
  graph : Graph := ⟨#[]⟩
  anchors : List (String × Nat) := []
  /-- What the handles of tags stand for. -/
  handles : List (String × String) := []
  /-- How many collections the node that is read lies in. -/
  depth : Nat := 0

/-- A step of reading nodes. -/
abbrev Compose := StateT Composer (Except Failure)

namespace Compose

/-- The next token. -/
def peek : Compose Token := do
  let stream := (← get).stream
  match stream.tokens with
  | token :: _ => return token
  | [] => throw (stream.failure.getD .malformed)

/-- Goes behind the next token. -/
def skip : Compose Unit :=
  modify fun s => { s with stream := { s.stream with tokens := s.stream.tokens.tail } }

/-- Goes behind the next token if it is a given one. -/
def accept (token : Token) : Compose Bool := do
  if (← peek) == token then
    skip
    return true
  else return false

/-- Goes behind a token that has to be next. -/
def expect (token : Token) : Compose Unit := do
  if !(← accept token) then throw .malformed

/-- The greatest number of collections that lie in each other. -/
def maxDepth : Nat := 489

/-- Reads the parts of a collection. -/
def inside {α : Type} (parts : Compose α) : Compose α := do
  let depth := (← get).depth
  if maxDepth ≤ depth then throw (.unfit .endless)
  modify fun s => { s with depth := depth + 1 }
  let answer ← parts
  modify fun s => { s with depth }
  return answer

/-- Adds a node. -/
def addNode (node : Node) : Compose Nat :=
  modifyGet fun s => (s.graph.nodes.size, { s with graph := ⟨s.graph.nodes.push node⟩ })

/-- Gives a node its parts. -/
def fill (id : Nat) (node : Node) : Compose Unit :=
  modify fun s => { s with graph := ⟨s.graph.nodes.setIfInBounds id node⟩ }

/-- Adds the node of a value that is left out. -/
def addEmpty : Compose Nat := addNode ⟨.null, .scalar ""⟩

/-- What is written in front of a node. -/
structure Properties where
  anchor : Option String := none
  tag : Option String := none

/-- The complete name of a tag. -/
def tagName (handle : Option String) (suffix : String) : Compose String := do
  match handle with
  | none => return suffix
  | some handle =>
    match (← get).handles.lookup handle with
    | some expansion => return expansion ++ suffix
    | none => throw .malformed

/-- Reads the anchor if there is one. -/
def readAnchor : Compose (Option String) := do
  match ← peek with
  | .anchor name => skip; return some name
  | _ => return none

/-- Reads the tag if there is one. -/
def readTag : Compose (Option String) := do
  match ← peek with
  | .tag handle suffix => skip; return some (← tagName handle suffix)
  | _ => return none

/-- Reads what is written in front of a node, in either order. -/
def properties : Compose Properties := do
  match ← readAnchor with
  | some anchor => return { anchor, tag := ← readTag }
  | none =>
    match ← readTag with
    | some tag => return { anchor := ← readAnchor, tag }
    | none => return {}

/-- The tag of a collection. -/
def collectionTag (usual : Tag) : Option String → Tag
  | none | some "!" => usual
  | some name => .ofName name

/-- The tag of a scalar. -/
def scalarTag (text : String) (plain : Bool) : Option String → Tag
  | none => if plain then .ofPlain text else .text
  | some "!" => .ofPlain text
  | some name => .ofName name

/-- Makes an anchor the name of a node. -/
def bind (anchor : Option String) (id : Nat) : Compose Unit :=
  match anchor with
  | none => return
  | some name => modify fun s => { s with anchors := (name, id) :: s.anchors }

/-- Adds a scalar. -/
def addScalar (props : Properties) (text : String) (plain : Bool) : Compose Nat := do
  let id ← addNode ⟨scalarTag text plain props.tag, .scalar text⟩
  bind props.anchor id
  return id

/-- Whether a token ends an item of a block that has no content. -/
def endsBlockItem (token : Token) : Bool := token == .blockEntry || token == .blockEnd

/-- Whether a token ends an item of a list that is not indented deeper than the mapping around
it. -/
def endsIndentlessItem (token : Token) : Bool :=
  endsBlockItem token || token == .key || token == .value

/-- Whether a token ends a key or value of a block. -/
def endsBlockPart (token : Token) : Bool :=
  token == .key || token == .value || token == .blockEnd

mutual

/-- Reads a node. Blocks may stand everywhere but inside of brackets, and items without
indentation only inside of a mapping. -/
def node (block indentless : Bool) : (fuel : Nat) → Compose Nat
  | 0 => throw .malformed
  | fuel + 1 => do
    if let .alias name ← peek then
      skip
      match (← get).anchors.lookup name with
      | some id => return id
      | none => throw .malformed
    let props ← properties
    if let some name := props.anchor then
      if ((← get).anchors.lookup name).isSome then throw .malformed
    let sequence (items : Compose (List Nat)) : Compose Nat := do
      let tag := collectionTag .sequence props.tag
      let id ← addNode ⟨tag, .sequence []⟩
      bind props.anchor id
      fill id ⟨tag, .sequence (← inside items)⟩
      return id
    let mapping (pairs : Compose (List (Nat × Nat))) : Compose Nat := do
      let tag := collectionTag .mapping props.tag
      let id ← addNode ⟨tag, .mapping []⟩
      bind props.anchor id
      fill id ⟨tag, .mapping (← inside pairs)⟩
      return id
    match ← peek, block, indentless with
    | .blockEntry, _, true => sequence (indentlessItems fuel)
    | .scalar text plain, _, _ => skip; addScalar props text plain
    | .flowSequence, _, _ => skip; sequence (flowItems true fuel)
    | .flowMapping, _, _ => skip; mapping (flowPairs true fuel)
    | .blockSequence, true, _ => skip; sequence (blockItems fuel)
    | .blockMapping, true, _ => skip; mapping (blockPairs fuel)
    | _, _, _ =>
      if props.anchor.isSome || props.tag.isSome then addScalar props "" props.tag.isNone
      else throw .malformed

/-- Reads the items of a block. -/
def blockItems : (fuel : Nat) → Compose (List Nat)
  | 0 => throw .malformed
  | fuel + 1 => do
    if ← accept .blockEntry then
      let item ← if endsBlockItem (← peek) then addEmpty else node true false fuel
      return item :: (← blockItems fuel)
    else
      expect .blockEnd
      return []

/-- Reads the items of a block that is not indented. -/
def indentlessItems : (fuel : Nat) → Compose (List Nat)
  | 0 => throw .malformed
  | fuel + 1 => do
    if ← accept .blockEntry then
      let item ← if endsIndentlessItem (← peek) then addEmpty else node true false fuel
      return item :: (← indentlessItems fuel)
    else return []

/-- Reads a value of a block behind its key. -/
def blockValue : (fuel : Nat) → Compose Nat
  | 0 => throw .malformed
  | fuel + 1 => do
    if ← accept .value then
      if endsBlockPart (← peek) then addEmpty else node true true fuel
    else addEmpty

/-- Reads the keys and values of a block. -/
def blockPairs : (fuel : Nat) → Compose (List (Nat × Nat))
  | 0 => throw .malformed
  | fuel + 1 => do
    if ← accept .key then
      let key ← if endsBlockPart (← peek) then addEmpty else node true true fuel
      let value ← blockValue fuel
      return (key, value) :: (← blockPairs fuel)
    else
      expect .blockEnd
      return []

/-- Reads a key inside of brackets behind its indicator, and its value. -/
def flowPair (closing : Token) : (fuel : Nat) → Compose (Nat × Nat)
  | 0 => throw .malformed
  | fuel + 1 => do
    let ends (token : Token) : Bool := token == .flowEntry || token == closing
    let next ← peek
    let key ← if next == .value || ends next then addEmpty else node false false fuel
    let value ←
      if ← accept .value then if ends (← peek) then addEmpty else node false false fuel
      else addEmpty
    return (key, value)

/-- Reads the items between brackets. A pair of a key and a value is a mapping of its own. -/
def flowItems (first : Bool) : (fuel : Nat) → Compose (List Nat)
  | 0 => throw .malformed
  | fuel + 1 => do
    if ← accept .flowSequenceEnd then return []
    if !first then expect .flowEntry
    if ← accept .flowSequenceEnd then return []
    let item ←
      if ← accept .key then
        let id ← addNode ⟨.mapping, .mapping []⟩
        fill id ⟨.mapping, .mapping [← flowPair .flowSequenceEnd fuel]⟩
        pure id
      else node false false fuel
    return item :: (← flowItems false fuel)

/-- Reads the keys and values between braces. A key may stand without a value. -/
def flowPairs (first : Bool) : (fuel : Nat) → Compose (List (Nat × Nat))
  | 0 => throw .malformed
  | fuel + 1 => do
    if ← accept .flowMappingEnd then return []
    if !first then expect .flowEntry
    if ← accept .flowMappingEnd then return []
    let pair ←
      if ← accept .key then flowPair .flowMappingEnd fuel
      else do
        let key ← node false false fuel
        pure (key, ← addEmpty)
    return pair :: (← flowPairs false fuel)

end

/-- The handles that every document knows. -/
def usualHandles : List (String × String) := [("!", "!"), ("!!", commonTags)]

/-- Reads the directives in front of a document. -/
def directives : (fuel : Nat) → (versionSeen : Bool) → Compose Unit
  | 0, _ => throw .malformed
  | fuel + 1, versionSeen => do
    match ← peek with
    | .version major =>
      skip
      if versionSeen || major != 1 then throw .malformed
      directives fuel true
    | .handle name expansion =>
      skip
      if ((← get).handles.lookup name).isSome then throw .malformed
      modify fun s => { s with handles := (name, expansion) :: s.handles }
      directives fuel versionSeen
    | .otherDirective => skip; directives fuel versionSeen
    | _ => modify fun s => { s with handles := s.handles ++ usualHandles }

/-- Whether a token begins a document or follows the last one. -/
def startsDocument (token : Token) : Bool :=
  match token with
  | .version _ | .handle .. | .otherDirective | .documentStart | .streamEnd => true
  | _ => false

/-- Reads the ends of documents that follow each other. -/
def documentEnds : (fuel : Nat) → Compose Unit
  | 0 => return
  | fuel + 1 => do if ← accept .documentEnd then documentEnds fuel

/-- Reads a text with at most one document. -/
def document (fuel : Nat) : Compose (Option Nat) := do
  if (← peek) == .streamEnd then return none
  let root ←
    if startsDocument (← peek) then
      directives fuel false
      expect .documentStart
      let next ← peek
      if startsDocument next || next == .documentEnd then addEmpty else node true false fuel
    else
      modify fun s => { s with handles := usualHandles }
      node true false fuel
  documentEnds fuel
  expect .streamEnd
  return some root

end Compose

/-- The root and the graph of the document in a text. A text without a document has no root. -/
def Graph.ofChars (cs : List Char) : Except Failure (Option Nat × Graph) := do
  let stream := TokenStream.ofChars cs
  let (root, s) ← (Compose.document (4 * stream.tokens.length + 4)).run { stream }
  return (root, s.graph)

end DeviceApi.Yaml
