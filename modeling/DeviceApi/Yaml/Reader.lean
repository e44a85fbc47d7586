import DeviceApi.Document.Store
import DeviceApi.Yaml.Node
import DeviceApi.Yaml.ScalarValue

/-!
# Reading YAML

A node becomes a value when it is first met, and every further use of the node is the same
value. Lists and objects are filled in the order in which they were met, so the values of a
list are all there before those inside of its items.
-/

namespace DeviceApi.Yaml

namespace Graph

/-- The node with a number. -/
def node (graph : Graph) (id : Nat) : Node := graph.nodes[id]?.getD ⟨.null, .scalar ""⟩

/-- The keys and values of a mapping. -/
def pairs? (graph : Graph) (id : Nat) : Option (List (Nat × Nat)) :=
  match (graph.node id).content with
  | .mapping pairs => some pairs
  | _ => none

/-- Gives a mapping other keys and values. -/
def setPairs (graph : Graph) (id : Nat) (pairs : List (Nat × Nat)) : Graph :=
  ⟨graph.nodes.setIfInBounds id ⟨(graph.node id).tag, .mapping pairs⟩⟩

/-- Gives a node another tag. -/
def setTag (graph : Graph) (id : Nat) (tag : Tag) : Graph :=
  ⟨graph.nodes.setIfInBounds id ⟨tag, (graph.node id).content⟩⟩

/-- Whether a key stands for entries that are taken over. -/
def isMerge (graph : Graph) (pair : Nat × Nat) : Bool := (graph.node pair.1).tag == .merge

/-- The graph in which keys that would stand for a whole mapping are ordinary texts. -/
def plainKeys (graph : Graph) (pairs : List (Nat × Nat)) : Graph :=
  pairs.foldl
    (fun graph pair =>
      if (graph.node pair.1).tag == .standIn then graph.setTag pair.1 .text else graph) graph

mutual

/-- Puts the entries that a mapping takes over in front of its own, those of its keys behind a
place. What is taken over by others comes first. -/
def flattenFrom : (fuel : Nat) → (graph : Graph) → (id place : Nat) →
    (merged : List (Nat × Nat)) → Except Failure Graph
  | 0, _, _, _, _ => .error .malformed
  | fuel + 1, graph, id, place, merged => do
    let pairs := (graph.pairs? id).getD []
    let passed := (pairs.drop place).takeWhile fun pair => !graph.isMerge pair
    let graph := graph.plainKeys passed
    let place := place + passed.length
    match pairs[place]? with
    | none => return graph.setPairs id (merged ++ pairs)
    | some (_, source) =>
      let graph := graph.setPairs id (pairs.eraseIdx place)
      match (graph.node source).content with
      | .mapping _ =>
        let graph ← flattenFrom fuel graph source 0 []
        flattenFrom fuel graph id place (merged ++ (graph.pairs? source).getD [])
      | .sequence sources =>
        let (taken, graph) ← flattenAll fuel graph sources
        flattenFrom fuel graph id place (merged ++ taken.reverse.flatten)
      | .scalar _ => throw .malformed

/-- The entries of several mappings. -/
def flattenAll : (fuel : Nat) → (graph : Graph) → (sources : List Nat) →
    Except Failure (List (List (Nat × Nat)) × Graph)
  | _, graph, [] => .ok ([], graph)
  | 0, _, _ :: _ => .error .malformed
  | fuel + 1, graph, source :: more => do
    if (graph.pairs? source).isNone then throw .malformed
    let graph ← flattenFrom fuel graph source 0 []
    let taken := (graph.pairs? source).getD []
    let (others, graph) ← flattenAll fuel graph more
    return (taken :: others, graph)

end

/-- A bound for the steps in which mappings take over entries: each key for it is met once, and
leads to one mapping or to the items of one list. -/
def mergeBound (graph : Graph) : Nat :=
  let count (size : Content → Nat) : Nat :=
    (graph.nodes.map fun node => size node.content).foldl (· + ·) 0
  let pairs := count fun | .mapping pairs => pairs.length | _ => 0
  let items := count fun | .sequence items => items.length | _ => 0
  (pairs + 1) * (items + 2)

/-- The graph in which a mapping has the entries that it takes over. -/
def flatten (graph : Graph) (id : Nat) : Except Failure Graph :=
  graph.flattenFrom (graph.mergeBound + 1) id 0 []

/-- The text of a scalar. A mapping may have a key for a scalar that stands for it. -/
def scalarText (graph : Graph) : (fuel : Nat) → (id : Nat) → Except Failure String
  | 0, _ => .error (.unfit .endless)
  | fuel + 1, id =>
    match (graph.node id).content with
    | .scalar text => .ok text
    | .sequence _ => .error .malformed
    | .mapping pairs =>
      match pairs.find? fun pair => (graph.node pair.1).tag == .standIn with
      | some (_, value) => scalarText graph fuel value
      | none => .error .malformed

end Graph

/-- The state of turning nodes into values. -/
structure Builder where
  graph : Graph
  store : Store := Store.empty
  /-- The values of the nodes that have been met. -/
  built : Array (Option Value)
  /-- Nodes with the cells that they fill, in the order in which they were met. -/
  pending : Array (Nat × Nat) := #[]

/-- A step of turning nodes into values. -/
abbrev Build := StateT Builder (Except Failure)

namespace Build

/-- The answer of a computation on the text of a scalar. -/
def ofExcept {α : Type} : Except Misfit α → Build α
  | .ok a => return a
  | .error m => throw (.unfit m)

/-- Adds a cell. -/
def addCell (cell : Cell) : Build Value :=
  modifyGet fun s =>
    let (v, store) := s.store.add cell
    (v, { s with store })

/-- Gives a mark. -/
def newMark : Build Nat :=
  modifyGet fun s =>
    let (mark, store) := s.store.newMark
    (mark, { s with store })

/-- Adds an empty cell that a node is to fill. -/
def addPending (id : Nat) (cell : Cell) : Build Value :=
  modifyGet fun s =>
    let number := s.store.cells.size
    let (v, store) := s.store.add cell
    (v, { s with store, pending := s.pending.push (id, number) })

/-- The value of a node that has not been met before. -/
def newValue (id : Nat) : Build Value := do
  let graph := (← get).graph
  let text : Build String :=
    match graph.scalarText (graph.nodes.size + 1) id with
    | .ok text => return text
    | .error f => throw f
  match (graph.node id).tag with
  | .null =>
    let _ ← text
    return .null
  | .bool => return .scalar (.bool (← ofExcept (ScalarValue.truth (← text))))
  | .int => return .scalar (.int (← ofExcept (ScalarValue.integer (← text))))
  | .real =>
    let written ← text
    let x ← ofExcept (ScalarValue.real written)
    if x == .nan && !ScalarValue.isUndefinedWord written then
      return .scalar (.undefined (← newMark))
    else return .scalar (.real x)
  | .text => return .text (← text)
  | .octets =>
    match ScalarValue.octets? (← text) with
    | some bytes => return .scalar (.octets bytes)
    | none => throw .malformed
  | .stamp =>
    let written ← text
    if (graph.pairs? id).isSome then throw (.unfit .wrongOperand)
    let stamp ← ofExcept (ScalarValue.stamp written)
    return .scalar (.stamp stamp (← newMark))
  | .sequence | .orderedMapping | .pairs => addPending id (.list [])
  | .set => addPending id (.set [])
  | .mapping => addPending id (.object [])
  | .merge | .standIn | .other _ => throw .malformed

/-- The value of a node. -/
def value (id : Nat) : Build Value := do
  match (← get).built[id]?.join with
  | some v => return v
  | none =>
    let v ← newValue id
    modify fun s => { s with built := s.built.setIfInBounds id (some v) }
    return v

/-- Gives a cell its content. -/
def fillCell (number : Nat) (cell : Cell) : Build Unit :=
  modify fun s => { s with store := s.store.set number cell }

/-- The entries of keys and values in order; a list or an object cannot be a key. -/
def entries : (pairs : List (Nat × Nat)) → (known : Entries Value) → Build (Entries Value)
  | [], known => return known
  | (keyId, valueId) :: more, known => do
    let key ← value keyId
    match (← get).store.key key with
    | .ok key => entries more (known.put key (← value valueId))
    | .error _ => throw .malformed

/-- The pair of a mapping with one key. -/
def keyedItem (id : Nat) : Build Value := do
  match (← get).graph.pairs? id with
  | some [(keyId, valueId)] =>
    let key ← value keyId
    addCell (.pair key (← value valueId))
  | _ => throw .malformed

/-- The entries of a mapping with those that it takes over. -/
def entriesOf (id : Nat) : Build (Entries Value) := do
  match (← get).graph.flatten id with
  | .error f => throw f
  | .ok graph =>
    modify fun s => { s with graph }
    entries ((graph.pairs? id).getD []) []

/-- Fills the cell of a node. -/
def fill (id number : Nat) : Build Unit := do
  let node := (← get).graph.node id
  match node.tag, node.content with
  | .mapping, .mapping _ => fillCell number (.object (← entriesOf id))
  | .set, .mapping _ => fillCell number (.set (Entries.keys (← entriesOf id)))
  | .sequence, .sequence items => fillCell number (.list (← items.mapM value))
  | .orderedMapping, .sequence items | .pairs, .sequence items =>
    fillCell number (.list (← items.mapM keyedItem))
  | _, _ => throw .malformed

/-- Fills the cells that wait, from a place of their order on. -/
def fillAll : (fuel : Nat) → (place : Nat) → Build Unit
  | 0, _ => return
  | fuel + 1, place => do
    match (← get).pending[place]? with
    | none => return
    | some (id, number) =>
      fill id number
      fillAll fuel (place + 1)

end Build

/-- Reads a text with at most one document; a text without one stands for nothing. -/
def read (text : String) : Except Failure (Value × Store) := do
  let (root, graph) ← Graph.ofChars text.toList
  match root with
  | none => return (.null, Store.empty)
  | some id =>
    let size := graph.nodes.size
    let build : Build Value := do
      let v ← Build.value id
      Build.fillAll size 0
      return v
    let (v, s) ← build.run { graph, built := Array.replicate size none }
    return (v, s.store)

end DeviceApi.Yaml
