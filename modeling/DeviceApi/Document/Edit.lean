import DeviceApi.Document.Store

/-!
# Edits

An edit changes a store and answers or fails; the changes made before a failure remain.
-/

namespace DeviceApi

/-- A computation on a store that may fail half way. -/
abbrev Edit := ExceptT Fault (StateM Store)

namespace Edit

variable {α : Type}

/-- Runs an edit. -/
def runOn (edit : Edit α) (store : Store) : Except Fault α × Store :=
  (ExceptT.run edit).run store

/-- Fails with a violation. -/
def refuse (v : Violation) : Edit α := throw (.violation v)

/-- Fails for a value that is unfit. -/
def misfit (m : Misfit) : Edit α := throw (.misfit m)

/-- What a value is. -/
def look (v : Value) : Edit Shape := return (← get).shape v

/-- Whether a value counts as present. -/
def isTruthy (v : Value) : Edit Bool := return (← get).isTruthy v

/-- The node and the entries of an object. -/
def objectOf (v : Value) : Edit (Nat × Entries Value) := do
  match ← look v with
  | .object id entries => return (id, entries)
  | _ => misfit .noSuchOperation

/-- The entries of an object. -/
def entriesOf (v : Value) : Edit (Entries Value) := return (← objectOf v).2

/-- The value under a key of an object, or nothing. -/
def fieldOf (v : Value) (key : Scalar) : Edit Value :=
  return ((← entriesOf v).get? key).getD .null

/-- Gives an object a value under a key. -/
def putField (v : Value) (key : Scalar) (w : Value) : Edit Unit := do
  match ← look v with
  | .object id entries => modify fun s => s.set id (.object (entries.put key w))
  | _ => misfit .wrongOperand

/-- Takes a key with its value out of an object. -/
def removeField (v : Value) (key : Scalar) : Edit Unit := do
  match ← look v with
  | .object id entries =>
    if entries.has key then modify fun s => s.set id (.object (entries.remove key))
    else misfit .missingEntry
  | _ => misfit .wrongOperand

/-- Adds a node. -/
def addCell (cell : Cell) : Edit Value := do
  let (v, store) := (← get).add cell
  set store
  return v

/-- Adds an object. -/
def newObject (entries : Entries Value) : Edit Value := addCell (.object entries)

/-- Adds a list. -/
def newList (items : List Value) : Edit Value := addCell (.list items)

/-- Adds nodes for a tree. -/
def loadTree (t : Tree) : Edit Value := do
  let (v, store) := (← get).load t
  set store
  return v

/-- The tree below a value. -/
def treeOf (v : Value) : Edit Tree := return (← get).tree v

/-- The tree below a value for use in a message. -/
def shownTree (v : Value) : Edit Tree := do
  let t := (← get).tree v
  if t.hasText then return t else misfit .badContent

/-- The text of a scalar by itself. -/
def textOf (s : Scalar) : Edit String := do
  if s.hasText then return s.display else misfit .badContent

/-- The answer of a computation that only reads the store. -/
def ofExcept (answer : Except Misfit α) : Edit α :=
  match answer with
  | .ok a => return a
  | .error m => misfit m

/-- The values that a visit of a value meets in order. -/
def elementsOf (v : Value) : Edit (List Value) := do ofExcept ((← get).elements v)

/-- A value as a key. -/
def keyOf (v : Value) : Edit Scalar := do ofExcept ((← get).key v)

/-- Puts the entries of a further value over those of an object. The further value is an object
or a collection of pairs, which are put one after the other. -/
def overlay (target further : Value) : Edit Unit := do
  let (id, entries) ← objectOf target
  match ← look further with
  | .object _ others => modify fun s => s.set id (.object (entries.putAll others))
  | _ =>
    for item in ← elementsOf further do
      let (key, value) ← ofExcept ((← get).pair item)
      putField target key value

/-- Goes through the last `remaining` of `count` entries of an object. -/
def foldLastEntries {β : Type} (object : Value) (step : β → Scalar → Value → Edit β)
    (count : Nat) : (remaining : Nat) → β → Edit β
  | 0, b => do
    if (← entriesOf object).length ≠ count then misfit .changedWhileVisited
    return b
  | remaining + 1, b => do
    let entries ← entriesOf object
    if entries.length ≠ count then misfit .changedWhileVisited
    match entries[count - (remaining + 1)]? with
    | some (key, value) => foldLastEntries object step count remaining (← step b key value)
    | none => return b

/-- Goes through the entries of an object in order. The step may change the object, but there
must neither be more nor fewer entries afterwards. -/
def foldEntries {β : Type} (object : Value) (b : β) (step : β → Scalar → Value → Edit β) :
    Edit β := do
  let count := (← entriesOf object).length
  foldLastEntries object step count count b

/-- The entries of a value that may be absent; anything that counts as absent has none. -/
def optionalEntries (v : Value) : Edit (Entries Value) := do
  if ← isTruthy v then entriesOf v else return []

end Edit

end DeviceApi
