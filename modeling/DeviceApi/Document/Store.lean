import DeviceApi.Fault

/-!
# Stores

A document in use is a graph: two places may hold the same list or object, and what is changed
at one of them is changed at the other. The nodes of a document are cells of a store, and a
value is a scalar or the number of a cell. A scalar that is not the same as another one of its
looks gets a mark from the store.
-/

namespace DeviceApi

/-- A scalar, or the number of a cell. -/
inductive Value where
  | scalar (s : Scalar)
  | node (id : Nat)
  deriving DecidableEq, Repr

namespace Value

/-- The value of nothing. -/
abbrev null : Value := .scalar .null

/-- The value of a text. -/
abbrev text (s : String) : Value := .scalar (.text s)

end Value

/-- The content of a node. -/
inductive Cell where
  | list (items : List Value)
  | pair (key value : Value)
  | set (members : List Scalar)
  | object (entries : Entries Value)
  deriving Repr

/-- The nodes of a document. -/
structure Store where
  cells : Array Cell
  /-- How many marks have been given. -/
  marks : Nat := 0
  deriving Repr

/-- What a value is, with the number of its node. -/
inductive Shape where
  | scalar (s : Scalar)
  | list (id : Nat) (items : List Value)
  | pair (key value : Value)
  | set (members : List Scalar)
  | object (id : Nat) (entries : Entries Value)

namespace Store

/-- The store without nodes. -/
def empty : Store := { cells := #[] }

/-- Adds a node. -/
def add (store : Store) (cell : Cell) : Value × Store :=
  (.node store.cells.size, { store with cells := store.cells.push cell })

/-- Changes the content of a node. -/
def set (store : Store) (id : Nat) (cell : Cell) : Store :=
  { store with cells := store.cells.setIfInBounds id cell }

/-- Gives a mark that has not been given before. -/
def newMark (store : Store) : Nat × Store :=
  (store.marks, { store with marks := store.marks + 1 })

/-- What a value is. A number without a cell stands for nothing. -/
def shape (store : Store) : Value → Shape
  | .scalar s => .scalar s
  | .node id =>
    match store.cells[id]? with
    | some (.list items) => .list id items
    | some (.pair key value) => .pair key value
    | some (.set members) => .set members
    | some (.object entries) => .object id entries
    | none => .scalar .null

/-- The scalar that a value is, if it has no parts. -/
def scalar? (store : Store) (v : Value) : Option Scalar :=
  match store.shape v with
  | .scalar s => some s
  | _ => none

/-- The entries of an object. -/
def entries? (store : Store) (v : Value) : Option (Entries Value) :=
  match store.shape v with
  | .object _ entries => some entries
  | _ => none

/-- The items of a list. -/
def items? (store : Store) (v : Value) : Option (List Value) :=
  match store.shape v with
  | .list _ items => some items
  | _ => none

/-- The value under a key of an object. -/
def field? (store : Store) (v : Value) (key : Scalar) : Option Value :=
  match store.entries? v with
  | some entries => entries.get? key
  | none => none

/-- Whether a value is nothing. -/
def isNull (store : Store) (v : Value) : Bool :=
  match store.shape v with
  | .scalar .null => true
  | _ => false

/-- Whether a value is a given text. -/
def isText (store : Store) (v : Value) (s : String) : Bool :=
  match store.shape v with
  | .scalar (.text t) => t == s
  | _ => false

/-- Whether a value counts as present. -/
def isTruthy (store : Store) (v : Value) : Bool :=
  match store.shape v with
  | .scalar s => s.isTruthy
  | .list _ items => !items.isEmpty
  | .pair .. => true
  | .set members => !members.isEmpty
  | .object _ entries => !entries.isEmpty

/-- The values that a visit of a value meets in order: the items of a list, the keys of an
object, the characters of a text. -/
def elements (store : Store) (v : Value) : Except Misfit (List Value) :=
  match store.shape v with
  | .list _ items => .ok items
  | .pair key value => .ok [key, value]
  | .set members => .ok (members.map .scalar)
  | .object _ entries => .ok (entries.keys.map .scalar)
  | .scalar (.text s) => .ok (s.toList.map fun c => .text (String.singleton c))
  | .scalar (.octets bytes) => .ok (bytes.map fun b => .scalar (.int b.toNat))
  | .scalar _ => .error .wrongOperand

/-- The number of values that a visit of a value meets. -/
def size (store : Store) (v : Value) : Except Misfit Nat :=
  (store.elements v).map List.length

/-- A value as a key. What has parts that may change is no key. -/
def key (store : Store) (v : Value) : Except Misfit Scalar :=
  match store.shape v with
  | .scalar s => .ok s
  | _ => .error .wrongOperand

/-- The key and the value that an item of a list of pairs stands for. -/
def pair (store : Store) (v : Value) : Except Misfit (Scalar × Value) := do
  match ← store.elements v with
  | [key, value] => return (← store.key key, value)
  | _ => throw .badContent

/-- Whether a value may be looked for among keys. -/
def mayBeKey (store : Store) (v : Value) : Bool :=
  match store.shape v with
  | .scalar _ => true
  | .pair key value => (store.scalar? key).isSome && (store.scalar? value).isSome
  | _ => false

/-- The tree below a value that lies inside of nodes, unless it is deeper than a bound. One of
these nodes that comes up again is not gone into a second time. -/
def treeInside (store : Store) : (depth : Nat) → (around : List Nat) → Value → Tree
  | 0, _, _ => .scalar .null
  | depth + 1, around, v =>
    match store.shape v with
    | .scalar s => .scalar s
    | .pair key value =>
      .pair (treeInside store depth around key) (treeInside store depth around value)
    | .set members => .set members
    | .list id items =>
      if around.contains id then .enclosing false
      else .list (items.map (treeInside store depth (id :: around)))
    | .object id entries =>
      if around.contains id then .enclosing true
      else
        .object (entries.map fun entry =>
          (entry.1, treeInside store depth (id :: around) entry.2))

/-- The tree below a value. No path in it is longer than the number of nodes. -/
def tree (store : Store) (v : Value) : Tree := store.treeInside (2 * store.cells.size + 2) [] v

mutual

/-- Adds nodes for a tree. A node that is to stand inside of itself is left out. -/
def load (store : Store) : Tree → Value × Store
  | .scalar s => (.scalar s, store)
  | .enclosing _ => (.null, store)
  | .set members => store.add (.set members)
  | .pair key value =>
    let (key, store) := load store key
    let (value, store) := load store value
    store.add (.pair key value)
  | .list items =>
    let (values, store) := loadItems store items
    store.add (.list values)
  | .object entries =>
    let (entries, store) := loadEntries store entries
    store.add (.object entries)

/-- Adds nodes for the items of a list. -/
def loadItems (store : Store) : List Tree → List Value × Store
  | [] => ([], store)
  | item :: rest =>
    let (value, store) := load store item
    let (values, store) := loadItems store rest
    (value :: values, store)

/-- Adds nodes for the entries of an object. -/
def loadEntries (store : Store) : List (Scalar × Tree) → Entries Value × Store
  | [] => ([], store)
  | (key, item) :: rest =>
    let (value, store) := load store item
    let (entries, store) := loadEntries store rest
    ((key, value) :: entries, store)

end

end Store

end DeviceApi
