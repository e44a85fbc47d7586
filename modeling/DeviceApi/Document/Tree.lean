import DeviceApi.Document.Scalar

/-!
# Entries and trees
-/

namespace DeviceApi

/-!
## Entries of an object

The entries of an object are kept in the order in which their keys came in. Giving a key a
new value leaves it at its place.
-/

/-- Keys with their values, in order. -/
abbrev Entries (α : Type) := List (Scalar × α)

namespace Entries

variable {α : Type}

/-- The value of a key. -/
def get? (key : Scalar) : Entries α → Option α
  | [] => none
  | (k, v) :: rest => if k.sameKey key then some v else get? key rest

/-- Whether a key has a value. -/
def has (entries : Entries α) (key : Scalar) : Bool := (get? key entries).isSome

/-- The entries with a value for a key, at its place or else at the end. -/
def put (key : Scalar) (value : α) : Entries α → Entries α
  | [] => [(key, value)]
  | (k, v) :: rest => if k.sameKey key then (k, value) :: rest else (k, v) :: put key value rest

/-- The entries without a key. -/
def remove (key : Scalar) : Entries α → Entries α
  | [] => []
  | (k, v) :: rest => if k.sameKey key then rest else (k, v) :: remove key rest

/-- The entries with all of the others put one after the other. -/
def putAll (entries others : Entries α) : Entries α :=
  others.foldl (fun acc (k, v) => put k v acc) entries

/-- The entries of a list of pairs; of a repeated key the first place and the last value
count. -/
def ofPairs (pairs : List (Scalar × α)) : Entries α := putAll [] pairs

/-- The keys in order. -/
def keys (entries : Entries α) : List Scalar := entries.map Prod.fst

/-- The values in order. -/
def values (entries : Entries α) : List α := entries.map Prod.snd

end Entries

end DeviceApi

/-!
## Trees

A tree is a document without identity: scalars, lists and objects whose entries have an
order. It is what documents are read from and written as, and what shapes are compared by.
-/

namespace DeviceApi

/-- A value of a document with everything below it. -/
inductive Tree where
  | scalar (s : Scalar)
  | list (items : List Tree)
  /-- A key with its value, as an item of a list. -/
  | pair (key value : Tree)
  /-- Keys without values. -/
  | set (members : List Scalar)
  | object (entries : List (Scalar × Tree))
  /-- The list or the object around this place that stands here once more. -/
  | enclosing (isObject : Bool)
  deriving Repr

namespace Tree

/-- The tree of a text. -/
abbrev text (s : String) : Tree := .scalar (.text s)

/-- The tree of an integer. -/
abbrev int (i : Int) : Tree := .scalar (.int i)

/-- The tree of a truth value. -/
abbrev bool (b : Bool) : Tree := .scalar (.bool b)

/-- The tree of nothing. -/
abbrev null : Tree := .scalar .null

/-- An object with text keys. -/
def ofFields (fields : List (String × Tree)) : Tree :=
  .object (fields.map fun (k, v) => (.text k, v))

/-- The value of a text key of an object. -/
def field? (name : String) : Tree → Option Tree
  | .object entries => Entries.get? name entries
  | _ => none

/-- The text of a scalar that is one. -/
def text? : Tree → Option String
  | .scalar (.text s) => some s
  | _ => none

/-- Whether each member of the first set is one of the second. -/
def isSubset (a b : List Scalar) : Bool := a.all fun m => b.any m.sameKey

mutual

/-- Equality of trees inside of others: the order of entries and members does not count. -/
def same : Tree → Tree → Bool
  | .scalar a, .scalar b => a.sameKey b
  | .list a, .list b => sameItems a b
  | .pair k v, .pair l w => same k l && same v w
  | .set a, .set b => a.length == b.length && isSubset a b
  | .object a, .object b => a.length == b.length && sameEntries a b
  | _, _ => false

/-- Whether two lists are equal item by item. -/
def sameItems : List Tree → List Tree → Bool
  | [], [] => true
  | a :: as, b :: bs => same a b && sameItems as bs
  | _, _ => false

/-- Whether each entry of the first has an equal value in the second. -/
def sameEntries : List (Scalar × Tree) → List (Scalar × Tree) → Bool
  | [], _ => true
  | (k, v) :: rest, others =>
    (match Entries.get? k others with
      | some w => same v w
      | none => false) && sameEntries rest others

end

end Tree

end DeviceApi
