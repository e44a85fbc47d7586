import DeviceApi.Document.Lenient
import DeviceApi.Json.Reader
import DeviceApi.Log.Procedure
import DeviceApi.Schema.Canonical
import DeviceApi.Schema.ShapeKey
import DeviceApi.Schema.Table

/-!
# Folding of schemas

A schema of the same shape as one of the catalogue is removed from the table, and references to
it are to be replaced by references to the catalogue. Shapes that still occur more than once are
reported, and on demand also folded into their first occurrence.
-/

namespace DeviceApi

/-- Pointers with the pointers that take their place. -/
abbrev Replacements := Entries String

/-- The pointer that takes the place of another in the end. The number of replacements bounds
the chain. -/
def Replacements.follow (replacements : Replacements) (pointer : Scalar) : Scalar :=
  go replacements.length pointer
where
  /-- Follows at most `fuel` replacements. -/
  go : (fuel : Nat) → Scalar → Scalar
    | 0, pointer => pointer
    | fuel + 1, pointer =>
      match replacements.get? pointer with
      | some next => go fuel (.text next)
      | none => pointer

/-- A shape that several schemas of a table have. -/
structure DuplicateShape where
  key : String
  count : Int
  deriving DecidableEq, Repr

/-- The schema that a shape key was made from. -/
def DuplicateShape.shape (duplicate : DuplicateShape) : Except Fault Tree :=
  match Json.read duplicate.key with
  | .ok t => .ok t
  | .error .malformed => .error .notJson
  | .error (.unfit m) => .error m

/-- The report with given fields. The count may be given in any form of an integer. -/
def DuplicateShape.ofFields? (key count : Tree) : Option DuplicateShape :=
  match key, count with
  | .scalar (.text key), .scalar count =>
    (Lenient.integer? count).map fun count => { key, count }
  | _, _ => none

/-- Counts of shape keys in order of first occurrence. -/
abbrev ShapeCounts := Entries Nat

/-- The shapes that occur more than once, the most frequent first; shapes of the same frequency
keep their order. -/
def ShapeCounts.duplicates (counts : ShapeCounts) : List DuplicateShape :=
  let repeated := counts.filterMap fun (key, count) =>
    if 1 < count then some { key := key.display, count } else none
  repeated.mergeSort fun a b => b.count ≤ a.count

/-- What is known while the table is gone through. -/
structure FoldState where
  replacements : Replacements := []
  counts : ShapeCounts := []
  /-- The name under which each shape was met first. -/
  firstSeen : Entries Scalar := []

namespace Procedure

open Edit

/-- The schemas of a catalogue as fresh nodes in canonical form. -/
def loadCatalogue (catalogue : Tree) : Procedure (Entries Value) := do
  match catalogue with
  | .object schemas =>
    schemas.mapM fun (name, schema) => do
      let node ← loadTree schema
      canonicalize node
      return (name, node)
  | _ => throw (.misfit .noSuchOperation)

/-- The shape key of a schema in the document. -/
def shapeKeyOf (schema : Value) : Edit String := do ofExcept ((← get).shapeKey schema)

/-- The name of the first schema of a catalogue for each shape in it. -/
def catalogueShapes : Entries Value → Procedure (Entries Scalar)
  | schemas => schemas.foldlM (fun shapes (name, schema) => do
      let key ← shapeKeyOf schema
      return if shapes.has key then shapes else shapes.put key name) []

/-- Removes a schema in favour of another. -/
def foldInto (table : SchemaTable) (state : FoldState) (name target : Scalar) :
    Procedure FoldState := do
  table.remove name
  let replaced ← textOf name
  let kept ← textOf target
  report .debug s!"{replaced} -> {kept}"
  return { state with
    replacements := state.replacements.put (pointerTo replaced) (pointerTo kept) }

/-- Folds one schema of the table if its shape has been met before. A name that does not even
equal itself counts as another one. -/
def foldSchema (table : SchemaTable) (catalogue : Entries Value) (shapes : Entries Scalar)
    (merge : Bool) (state : FoldState) (name : Scalar) (schema : Value) :
    Procedure FoldState := do
  if catalogue.has name || (← isReference schema) then return state
  let key ← shapeKeyOf schema
  match shapes.get? key with
  | some target => foldInto table state name target
  | none =>
    let counts := state.counts.put key ((state.counts.get? key).getD 0 + 1)
    let first := (state.firstSeen.get? key).getD name
    let state := { state with counts, firstSeen := state.firstSeen.put key first }
    if merge && !first.same name then foldInto table state name first else return state

/-- Folds the schemas of the table, which are expected in canonical form, and adds the
catalogue. Answers the replacements and the shapes that occur more than once. -/
def foldSchemas (table : SchemaTable) (catalogue : Tree) (merge : Bool) :
    Procedure (Replacements × List DuplicateShape) := do
  let catalogue ← loadCatalogue catalogue
  let shapes ← catalogueShapes catalogue
  let state ← (← table.entries).foldlM (fun state (name, schema) =>
    foldSchema table catalogue shapes merge state name schema) {}
  table.merge catalogue
  let duplicates := state.counts.duplicates
  for duplicate in duplicates do
    report .warning
      s!"Found {duplicate.count} schemas with the same shape: {duplicate.key}"
  return (state.replacements, duplicates)

end Procedure

end DeviceApi
