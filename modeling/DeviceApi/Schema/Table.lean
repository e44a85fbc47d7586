import DeviceApi.Document.Edit

/-!
# The table of schemas

The named schemas of a document. References to them are made from their names.
-/

namespace DeviceApi

/-- What a pointer to a named schema begins with. -/
def schemaPointerStart : String := "#/components/schemas/"

/-- The pointer to a named schema. -/
def pointerTo (name : String) : String := schemaPointerStart ++ name

/-- The table of named schemas, as a place in the document. -/
structure SchemaTable where
  schemas : Value
  deriving Repr

namespace Edit

/-- The value under a key of an object, which is added if it is missing. -/
def fieldOrNew (v : Value) (key : Scalar) : Edit Value := do
  match (← entriesOf v).get? key with
  | some w => return w
  | none =>
    let w ← newObject []
    putField v key w
    return w

/-- The table of a document, made if it is missing. -/
def openTable (document : Value) : Edit SchemaTable := do
  let components ← fieldOrNew document "components"
  return { schemas := ← fieldOrNew components "schemas" }

end Edit

namespace SchemaTable

open Edit

/-- Stores a schema under a name, in place of one that has the name already, and answers a
reference to it. -/
def register (table : SchemaTable) (name : Scalar) (schema : Value) : Edit Value := do
  putField table.schemas name schema
  newObject [("$ref", .text (pointerTo (← textOf name)))]

/-- Removes a schema. -/
def remove (table : SchemaTable) (name : Scalar) : Edit Unit := removeField table.schemas name

/-- Puts further schemas over those of the table. -/
def merge (table : SchemaTable) (schemas : Entries Value) : Edit Unit := do
  let (id, entries) ← objectOf table.schemas
  modify fun s => s.set id (.object (entries.putAll schemas))

/-- The schema with a name. -/
def find (table : SchemaTable) (name : Scalar) : Edit Value := do
  match ← look table.schemas with
  | .object _ entries =>
    match entries.get? name with
    | some schema => return schema
    | none => misfit .missingEntry
  | _ => misfit .wrongOperand

/-- Whether there is a schema with a name. -/
def contains (table : SchemaTable) (name : Scalar) : Edit Bool := do
  match ← look table.schemas, name with
  | .object _ entries, _ => return entries.has name
  | .list _ items, _ =>
    let store ← get
    return items.any fun item => (store.scalar? item).any name.sameKey
  | .scalar (.text s), .text part => return (s.splitOn part).length ≠ 1 || part == ""
  | _, _ => misfit .wrongOperand

/-- The names with their schemas, in order. -/
def entries (table : SchemaTable) : Edit (Entries Value) := entriesOf table.schemas

/-- The number of schemas. -/
def size (table : SchemaTable) : Edit Nat := do
  ofExcept ((← get).size table.schemas)

end SchemaTable

end DeviceApi
