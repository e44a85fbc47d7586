import DeviceApi.Document.Store
import DeviceApi.Json.Writer

/-!
# Shape keys

Two canonical schemas that would become the same type have the same shape key: the JSON text of
the schema with sorted keys, without descriptions and with sorted lists of required names.
-/

namespace DeviceApi

namespace Tree

mutual

/-- A schema without descriptions. They are removed from the schema itself, from the schemas of
its properties and from that of its items. -/
def withoutDescriptions : Tree → Except Misfit Tree
  | .object entries => do return .object (← withoutDescriptionEntries entries)
  | t => .ok t

/-- The entries of a schema without descriptions. -/
def withoutDescriptionEntries : List (Scalar × Tree) → Except Misfit (List (Scalar × Tree))
  | [] => .ok []
  | (key, value) :: rest => do
    if key = .text "description" then withoutDescriptionEntries rest
    else
      let value ← undescribed key value
      return (key, value) :: (← withoutDescriptionEntries rest)

/-- The value of a keyword other than a description. -/
def undescribed (key : Scalar) : Tree → Except Misfit Tree
  | .object entries => do
    if key = .text "properties" then return .object (← withoutDescriptionProperties entries)
    else if key = .text "items" then return .object (← withoutDescriptionEntries entries)
    else return .object entries
  | .list items => do
    if key = .text "required" then return .list (← Sorting.sort less items)
    else return .list items
  | t => .ok t

/-- The properties of a schema without the descriptions of their schemas. -/
def withoutDescriptionProperties : List (Scalar × Tree) → Except Misfit (List (Scalar × Tree))
  | [] => .ok []
  | (name, schema) :: rest => do
    let first ← withoutDescriptions schema
    return (name, first) :: (← withoutDescriptionProperties rest)

end

/-- The key of the shape of a canonical schema. -/
def shapeKey (schema : Tree) : Except Misfit String := do
  Json.write Json.sortedLine (← schema.withoutDescriptions)

end Tree

namespace Store

/-- The tree below a schema of a document, unless schemas lie in it deeper than a bound. A
schema may stand inside of the properties that it has itself. -/
def schemaTree (store : Store) : (depth : Nat) → Value → Except Misfit Tree
  | 0, _ => .error .endless
  | depth + 1, v =>
    match store.shape v with
    | .object _ entries => do
      return .object (← entries.mapM fun (key, value) => do
        match key, store.shape value with
        | .text "properties", .object _ properties =>
          let schemas ← properties.mapM fun (name, schema) => do
            return (name, ← schemaTree store depth schema)
          return (key, .object schemas)
        | .text "items", .object .. => return (key, ← schemaTree store depth value)
        | _, _ => return (key, store.tree value))
    | _ => .ok (store.tree v)

/-- The key of the shape of a schema of a document. -/
def shapeKey (store : Store) (schema : Value) : Except Misfit String := do
  (← store.schemaTree (store.cells.size + 1) schema).shapeKey

end Store

end DeviceApi
