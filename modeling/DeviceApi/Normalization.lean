import DeviceApi.Api.Classification
import DeviceApi.Names.Methods
import DeviceApi.Schema.Catalogue
import DeviceApi.Schema.Folding

/-!
# Normalization of a description

A description is normalized in four stages: its operations are classified, the envelope is
removed from the schemas of requests and responses, the schemas are brought into canonical
form, and schemas of equal shape are folded.
-/

namespace DeviceApi

/-- The key under which an operation holds the name of its method. -/
def methodNameKey : String := "x-canonical-name"

/-- A normalized description. -/
structure Normalized where
  document : Value
  replacements : Replacements
  duplicates : List DuplicateShape
  deriving Repr

namespace Edit

/-- Classifies an operation and names it if there is a source of names. -/
def classifyAndName (root : Value) (table : SchemaTable) (names : Option MethodNames)
    (op : Operation) : Edit Unit := do
  classify root table op
  match names with
  | none => return
  | some names =>
    match names.resolvePath op.path with
    | .ok name => putField op.content methodNameKey (.text name)
    | .error f => throw f

/-- Brings every schema of a table into canonical form, references aside. -/
def canonicalizeTable (table : SchemaTable) : Edit Unit := do
  for (_, schema) in ← table.entries do
    if !(← isReference schema) then canonicalize schema

end Edit

namespace Procedure

open Edit

/-- Classifies all operations and reports how many there are. -/
def classifyAll (document : Value) (table : SchemaTable) (names : Option MethodNames) :
    Procedure Unit := do
  let count ← ofEdit (visitOperations document (classifyAndName document table names))
  report .info s!"Classified {count} operations, {← table.size} schemas registered"

/-- Normalizes a description in place. -/
def normalize (document : Value) (names : Option MethodNames) (catalogue : Tree)
    (merge : Bool) : Procedure Normalized := do
  let table ← openTable document
  stage "classify" (classifyAll document table names)
  stage "strip envelope" (ofEdit (stripEnvelopes table))
  stage "canonicalize" (ofEdit (canonicalizeTable table))
  stage "deduplicate" do
    let (replacements, duplicates) ← foldSchemas table catalogue merge
    report .info s!"Replaced {replacements.length} schemas, {← table.size} left"
    return { document, replacements, duplicates }

end Procedure

/-- The value that is written for a normalized description. -/
def Normalized.payload (result : Normalized) : Edit Value := do
  let replacements ← Edit.newObject (result.replacements.map fun (k, v) => (k, .text v))
  Edit.newObject [("api", result.document), ("refReplacements", replacements)]

end DeviceApi
