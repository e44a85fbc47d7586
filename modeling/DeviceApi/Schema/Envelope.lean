import DeviceApi.Schema.Optional
import DeviceApi.Schema.Table
import DeviceApi.Schema.Tag
import DeviceApi.Api.Reference

/-!
# The transaction envelope

Every request carries the numbers of a client and of its transaction, and every response the
numbers of the transaction at both ends and the outcome. Shared code handles them, so once
their declared shapes have been checked they are removed from the schemas.
-/

namespace DeviceApi

/-- The shape of an integer of a given format. -/
def integerShape (format : String) : Tree :=
  .ofFields [("type", .text "integer"), ("format", .text format)]

/-- The shape of a text. -/
def textShape : Tree := .ofFields [("type", .text "string")]

/-- The fields of the envelope of a role with their shapes. Path parameters have none. -/
def Role.envelope : Role → List (String × Tree)
  | .path => []
  | .request =>
    [("ClientID", integerShape "uint32"), ("ClientTransactionID", integerShape "uint32")]
  | .response =>
    [("ClientTransactionID", integerShape "uint32"),
     ("ServerTransactionID", integerShape "uint32"),
     ("ErrorNumber", integerShape "int32"), ("ErrorMessage", textShape)]

/-- Whether a key is a field of the envelope of a role. -/
def Role.hasEnvelopeField (role : Role) (key : Scalar) : Bool :=
  role.envelope.any fun field => key == .text field.1

namespace Edit

/-- The fields of an envelope that properties lack or have in another shape. -/
def envelopeMismatches (properties : Entries Value) :
    List (String × Tree) → Edit (List String)
  | [] => return []
  | (field, expected) :: rest => do
    let declared ← treeOf ((properties.get? field).getD .null)
    let shape ← ofExcept declared.withoutOptional
    let more ← envelopeMismatches properties rest
    return if shape.same expected then more else field :: more

/-- The names of a list of required names that are not fields of the envelope. -/
def requiredBeyondEnvelope (role : Role) (required : Value) : Edit (List Value) := do
  (← elementsOf required).filterM fun name => do
    match ← look name with
    | .scalar s => return !role.hasEnvelopeField s
    | _ => if (← get).mayBeKey name then return true else misfit .wrongOperand

/-- Checks the envelope of a schema and removes it. A schema without a role, or in the role of
path parameters, stays as it is. -/
def stripEnvelope (name : Scalar) (schema : Value) : Edit Unit := do
  let some role ← roleOf schema | return
  if role.envelope.isEmpty then return
  let properties ← optionalEntries (← fieldOf schema "properties")
  let mismatches ← envelopeMismatches properties role.envelope
  if !mismatches.isEmpty then
    refuse (.envelope role (← textOf name) (Text.sorted mismatches))
  let kept := properties.filter fun property => !role.hasEnvelopeField property.1
  putField schema "properties" (← newObject kept)
  match (← entriesOf schema).get? "required" with
  | none => return
  | some required =>
    let names ← requiredBeyondEnvelope role required
    if names.isEmpty then removeField schema "required"
    else putField schema "required" (← newList names)

/-- Removes the envelope from every schema of the table. A reference is dealt with at the
schema that it refers to. -/
def stripEnvelopes (table : SchemaTable) : Edit Unit := do
  for (name, schema) in ← table.entries do
    if !(← isReference schema) then stripEnvelope name schema

end Edit

end DeviceApi
