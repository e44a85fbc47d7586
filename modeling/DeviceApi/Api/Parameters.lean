import DeviceApi.Api.Reference
import DeviceApi.Document.Order

/-!
# Grouping of parameters

The parameters of an operation are grouped by location. A group becomes the schema of an
object with a property for each parameter and the list of those that are required.
-/

namespace DeviceApi

/-- The parameters of one location. -/
structure ParameterGroup where
  /-- The schema of each parameter by name. -/
  properties : Entries Value := []
  /-- The names of required parameters, one for each declaration. -/
  required : List Value := []

/-- Parameter groups by location. -/
abbrev ParameterGroups := Entries ParameterGroup

namespace Edit

/-- The schema of a parameter as a property: its description, if it has one, and over it a
copy of the entries of its schema. -/
def propertyOf (parameter : Entries Value) : Edit Value := do
  let description := (parameter.get? "description").getD .null
  let property ← newObject (if ← isTruthy description then [("description", description)] else [])
  let schema := (parameter.get? "schema").getD .null
  if ← isTruthy schema then overlay property schema
  return property

/-- Adds a parameter to the group of its location. -/
def addParameter (root : Value) (groups : ParameterGroups) (declared : Value) :
    Edit ParameterGroups := do
  let parameter ← entriesOf (← dereference root declared)
  let location ← keyOf ((parameter.get? "in").getD .null)
  let group := (groups.get? location).getD {}
  let property ← propertyOf parameter
  let some name := parameter.get? "name" | misfit .missingEntry
  let group := { group with properties := group.properties.put (← keyOf name) property }
  let isRequired ← isTruthy ((parameter.get? "required").getD .null)
  let group := if isRequired then { group with required := group.required ++ [name] } else group
  return groups.put location group

/-- The schema of an object with the parameters of a group as properties. -/
def groupSchema (group : ParameterGroup) : Edit Value := do
  let properties ← newObject group.properties
  let schema : Entries Value := [("type", .text "object"), ("properties", properties)]
  if group.required.isEmpty then newObject schema
  else newObject (schema ++ [(.text "required", ← newList group.required)])

/-- The schema of a group that may not exist. -/
def groupSchema? : Option ParameterGroup → Edit (Option Value)
  | none => return none
  | some group => return some (← groupSchema group)

/-- The schemas of the path parameters and of the query parameters; either is missing when
nothing is declared there. No other location is allowed. -/
def groupParameters (root parameters : Value) : Edit (Option Value × Option Value) := do
  let groups ← (← elementsOf parameters).foldlM (addParameter root) []
  let others := (Entries.remove "path" groups).remove "query"
  if others.isEmpty then
    return (← groupSchema? (groups.get? "path"), ← groupSchema? (groups.get? "query"))
  else
    let locations := Text.sorted (← others.keys.mapM textOf)
    let names := Tree.list (others.values.flatMap fun group => group.properties.keys.map .scalar)
    if names.hasText then refuse (.parameterLocations locations names) else misfit .badContent

end Edit

end DeviceApi
