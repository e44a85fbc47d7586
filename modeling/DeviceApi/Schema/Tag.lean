import DeviceApi.Document.Edit

/-!
# Role tags

A schema is tagged with the role that it has. It never has two roles.
-/

namespace DeviceApi

/-- The key under which a schema holds its role. -/
def roleKey : String := "x-kind"

namespace Edit

/-- Tags a schema with a role. A schema that has another tag is refused. -/
def setRole (schema : Value) (role : Role) : Edit Unit := do
  let previous ← fieldOf schema roleKey
  let store ← get
  if store.isTruthy previous && !store.isText previous role.text then
    refuse (.conflictingRole (← shownTree previous) role)
  putField schema roleKey (.text role.text)

/-- The role of a schema, if it is tagged with one. A tag that is nothing stands for none. -/
def roleOf (schema : Value) : Edit (Option Role) := do
  let tag ← fieldOf schema roleKey
  match ← look tag with
  | .scalar .null => return none
  | .scalar (.text s) =>
    match Role.ofText? s with
    | some role => return some role
    | none => refuse (.unknownRole (.text s))
  | _ => refuse (.unknownRole (← shownTree tag))

end Edit

end DeviceApi
