import DeviceApi.Api.Reference

/-!
# Content of bodies

A request body or a response has a content: an object of media types, of which exactly one is
expected, and in it the schema of an object.
-/

namespace DeviceApi

/-- The media type that a request body has. -/
def formContentType : String := "application/x-www-form-urlencoded"

/-- The media type that a successful response has. -/
def jsonContentType : String := "application/json"

/-- A media type object and the schema that it leads to. -/
structure Content where
  media : Value
  schema : Value
  deriving Repr

namespace Edit

/-- The content of a body or a response, which has to have the expected media type and no
other. -/
def contentOf (root owner : Value) (contentType : String) : Edit Content := do
  let content ← fieldOf owner "content"
  let types ← if ← isTruthy content then elementsOf content else pure []
  match types with
  | [type] =>
    if !(← get).isText type contentType then
      refuse (.contentTypes (← types.mapM shownTree) contentType)
  | _ => refuse (.contentTypes (← types.mapM shownTree) contentType)
  let some entries := (← get).entries? content | misfit .wrongOperand
  let media := (entries.get? contentType).getD .null
  let some fields := (← get).entries? media | refuse (.emptyMedia contentType)
  let schema ← dereference root ((fields.get? "schema").getD .null)
  let some keywords := (← get).entries? schema | refuse .contentNotObject
  if (← get).isText ((keywords.get? "type").getD .null) "object" then
    return { media, schema }
  else refuse .contentNotObject

/-- Passes on a violation as part of a wider one. -/
def explaining {α : Type} (wider : Violation → Violation) (edit : Edit α) : Edit α :=
  tryCatch edit fun f =>
    match f with
    | .violation v => refuse (wider v)
    | f => throw f

end Edit

end DeviceApi
