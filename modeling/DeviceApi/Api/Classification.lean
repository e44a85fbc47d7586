import DeviceApi.Api.Content
import DeviceApi.Api.Operation
import DeviceApi.Api.Parameters
import DeviceApi.Schema.Envelope
import DeviceApi.Schema.Optional
import DeviceApi.Schema.Table
import DeviceApi.Schema.Tag

/-!
# Classification of operations

Every operation has the same form: path parameters, then a query or else a form as request, one
successful response in JSON and two error responses in plain text. Classification checks the
form, stores the schemas of the operation in the table and tags both.
-/

namespace DeviceApi

/-- The shape of an error response. -/
def errorResponseShape : Tree :=
  .ofFields [("content", .ofFields [("text/plain", .ofFields [("schema", textShape)])])]

/-- The shape of all error responses of an operation together. -/
def errorResponsesShape : Tree :=
  .ofFields [("400", errorResponseShape), ("500", errorResponseShape)]

/-- The name of the schema of an operation in a role. -/
def Operation.schemaName (op : Operation) (role : Role) : String := op.typeId ++ role.text

/-- The key under which an operation refers to its schema in a role. -/
def Role.operationKey : Role → String
  | .path => "x-path-schema"
  | .request => "x-request-schema"
  | .response => "x-response-schema"

/-- The key under which an operation holds the encoding of its request. -/
def encodingKey : String := "x-request-kind"

namespace Edit

/-- A copy of a value's entries as a new object. -/
def copyObject (v : Value) : Edit Value := do newObject (← entriesOf v)

/-- Stores the schema of a content in the table, unless the content refers to a schema already;
then tags the schema with its role and the operation with a reference to it. -/
def adoptContent (table : SchemaTable) (op : Operation) (role : Role) (content : Content) :
    Edit Unit := do
  let declared ← fieldOf content.media "schema"
  if !(← isReference declared) then
    putField content.media "schema" (← table.register (op.schemaName role) content.schema)
  setRole content.schema role
  putField op.content role.operationKey (← copyObject (← fieldOf content.media "schema"))

/-- Stores grouped parameters in the table and tags them and the operation. -/
def adoptParameters (table : SchemaTable) (op : Operation) (role : Role) (schema : Value) :
    Edit Unit := do
  setRole schema role
  putField op.content role.operationKey (← table.register (op.schemaName role) schema)

/-- A copy of a response in which the schemas of the content stand in place of references. -/
def expandResponse (root response : Value) : Edit Value := do
  let entries ← entriesOf response
  match (← get).entries? ((entries.get? "content").getD .null) with
  | none => newObject entries
  | some content =>
    let expanded ← content.mapM fun (type, media) => do
      match (← get).entries? media with
      | none => return (type, media)
      | some fields =>
        let schema ← dereference root ((fields.get? "schema").getD .null)
        return (type, ← newObject (fields.put "schema" schema))
    newObject (entries.put "content" (← newObject expanded))

/-- A response under a code other than that of success, with its references replaced. -/
def errorResponse (root : Value) (op : Operation) (code : Scalar) (declared : Value) :
    Edit (Scalar × Value) := do
  let response ← dereference root declared
  if ((← get).entries? response).isNone then
    refuse (.emptyResponse code.display op.method op.path)
  return (code, ← expandResponse root response)

/-- The responses of an operation by the text of their codes. -/
def responsesOf (op : Operation) : Edit (Entries Value) := do
  let responses ← optionalEntries (← fieldOf op.content "responses")
  return Entries.ofPairs (← responses.mapM fun (code, response) =>
    return (.text (← textOf code), response))

/-- Checks the responses of an operation and adopts the schema of the successful one. -/
def classifyResponses (root : Value) (table : SchemaTable) (op : Operation) : Edit Unit := do
  let responses ← responsesOf op
  let success := (responses.get? "200").getD .null
  let others := responses.remove "200"
  if (← get).isNull success then refuse (.noSuccessResponse op.method op.path)
  let errors ← others.mapM fun (code, declared) => errorResponse root op code declared
  let shape ← ofExcept (← treeOf (← newObject errors)).withoutOptional
  if !shape.same errorResponsesShape then
    let codes := Text.sorted (others.keys.map Scalar.display)
    refuse (.errorResponses op.method op.path codes)
  let content ← explaining (.successResponse op.id) do
    contentOf root (← dereference root success) jsonContentType
  adoptContent table op .response content

/-- Adopts the query parameters of an operation that is read by address alone. -/
def classifyQuery (table : SchemaTable) (op : Operation) (query : Option Value) (body : Value) :
    Edit Unit := do
  let some query := query | refuse (.missingQueryParameters op.id)
  if ← isTruthy body then refuse (.unexpectedRequestBody op.id)
  adoptParameters table op .request query
  putField op.content encodingKey (.text RequestEncoding.query.text)

/-- Adopts the form of an operation that has a request body. -/
def classifyForm (root : Value) (table : SchemaTable) (op : Operation) (query : Option Value)
    (body : Value) : Edit Unit := do
  if query.isSome then refuse (.unexpectedQueryParameters op.id)
  if !(← isTruthy body) then refuse (.missingRequestBody op.id)
  let content ← explaining (.requestBody op.id) (contentOf root body formContentType)
  adoptContent table op .request content
  putField op.content encodingKey (.text RequestEncoding.form.text)

/-- Checks the form of an operation, stores its schemas in the table and tags both. -/
def classify (root : Value) (table : SchemaTable) (op : Operation) : Edit Unit := do
  let declared ← fieldOf op.content "parameters"
  let (path, query) ←
    if ← isTruthy declared then groupParameters root declared else pure (none, none)
  let some path := path | refuse (.missingPathParameters op.id)
  adoptParameters table op .path path
  let body ← dereference root (← fieldOf op.content "requestBody")
  match op.method with
  | .get => classifyQuery table op query body
  | _ => classifyForm root table op query body
  classifyResponses root table op

end Edit

end DeviceApi
