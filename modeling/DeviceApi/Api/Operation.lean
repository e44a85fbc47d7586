import DeviceApi.Document.Edit
import DeviceApi.Text.Case

/-!
# Operations

A description has operations: one for each path and each of its methods. They are enumerated
in the order of the paths and, within a path, in the order of the methods.
-/

namespace DeviceApi

/-- An operation of a description; `content` is its place in the document. -/
structure Operation where
  path : String
  method : Method
  id : String
  content : Value
  deriving Repr

/-- The name from which the names of the schemas of an operation are made. -/
def Operation.typeId (op : Operation) : String := Text.toPascalCase op.id

/-- The operation with given fields. Path and identifier are texts, the method is one of the
known ones, and the content may be anything. -/
def Operation.ofFields? (store : Store) (fields : Entries Value) : Option Operation := do
  let text? (key : String) : Option String := do
    match store.shape (← fields.get? key) with
    | .scalar (.text s) => some s
    | _ => none
  return {
    path := ← text? "path"
    method := ← (text? "method").bind Method.ofText?
    id := ← text? "id"
    content := ← fields.get? "operation" }

/-- Whether a segment of a path is a placeholder in braces. A line feed may follow the closing
brace and must not stand inside. -/
def isPlaceholder (segment : List Char) : Bool :=
  match segment with
  | '\x7b' :: rest =>
    let inner := if rest.getLast? = some '\n' then rest.dropLast else rest
    inner.getLast? == some '\x7d' && !inner.contains '\n'
  | _ => false

/-- The segments of a path behind its first slash, except for placeholders, joined by
underscores. -/
def pathId (path : String) : String :=
  let segments := (Text.splitAtChar '/' path.toList).drop 1
  "_".intercalate ((segments.filter fun s => !isPlaceholder s).map String.ofList)

/-- The path that a key of the paths is. -/
def pathOfKey : Scalar → Except Misfit String
  | .text path => .ok path
  | .octets _ => .error .wrongOperand
  | _ => .error .noSuchOperation

namespace Edit

/-- Visits the operations of one path and answers how many there are. -/
def visitMethods (path : String) (methods : Value) (visit : Operation → Edit Unit) :
    List Method → Edit Nat
  | [] => return 0
  | method :: rest => do
    let content ← fieldOf methods method.text
    if ← isTruthy content then
      visit { path, method, id := s!"{method.text}_{pathId path}", content }
      return (← visitMethods path methods visit rest) + 1
    else visitMethods path methods visit rest

/-- Visits every operation of a document in order and answers how many there are. -/
def visitOperations (document : Value) (visit : Operation → Edit Unit) : Edit Nat := do
  let paths ← fieldOf document "paths"
  if ← isTruthy paths then
    foldEntries paths 0 fun count key methods => do
      let path ← ofExcept (pathOfKey key)
      if ← isTruthy methods then return count + (← visitMethods path methods visit Method.all)
      else return count
  else return 0

end Edit

namespace Store

/-- The operations of one path, in the order of the methods. -/
def methodOperations (store : Store) (path : String) (methods : Entries Value) :
    List Operation :=
  Method.all.filterMap fun method =>
    match methods.get? method.text with
    | some content =>
      if store.isTruthy content then
        some { path, method, id := s!"{method.text}_{pathId path}", content }
      else none
    | none => none

/-- The operations of a list of paths. -/
def pathOperations (store : Store) : Entries Value → Except Misfit (List Operation)
  | [] => .ok []
  | (key, methods) :: rest => do
    let path ← pathOfKey key
    let here ←
      if store.isTruthy methods then
        match store.entries? methods with
        | some entries => pure (store.methodOperations path entries)
        | none => throw .noSuchOperation
      else pure []
    return here ++ (← store.pathOperations rest)

/-- The paths of a document with what is declared for them. -/
def paths (store : Store) (document : Value) : Except Misfit (Entries Value) :=
  match store.entries? document with
  | none => .error .noSuchOperation
  | some entries =>
    let paths := (entries.get? "paths").getD .null
    if store.isTruthy paths then
      match store.entries? paths with
      | some paths => .ok paths
      | none => .error .noSuchOperation
    else .ok []

/-- All operations of a document in order. -/
def operations (store : Store) (document : Value) : Except Misfit (List Operation) := do
  store.pathOperations (← store.paths document)

/-- The first operation of a list of paths with an identifier. Paths behind it do not count. -/
def operationIn? (store : Store) (id : String) : Entries Value → Except Misfit (Option Operation)
  | [] => .ok none
  | path :: rest => do
    match (← store.pathOperations [path]).find? fun op => op.id == id with
    | some op => return some op
    | none => store.operationIn? id rest

/-- The first operation of a document with an identifier. -/
def operation? (store : Store) (document : Value) (id : String) :
    Except Misfit (Option Operation) := do
  store.operationIn? id (← store.paths document)

end Store

end DeviceApi
