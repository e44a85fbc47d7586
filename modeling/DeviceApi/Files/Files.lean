import DeviceApi.Fault
import DeviceApi.Text.Lines

/-!
# Paths and files
-/

namespace DeviceApi

/-!
## Names of paths

A path is a sequence of names behind an optional root. Empty names and single points are left
out; a step upwards is kept.
-/

/-- A path: one or two slashes or nothing, and names. -/
structure PathName where
  root : String
  names : List String
  deriving DecidableEq, Repr

namespace PathName

/-- The root at the front of a text. Exactly two slashes are a root of their own. -/
def rootOf : List Char → String
  | '/' :: '/' :: '/' :: _ => "/"
  | '/' :: '/' :: _ => "//"
  | '/' :: _ => "/"
  | _ => ""

/-- The path that a text names. -/
def ofText (s : String) : PathName :=
  let names := (Text.splitAtChar '/' s.toList).map String.ofList
  { root := rootOf s.toList, names := names.filter fun n => n != "" && n != "." }

/-- The text of a path. The empty path is a point. -/
def text (p : PathName) : String :=
  if p.root == "" && p.names.isEmpty then "." else p.root ++ "/".intercalate p.names

/-- The path without its last name. -/
def parent (p : PathName) : PathName := { p with names := p.names.dropLast }

end PathName

/-!
## Files

What the commands need to know of files and do with them, and a folder in memory on which they
can be run.
-/

/-- What stands at a path. -/
inductive Presence where
  | missing
  | file
  | folder
  deriving DecidableEq, Repr

/-- Access to files. -/
class Files (m : Type → Type) where
  /-- What stands at a path. -/
  look : String → m Presence
  /-- The octets of a file. -/
  read : String → m (Except FileFault (List UInt8))
  /-- Gives a file a content; the file need not exist. -/
  write : String → List UInt8 → m (Except FileFault Unit)
  /-- Makes a folder in an existing one. -/
  makeFolder : String → m (Except FileFault Unit)
  /-- The names in a folder in order. -/
  list : String → m (List String)

namespace Files

variable {m : Type → Type} [Monad m] [Files m]

/-- Makes a folder in an existing one, unless the folder is there already. -/
def makeFolderOnce (path : PathName) : m (Except FileFault Unit) := do
  match ← makeFolder path.text with
  | .error (.notFound text) => return .error (.notFound text)
  | .error f => if (← look path.text) == .folder then return .ok () else return .error f
  | .ok () => return .ok ()

/-- Makes a folder together with the folders around it that are missing. -/
def makeFolders : (depth : Nat) → PathName → m (Except FileFault Unit)
  | depth, path => do
    match ← makeFolderOnce path, depth with
    | .error (.notFound _), depth + 1 =>
      match ← makeFolders depth path.parent with
      | .error f => return .error f
      | .ok () => makeFolderOnce path
    | answer, _ => return answer

end Files

/-- An entry of a folder. -/
inductive FolderEntry where
  | file (octets : List UInt8)
  | folder
  deriving Repr

/-- A folder with everything below it, by the names that lead there. The folder itself is
always present. -/
structure Folder where
  entries : List (List String × FolderEntry) := []
  deriving Repr

namespace Folder

/-- The entry at a place. -/
def entry? (folder : Folder) (place : List String) : Option FolderEntry :=
  if place.isEmpty then some .folder else folder.entries.lookup place

/-- Puts an entry at a place. -/
def put (folder : Folder) (place : List String) (entry : FolderEntry) : Folder :=
  if (folder.entries.lookup place).isSome then
    { entries := folder.entries.map fun e => if e.1 == place then (place, entry) else e }
  else { entries := folder.entries ++ [(place, entry)] }

/-- The place that names lead to from another one. All but the last of them have to be
folders. -/
def walk (folder : Folder) (path : String) :
    (names : List String) → (place : List String) → Except FileFault (List String)
  | [], place => .ok place
  | name :: rest, place =>
    let next := if name == ".." then place.dropLast else place ++ [name]
    if rest.isEmpty then .ok next
    else
      match folder.entry? next with
      | some .folder => walk folder path rest next
      | some (.file _) => .error (.notDirectory path)
      | none => .error (.notFound path)

/-- The place of a path. Absolute paths lead outside of the folder, where nothing is found. -/
def place (folder : Folder) (path : String) : Except FileFault (List String) :=
  let name := PathName.ofText path
  if path.isEmpty || name.root != "" then .error (.notFound path)
  else
    match folder.walk path name.names [] with
    | .error f => .error f
    | .ok place =>
      match path.endsWith "/", folder.entry? place with
      | true, some (.file _) => .error (.notDirectory path)
      | _, _ => .ok place

/-- What stands at a path. -/
def look (folder : Folder) (path : String) : Presence :=
  match folder.place path with
  | .error _ => .missing
  | .ok place =>
    match folder.entry? place with
    | some .folder => .folder
    | some (.file _) => .file
    | none => .missing

/-- The octets of a file. -/
def read (folder : Folder) (path : String) : Except FileFault (List UInt8) := do
  match folder.entry? (← folder.place path) with
  | some (.file octets) => return octets
  | some .folder => throw (.isDirectory path)
  | none => throw (.notFound path)

/-- The folder with a content for a file. -/
def write (folder : Folder) (path : String) (octets : List UInt8) :
    Except FileFault Folder := do
  let place ← folder.place path
  match folder.entry? place with
  | some .folder => throw (.isDirectory path)
  | _ =>
    if path.endsWith "/" then throw (.isDirectory path)
    return folder.put place (.file octets)

/-- The folder with one more folder in it. -/
def makeFolder (folder : Folder) (path : String) : Except FileFault Folder := do
  let place ← folder.place path
  match folder.entry? place with
  | some _ => throw (.alreadyExists path)
  | none => return folder.put place .folder

/-- The names directly in a folder. -/
def list (folder : Folder) (path : String) : List String :=
  match folder.place path with
  | .error _ => []
  | .ok place =>
    (folder.entries.filterMap fun e =>
      match e.1.getLast? with
      | some name => if e.1.dropLast == place then some name else none
      | none => none).mergeSort

/-- The folder with a file and the folders around it. -/
def withFile (folder : Folder) (path : String) (octets : List UInt8) : Folder :=
  let names := (PathName.ofText path).names
  let around := (List.range (names.length - 1)).map fun n => names.take (n + 1)
  (around.foldl (fun folder place => folder.put place .folder) folder).put names (.file octets)

/-- An answer together with the folder afterwards. -/
def change (f : Folder → Except FileFault Folder) : StateM Folder (Except FileFault Unit) := do
  match f (← get) with
  | .ok folder =>
    set folder
    return .ok ()
  | .error fault => return .error fault

end Folder

instance : Files (StateM Folder) where
  look path := return (← get).look path
  read path := return (← get).read path
  write path octets := Folder.change (·.write path octets)
  makeFolder path := Folder.change (·.makeFolder path)
  list path := return (← get).list path

end DeviceApi
