import DeviceApi.Api.Description
import DeviceApi.Document.Lenient
import DeviceApi.Files.Files
import DeviceApi.Output
import DeviceApi.Text.ShellWords

/-!
# Settings

A run is described by settings. A YAML file may state some of them, and the command line of the
formatter may be stated apart, which then counts.
-/

namespace DeviceApi

/-- The settings of a run. -/
structure Settings where
  /-- The file of the description. -/
  description : PathName := .ofText "AlpacaDeviceAPI_v1.yaml"
  /-- The file of the source of names. -/
  names : Option PathName := none
  output : PathName := .ofText "AlpacaDeviceAPI_v1.normalized.json"
  format : OutputFormat := .json
  formatter : List String := ["rustfmt", "+nightly", "--edition=2021"]
  mergeDuplicates : Bool := false
  verbose : Bool := false

namespace Settings

/-- The key of the path of the description. -/
def descriptionKey : String := "api_path"

/-- The key of the path of the source of names. -/
def namesKey : String := "names_path"

/-- The key of the path of the output file. -/
def outputKey : String := "output_path"

/-- The key of the format of the output file. -/
def formatKey : String := "output_format"

/-- The key of the words of the formatter command. -/
def formatterKey : String := "formatter"

/-- The key of whether schemas of equal shape are merged. -/
def mergeKey : String := "merge_duplicates"

/-- The key of whether every stage is reported. -/
def verboseKey : String := "verbose"

/-- The value of a key read in some way, or the usual value without the key. -/
def stated {α : Type} (entries : List (String × Tree)) (key : String) (usual : α)
    (read? : Tree → Option α) : Option α :=
  match entries.lookup key with
  | none => some usual
  | some t => read? t

/-- A path, which is a text. -/
def path? (t : Tree) : Option PathName := t.text?.map PathName.ofText

/-- A truth value in one of the ways in which it may be written. -/
def flag? : Tree → Option Bool
  | .scalar s => Lenient.truth? s
  | _ => none

/-- A list of texts, or a set of them. -/
def texts? : Tree → Option (List String)
  | .list items => items.mapM fun
    | .scalar s => Lenient.text? s
    | _ => none
  | .set members => members.mapM Lenient.text?
  | _ => none

/-- The settings that entries state. Unknown keys are ignored. -/
def ofEntries? (entries : List (String × Tree)) : Option Settings := do
  let usual : Settings := {}
  let nullOr (read? : Tree → Option PathName) (t : Tree) : Option (Option PathName) :=
    match t with
    | .scalar .null => some none
    | t => (read? t).map some
  return {
    description := ← stated entries descriptionKey usual.description path?
    names := ← stated entries namesKey usual.names (nullOr path?)
    output := ← stated entries outputKey usual.output path?
    format := ← stated entries formatKey usual.format fun t => t.text?.bind OutputFormat.ofText?
    formatter := ← stated entries formatterKey usual.formatter texts?
    mergeDuplicates := ← stated entries mergeKey usual.mergeDuplicates flag?
    verbose := ← stated entries verboseKey usual.verbose flag? }

/-- The entries of a file of settings. A file whose value counts as absent states nothing. -/
def readEntries (file : String) (octets : List UInt8) : Except Fault (Entries Tree) := do
  match Yaml.read (← fileText file octets) with
  | .error .malformed => throw (.settings (.unparsable file))
  | .error (.unfit m) => throw (.misfit m)
  | .ok (v, store) =>
    if !store.isTruthy v then return []
    match store.entries? v with
    | none => throw (.settings (.notMapping file))
    | some entries =>
      return entries.map fun entry => (entry.1, store.tree entry.2)

/-- The settings of a run, given the file that states them if there is one, and the command
line of the formatter. -/
def load (file : Option (String × List UInt8)) (formatter : Option String) :
    Except Fault Settings := do
  let entries ← match file with
    | none => pure []
    | some (name, octets) => readEntries name octets
  let entries ← match formatter with
    | none | some "" => pure entries
    | some line =>
      match Text.shellWords? line with
      | none => throw (.misfit .badContent)
      | some words => pure (Entries.put formatterKey (Tree.list (words.map .text)) entries)
  let named ← entries.mapM fun (key, t) =>
    match key with
    | .text name => pure (name, t)
    | _ => throw (Fault.misfit .wrongOperand)
  match ofEntries? named with
  | some settings => return settings
  | none => throw (.settings .invalid)

/-- Settings as a tree. -/
def tree (s : Settings) : Tree :=
  .ofFields [
    (descriptionKey, .text s.description.text),
    (namesKey, match s.names with
      | some path => .text path.text
      | none => .scalar .null),
    (outputKey, .text s.output.text),
    (formatKey, .text s.format.text),
    (formatterKey, .list (s.formatter.map .text)),
    (mergeKey, .scalar (.bool s.mergeDuplicates)),
    (verboseKey, .scalar (.bool s.verbose))]

end Settings

end DeviceApi
