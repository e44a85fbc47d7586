import DeviceApi.Text.Lines
import DeviceApi.Text.Encoding
import DeviceApi.Yaml.Reader

/-!
# Descriptions in files

A description is the YAML text of a mapping in which `paths` is a mapping. A file holds text if
its octets are UTF-8; all line ends in it count as line feeds.
-/

namespace DeviceApi

/-- The text of a file with a name. -/
def fileText (file : String) (octets : List UInt8) : Except Fault String :=
  match Text.Utf8.decode? octets with
  | some text => .ok (.ofList (Text.unifyLineEnds text.toList))
  | none => .error (.file (.notText file))

/-- The description in a file with a name. -/
def readDescription (file : String) (octets : List UInt8) : Except Fault (Value × Store) := do
  match Yaml.read (← fileText file octets) with
  | .error .malformed => throw (.violation (.unparsable file))
  | .error (.unfit m) => throw (.misfit m)
  | .ok (document, store) =>
    let paths := (store.field? document "paths").getD .null
    match store.entries? paths with
    | some _ => return (document, store)
    | none => throw (.violation (.noPaths file))

end DeviceApi
