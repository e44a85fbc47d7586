import DeviceApi.Json.Writer
import DeviceApi.Normalization
import DeviceApi.Yaml.Writer

/-!
# Output files

A normalized description is written as JSON or as YAML, together with the references that have
been replaced.
-/

namespace DeviceApi

/-- The formats of output files. -/
inductive OutputFormat where
  | json | yaml
  deriving DecidableEq, Repr

namespace OutputFormat

/-- The name of a format. -/
def text : OutputFormat → String
  | .json => "json"
  | .yaml => "yaml"

/-- The format with a name. -/
def ofText? (s : String) : Option OutputFormat := [json, yaml].find? fun f => f.text == s

end OutputFormat

/-- The text of a normalized description in an output file. -/
def Normalized.render (result : Normalized) (format : OutputFormat) : Edit String := do
  let payload ← result.payload
  match format with
  | .yaml => Edit.ofExcept (Yaml.write (← get) payload)
  | .json =>
    match Json.write Json.block (← Edit.treeOf payload) with
    | .ok text => return text ++ "\n"
    | .error m => Edit.misfit m

end DeviceApi
