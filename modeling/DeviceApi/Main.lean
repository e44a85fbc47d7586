import DeviceApi.CommandLine.Commands
import Std.Time.DateTime.Timestamp

/-!
# The program

The files of the machine stand in for those that the commands work on, and what a command leaves
behind is printed.
-/

namespace DeviceApi

/-- Whether a path leads to a folder. -/
def isFolder (path : String) : IO Bool := do
  try
    let place ← IO.FS.realPath path
    place.isDir
  catch _ => return false

/-- Whether a path leads anywhere. -/
def isPresent (path : String) : IO Bool := do
  try
    let place ← IO.FS.realPath path
    place.pathExists
  catch _ => return false

/-- The fault that an error of the machine is. -/
def faultOf (path : String) (error : IO.Error) : IO FileFault := do
  match error with
  | .alreadyExists .. => return .alreadyExists path
  | .noFileOrDirectory .. => return .notFound path
  | _ => if ← isFolder path then return .isDirectory path else return .notDirectory path

/-- An action on a path, with its error as a fault. -/
def attempted {α : Type} (path : String) (action : IO α) : IO (Except FileFault α) := do
  try
    return .ok (← action)
  catch error => return .error (← faultOf path error)

/-- The names in a folder in order. -/
def namesIn (path : String) : IO (List String) := do
  try
    let entries ← (← IO.FS.realPath path).readDir
    return (entries.toList.map fun entry => entry.fileName).mergeSort
  catch _ => return []

instance : Files IO where
  look path := do
    if path.isEmpty then return .missing
    else if ← isFolder path then return .folder
    else if ← isPresent path then return .file
    else return .missing
  read path := attempted path do return (← IO.FS.readBinFile path).toList
  write path octets := attempted path (IO.FS.writeBinFile path ⟨octets.toArray⟩)
  makeFolder path := attempted path (IO.FS.createDir path)
  list path := namesIn path

/-- The variable that states the command line of the formatter. -/
def formatterVariable : String := "ALPACA_CODEGEN_FORMATTER"

end DeviceApi

open DeviceApi

/-- Runs a command and prints what it leaves behind. -/
def main (args : List String) : IO UInt32 := do
  let formatter ← IO.getEnv formatterVariable
  let seconds := (← Std.Time.Timestamp.now).toSecondsSinceUnixEpoch.val
  let result ← CommandLine.outcome (m := IO) formatter args
  IO.print result.out
  IO.eprint (result.err (Log.timeText (Log.clockText seconds)) "(0.00s)")
  if result.exitCode = 2 then IO.eprintln "Usage: (normalize | names | format) [OPTIONS] [ARGS]"
  match result.broken with
  | some fault => IO.eprintln s!"Unexpected failure: {repr fault}"
  | none => pure ()
  return UInt32.ofNat result.exitCode
