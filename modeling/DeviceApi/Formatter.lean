import DeviceApi.Command.Shell.Run
import DeviceApi.Text.Lines

/-!
# Formatters

A formatter is a command that gives a source its final form. It has failed if its code is not
zero or if it complains.
-/

namespace DeviceApi

namespace FormatterFault

/-- Why a command without a file of its own is not started. -/
def missingReason (name : String) : String := (FileFault.notFound name).message

/-- Why a command whose file is no program is not started. -/
def deniedReason (name : String) : String := "[Errno 13] Permission denied: " ++ Text.quoted name

end FormatterFault

namespace Formatter

open Command

variable {m : Type → Type} [Monad m] [Files m]

/-- Why a name starts no command. Names without a slash are searched for, and those that end
as a folder lead to folders. -/
def refusal (name : String) : m FormatterFault := do
  let denied := FormatterFault.notStarted name (FormatterFault.deniedReason name)
  let missing := FormatterFault.notStarted name (FormatterFault.missingReason name)
  if name == "" || name == "." || name == ".." then return denied
  else if name.contains '/' then
    return if (← (surroundings inferInstance "" []).look name) == .missing then missing else denied
  else return missing

/-- Runs a command on an input. -/
def start (name : String) (args : List String) (input : Octets) : m (Except Fault Outcome) := do
  let isHalf (c : Char) : Bool := Text.isHalfChar c && !isKeptOctet c
  if let some word := (name :: args).find? fun word => word.any fun c => isHalf c || c == '\x00' then
    return .error (.misfit (if name.any isHalf || word.any isHalf then .halfCharacter
      else .badContent))
  let bare := bareName name
  if bare == "sh" || bare == "dash" then return .ok (← shell name args input)
  match @tool? m _ (surroundings inferInstance "" input) name args input with
  | some run => return .ok (← run)
  | none => return .error (.formatter (← refusal name))

/-- The greatest number of characters of a complaint in a message. -/
def detailLength : Nat := 500

/-- The text that a command has written, or why it has failed. -/
def written (words : List String) (o : Outcome) : Except Fault String := do
  let out ← match Text.Utf8.decode? (o.on .out) with
    | some text => pure (Text.unifyLineEnds text.toList)
    | none => throw (.file (.notText "output"))
  let err ← match Text.Utf8.decode? (o.on .err) with
    | some text => pure (Text.unifyLineEnds text.toList)
    | none => throw (.file (.notText "output"))
  let complaint := Text.trim err
  if o.code = 0 ∧ complaint.isEmpty then return String.ofList out
  else
    let detail := if complaint.isEmpty then Text.trim out else complaint
    throw (.formatter (.failed (" ".intercalate words) o.code
      (String.ofList (detail.take detailLength))))

/-- Runs the command of a formatter on a text. -/
def run (words : List String) (text : String) : m (Except Fault String) := do
  match words with
  | [] => return .error (.formatter .noCommand)
  | name :: args =>
    match ← start name args (octets text) with
    | .error f => return .error f
    | .ok o =>
      if text.any Text.isHalfChar then return .error (.misfit .halfCharacter)
      else return written words o

/-- A source text in its final form. -/
def formatText (words : List String) (text : String) : m (Except Fault String) := run words text

/-- Brings a file into its final form. Its path is the last word of the command. -/
def formatFile (words : List String) (path : String) : m (Except Fault Unit) := do
  match ← run (words ++ [path]) "" with
  | .ok _ => return .ok ()
  | .error f => return .error f

end Formatter

end DeviceApi
