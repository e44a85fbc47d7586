import DeviceApi.Api.Role
import DeviceApi.Document.Display

/-!
# Faults

A fault is the cause of a failure. A violation is a rule of the description format that the
document breaks, and has a message for the user. A misfit is a value that an operation cannot
be done with at all.
-/

namespace DeviceApi

/-- A rule that a description or a source of names breaks. -/
inductive Violation where
  | unparsable (file : String)
  | noPaths (file : String)
  | foreignReference (reference : String)
  | unresolvable (reference : String)
  | circular (reference : String)
  | conflictingRole (previous : Tree) (role : Role)
  | unknownRole (tag : Tree)
  | contentTypes (found : List Tree) (expected : String)
  | emptyMedia (contentType : String)
  | contentNotObject
  | missingPathParameters (id : String)
  | missingQueryParameters (id : String)
  | unexpectedQueryParameters (id : String)
  | missingRequestBody (id : String)
  | unexpectedRequestBody (id : String)
  | requestBody (id : String) (cause : Violation)
  | successResponse (id : String) (cause : Violation)
  | noSuccessResponse (method : Method) (path : String)
  | emptyResponse (code : String) (method : Method) (path : String)
  | errorResponses (method : Method) (path : String) (codes : List String)
  | parameterLocations (locations : List String) (names : Tree)
  | envelope (role : Role) (name : String) (fields : List String)
  | shortPath (path : String)
  | unknownDevice (group : String) (subPath : Tree)
  | unknownMethod (group subPath : String)
  deriving Repr

/-- The message of a violation. -/
def Violation.message : Violation → String
  | unparsable file => s!"Could not parse {file}"
  | noPaths file => s!"{file} is not an OpenAPI document (no paths)"
  | foreignReference reference => s!"Only local references are supported: {reference}"
  | unresolvable reference => s!"Unresolvable reference: {reference}"
  | circular reference => s!"Circular reference: {reference}"
  | conflictingRole previous role => s!"Conflicting x-kind: {previous.display} vs {role.text}"
  | unknownRole tag => s!"Unknown x-kind: {tag.display}"
  | contentTypes found expected =>
    s!"Unexpected content types: {(Tree.list found).display} (expected {expected})"
  | emptyMedia contentType => s!"Empty media type object for {contentType}"
  | contentNotObject => "Content is not an object"
  | missingPathParameters id => s!"Missing path parameters for {id}"
  | missingQueryParameters id => s!"Missing query parameters for {id}"
  | unexpectedQueryParameters id => s!"Unexpected query parameters for {id}"
  | missingRequestBody id => s!"Missing request body for {id}"
  | unexpectedRequestBody id => s!"Unexpected request body for {id}"
  | requestBody id cause => s!"Request body of {id}: {cause.message}"
  | successResponse id cause => s!"Successful response of {id}: {cause.message}"
  | noSuccessResponse method path => s!"Missing successful response for {method.text} {path}"
  | emptyResponse code method path => s!"Empty {code} response for {method.text} {path}"
  | errorResponses method path codes =>
    s!"Unexpected error responses for {method.text} {path}: {displayTexts codes}"
  | parameterLocations locations names =>
    s!"Unsupported parameter locations {displayTexts locations} for parameters " ++
      names.display
  | envelope role name fields =>
    s!"Missing {role.word} properties in {name}: {displayTexts fields}"
  | shortPath path => s!"Path {Text.quoted path} has no device group and sub-path"
  | unknownDevice group subPath =>
    s!"Couldn't find canonical device {Text.quoted group} (for sub-path {subPath.displayInside})"
  | unknownMethod group subPath => s!"Couldn't find canonical name for {group}::{subPath}"

/-- How a value is unfit for what is done with it. -/
inductive Misfit where
  /-- The value is of a kind that does not know the operation. -/
  | noSuchOperation
  /-- The value may not stand at this place of the operation. -/
  | wrongOperand
  /-- There is no entry under the key. -/
  | missingEntry
  /-- The value is of the right kind but its content is refused. -/
  | badContent
  /-- A text or list is too short. -/
  | outOfRange
  /-- A number is too large for what is done with it. -/
  | tooLarge
  /-- A moment lies outside of all calendars. -/
  | outOfTime
  /-- A text holds half of a character, which cannot be written. -/
  | halfCharacter
  /-- A value contains itself, or its parts lie too deep. -/
  | endless
  /-- An object gained or lost entries while they were being visited. -/
  | changedWhileVisited
  deriving DecidableEq, Repr

/-- Ways in which the settings of a run are refused. -/
inductive SettingsFault where
  | unparsable (file : String)
  | notMapping (file : String)
  | invalid
  deriving DecidableEq, Repr

/-- The message of a fault of the settings. -/
def SettingsFault.message : SettingsFault → String
  | unparsable file => s!"Invalid config file {file}"
  | notMapping file => s!"Config file {file} must contain a mapping"
  | invalid => "Invalid configuration"

/-- Ways in which a formatter command fails. -/
inductive FormatterFault where
  | noCommand
  | notStarted (command reason : String)
  | failed (commandLine : String) (exitCode : Int) (detail : String)
  deriving DecidableEq, Repr

/-- The message of a failed formatter command. -/
def FormatterFault.message : FormatterFault → String
  | noCommand => "No formatter command configured"
  | notStarted command reason => s!"Could not run {command}: {reason}"
  | failed commandLine exitCode detail =>
    s!"{commandLine} failed with exit code {exitCode}: {detail}"

/-- Ways in which a file cannot be read or written. -/
inductive FileFault where
  | notFound (path : String)
  | isDirectory (path : String)
  | notDirectory (path : String)
  | alreadyExists (path : String)
  | notText (path : String)
  deriving DecidableEq, Repr

/-- The message of a fault of a file. -/
def FileFault.message : FileFault → String
  | notFound path => s!"[Errno 2] No such file or directory: {Text.quoted path}"
  | isDirectory path => s!"[Errno 21] Is a directory: {Text.quoted path}"
  | notDirectory path => s!"[Errno 20] Not a directory: {Text.quoted path}"
  | alreadyExists path => s!"[Errno 17] File exists: {Text.quoted path}"
  | notText path => s!"{path} is not UTF-8 text"

/-- The cause of a failure. -/
inductive Fault where
  | violation (v : Violation)
  | settings (f : SettingsFault)
  | formatter (f : FormatterFault)
  | stage (message : String)
  | file (f : FileFault)
  | invalidModel
  | notJson
  | misfit (m : Misfit)
  deriving Repr

/-- The message of a failure, if it is one that a user is to read. -/
def Fault.message? : Fault → Option String
  | .violation v => some v.message
  | .settings f => some f.message
  | .formatter f => some f.message
  | .stage message => some message
  | _ => none

instance : Coe Violation Fault := ⟨.violation⟩
instance : Coe Misfit Fault := ⟨.misfit⟩

end DeviceApi
