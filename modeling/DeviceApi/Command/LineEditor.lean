import DeviceApi.Command.Arguments
import DeviceApi.Command.LineEditor.Machine
import DeviceApi.Command.LineEditor.ScriptReader

/-!
# Editing lines

The command `sed` runs a script on the lines of its input, or on files in their place.
-/

namespace DeviceApi.Command.LineEditor

/-- The options of the command. -/
def optionTable : OptionTable where
  letters :=
    [('n', .none), ('e', .required), ('f', .required), ('E', .none), ('r', .none), ('s', .none),
     ('i', .optional), ('l', .required), ('u', .none), ('z', .none), ('b', .none)]
  names :=
    [("quiet", 'n', .none), ("silent", 'n', .none), ("expression", 'e', .required),
     ("file", 'f', .required), ("regexp-extended", 'E', .none), ("separate", 's', .none),
     ("in-place", 'i', .optional), ("line-length", 'l', .required), ("unbuffered", 'u', .none),
     ("null-data", 'z', .none), ("zero-terminated", 'z', .none), ("binary", 'b', .none),
     ("posix", 'p', .none), ("follow-symlinks", 'F', .none), ("sandbox", 'S', .none),
     ("help", 'h', .none)]

/-- The description of the command under the name it is called by. -/
def usage (self : String) : String :=
  "Usage: " ++ self ++ " [OPTION]... \x7bscript-only-if-no-other-script\x7d [input-file]...

  -n, --quiet, --silent
                 suppress automatic printing of pattern space
      --debug
                 annotate program execution
  -e script, --expression=script
                 add the script to the commands to be executed
  -f script-file, --file=script-file
                 add the contents of script-file to the commands to be executed
  --follow-symlinks
                 follow symlinks when processing in place
  -i[SUFFIX], --in-place[=SUFFIX]
                 edit files in place (makes backup if SUFFIX supplied)
  -l N, --line-length=N
                 specify the desired line-wrap length for the `l' command
  --posix
                 disable all GNU extensions.
  -E, -r, --regexp-extended
                 use extended regular expressions in the script
                 (for portability use POSIX -E).
  -s, --separate
                 consider files as separate rather than as a single,
                 continuous long stream.
      --sandbox
                 operate in sandbox mode (disable e/r/w commands).
  -u, --unbuffered
                 load minimal amounts of data from the input files and flush
                 the output buffers more often
  -z, --null-data
                 separate lines by NUL characters
      --help     display this help and exit
      --version  output version information and exit

If no -e, --expression, -f, or --file option is given, then the first
non-option argument is taken as the sed script to interpret.  All
remaining arguments are names of input files; if no input files are
specified, then the standard input is read.
"

/-- Why the command ends early, or a file is passed over. -/
structure Complaint where
  code : Nat
  message : String
  deriving Repr

/-- The outcome of a command that only complains. -/
def Complaint.outcome (self : String) (c : Complaint) : Outcome :=
  .complains c.code (self ++ ": " ++ c.message)

/-- What the command line asks for. -/
structure Settings where
  program : Program
  /-- The number of scripts that have been given as arguments. -/
  scripts : Nat
  files : List String
  /-- Whether the input is a script. -/
  readsScript : Bool
  separate : Bool
  /-- What backups of files are called, if files are edited in place. -/
  inPlace : Option String
  deriving Repr

/-- The name of a backup of a file. Each asterisk stands for the name of the file. -/
def backupName (suffix file : String) : String :=
  if suffix.contains '*' then
    String.join (suffix.toList.map fun c => if c == '*' then file else .singleton c)
  else file ++ suffix

/-- The number at the front of a value. -/
def leadingNumber (value : String) : Nat :=
  PatternText.number ((value.toList.dropWhile (· == ' ')).takeWhile Char.isDigit)

variable {m : Type → Type} [Monad m] [Files m]

/-- The scripts among options. A dash stands for the input. -/
def scriptTexts (input : Octets) : List (Char × Option String) → m (Except Complaint (List ScriptText))
  | [] => return .ok []
  | ('e', some text) :: rest => do
    return (← scriptTexts input rest).map fun more => ({ text } : ScriptText) :: more
  | ('f', some file) :: rest => do
    match ← (if file == "-" then pure (.ok input) else Files.read file) with
    | .ok bytes =>
      let script : ScriptText := { text := textOf bytes, file }
      let input := if file == "-" then [] else input
      return (← scriptTexts input rest).map fun more => script :: more
    | .error (.isDirectory _) =>
      return .error { code := 4, message := s!"read error on {file}: Is a directory" }
    | .error f =>
      return .error { code := 4, message := s!"couldn't open file {file}: {reason f}" }
  | _ :: rest => scriptTexts input rest

/-- Whether a path stands for a stream of the command itself. -/
def isStream (path : String) : Bool := path == standardOutput || path == "/dev/stderr"

/-- Makes the files empty that a script writes to. -/
def openTargets : List String → m (Option Complaint)
  | [] => return none
  | path :: rest => do
    if isStream path || path == "/dev/null" then openTargets rest
    else
      match ← Files.write path [] with
      | .ok () => openTargets rest
      | .error f =>
        return some { code := 4, message := s!"couldn't open file {path}: {reason f}" }

/-- Reads the arguments. -/
def settings? (self : String) (args : List String) (input : Octets) : m (Except Outcome Settings) := do
  match optionTable.parse args with
  | .error f =>
    return .error (.complains 1 (self ++ ": " ++ f.message ++ "\n" ++ usage self))
  | .ok a =>
    if a.has 'h' then return .error (.writes (octets (usage self ++ "\n")))
    match ← scriptTexts input a.options with
    | .error c => return .error (c.outcome self)
    | .ok given =>
      match given, a.operands with
      | [], [] => return .error (.complains 1 (usage self))
      | given, operands =>
        let (scripts, files) : List ScriptText × List String := match given, operands with
          | [], text :: files => ([{ text }], files)
          | given, files => (given, files)
        match read (a.has 'E' || a.has 'r') scripts with
        | .error (message, targets) =>
          if let some c ← openTargets targets then return .error (c.outcome self)
          return .error (.complains 1 (self ++ ": " ++ message))
        | .ok instructions =>
          if let some c ← openTargets (instructions.filterMap Instruction.target?) then
            return .error (c.outcome self)
          if let some name := missingLabel? instructions then
            return .error (.complains 4 s!"{self}: can't find label for jump to `{name}'")
          let silenced := match scripts with
            | s :: _ => s.text.startsWith "#n"
            | [] => false
          let value (letter : Char) : Option String :=
            (a.options.filter (·.1 == letter)).getLast?.bind Prod.snd
          let program : Program :=
            { instructions := (instructions.zipIdx).map fun (i, n) => (n, i)
              quiet := a.has 'n' || silenced
              width := ((value 'l').map leadingNumber).getD 70
              delimiter := if a.has 'z' then '\x00' else '\n' }
          return .ok
            { program, scripts := argumentCount scripts, files
              readsScript := a.options.contains ('f', some "-")
              separate := a.has 's' || a.has 'i'
              inPlace := if a.has 'i' then some ((value 'i').getD "") else none }

/-- The octets of an input file. -/
def inputOf (inPlace : Bool) (input : Octets) (file : String) : m (Except Complaint Octets) := do
  if file == "-" && !inPlace then return .ok input
  match ← Files.read file with
  | .ok bytes => return .ok bytes
  | .error (.isDirectory _) =>
    return .error { code := 4, message :=
      if inPlace then s!"couldn't edit {file}: not a regular file"
      else s!"read error on {file}: Is a directory" }
  | .error f => return .error { code := 2, message := s!"can't read {file}: {reason f}" }

/-- The lines of files one after the other, with complaints about those that are not read. -/
def gather (delimiter : Char) (input : Octets) :
    List String → m (List InputLine × List Complaint)
  | [] => return ([], [])
  | file :: rest => do
    match ← inputOf false input file with
    | .ok bytes =>
      let (more, complaints) ← gather delimiter (if file == "-" then [] else input) rest
      return (linesOf delimiter file (textOf bytes).toList ++ more, complaints)
    | .error c =>
      if c.code = 4 then return ([], [c])
      let (more, complaints) ← gather delimiter input rest
      return (more, c :: complaints)

/-- The complaint about the end of a script. -/
def Ending.complaints (scripts : Nat) : Option Ending → List Complaint
  | some .noPattern =>
    [{ code := 1, message := s!"-e expression #{scripts}, char 0: no previous regular expression" }]
  | _ => []

/-- Runs a script on each file by itself. -/
def editEach (s : Settings) (input : Octets) :
    List String → Machine → m (Machine × List Complaint × Option Ending)
  | [], machine => return (machine, [], none)
  | file :: rest, machine => do
    match ← inputOf s.inPlace.isSome input file with
    | .error c =>
      if c.code = 4 then return (machine, [c], none)
      let (machine, complaints, ending) ← editEach s input rest machine
      return (machine, c :: complaints, ending)
    | .ok bytes =>
      let lines := linesOf s.program.delimiter file (textOf bytes).toList
      let machine := if s.inPlace.isSome then
          { machine with main := file, outputs := machine.outputs.filter (·.1 != file) }
        else machine
      let (ended, machine) := (s.program.run lines).run machine
      let ending := match ended with
        | .ok () => none
        | .error e => some e
      match s.inPlace with
      | some suffix =>
        if ending != some .noPattern then
          if suffix != "" then
            let _ ← Files.write (m := m) (backupName suffix file) bytes
          let text := String.ofList (machine.outputText file)
          let _ ← Files.write (m := m) file (octets text)
      | none => pure ()
      if ending.isSome then return (machine, [], ending)
      editEach s (if file == "-" && s.inPlace.isNone then [] else input) rest machine

/-- The contents of the files that a script reads. -/
def textsOf : List Instruction → m (List (String × List Char))
  | [] => return []
  | i :: rest => do
    let more ← textsOf rest
    match i.action with
    | .readFile path | .readLine path =>
      match ← Files.read path with
      | .ok bytes => return (path, (textOf bytes).toList) :: more
      | .error _ => return more
    | _ => return more

/-- Writes the files that a script writes to. -/
def closeTargets (machine : Machine) : List String → m Unit
  | [] => return
  | path :: rest => do
    if !isStream path && path != "/dev/null" then
      let _ ← Files.write (m := m) path (octets (String.ofList (machine.outputText path)))
    closeTargets machine rest

/-- Edits with given settings. -/
def edit (self : String) (s : Settings) (input : Octets) : m Outcome := do
  let script := s.program.instructions.map Prod.snd
  let targets := script.filterMap Instruction.target?
  let texts ← textsOf script
  let machine : Machine := { texts, rests := texts }
  let files := if s.files.isEmpty then ["-"] else s.files
  let (machine, complaints, ending) ←
    if s.separate then editEach s input files machine
    else do
      let (lines, complaints) ← gather s.program.delimiter input files
      let (ended, machine) := (s.program.run lines).run machine
      pure (machine, complaints, match ended with
        | .ok () => none
        | .error e => some e)
  closeTargets machine targets
  let bytes (path : String) : Octets := octets (String.ofList (machine.outputText path))
  let complaints := complaints ++ Ending.complaints s.scripts ending
  let code := match complaints.getLast?, ending with
    | some c, _ => c.code
    | none, some (.quit code) => code
    | none, _ => 0
  let lines := complaints.map fun c => (Stream.err, octets s!"{self}: {c.message}\n")
  return { code, readsInput := files.contains "-"
           written := lines ++ [(.err, bytes "/dev/stderr"), (.out, bytes standardOutput)] }

/-- Runs the command under the name it is called by. -/
def run (self : String) (args : List String) (input : Octets) : m Outcome := do
  match ← settings? self args input with
  | .error o => return o
  | .ok s =>
    if s.inPlace.isSome && s.files.isEmpty then return .complains 4 (self ++ ": no input files")
    else edit self s (if s.readsScript then [] else input)

end DeviceApi.Command.LineEditor
