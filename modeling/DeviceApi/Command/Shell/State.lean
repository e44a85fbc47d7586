import DeviceApi.Command.Outcome
import DeviceApi.Command.Shell.Fields
import DeviceApi.Command.Shell.Script

/-!
# The signals and the state of a shell
-/

namespace DeviceApi.Command.Shell

/-! ## Signals -/

/-- Signals with their numbers. -/
def signals : List (String × Nat) :=
  [("EXIT", 0), ("HUP", 1), ("INT", 2), ("QUIT", 3), ("ILL", 4), ("TRAP", 5), ("ABRT", 6),
   ("BUS", 7), ("FPE", 8), ("KILL", 9), ("USR1", 10), ("SEGV", 11), ("USR2", 12), ("PIPE", 13),
   ("ALRM", 14), ("TERM", 15), ("CHLD", 17), ("CONT", 18), ("STOP", 19), ("TSTP", 20), ("TTIN", 21),
   ("TTOU", 22), ("URG", 23), ("XCPU", 24), ("XFSZ", 25), ("VTALRM", 26), ("PROF", 27),
   ("WINCH", 28), ("IO", 29), ("PWR", 30), ("SYS", 31)]

/-- The name of a signal. -/
def signalName (n : Nat) : String :=
  match signals.find? fun s => s.2 == n with
  | some (name, _) => name
  | none =>
    if n = 34 then "RTMIN"
    else if 34 < n && n < 50 then "RTMIN+" ++ toString (n - 34)
    else if 50 ≤ n && n < 64 then "RTMAX-" ++ toString (64 - n)
    else if n = 64 then "RTMAX"
    else toString n

/-- The numbers of all signals. -/
def signalNumbers : List Nat := (List.range 64).map (· + 1)

/-- The number that a text is. -/
def number? (text : String) : Option Nat :=
  if text != "" && text.toList.all Char.isDigit then
    some (text.toList.foldl (fun n d => 10 * n + (d.toNat - '0'.toNat)) 0)
  else none

/-- The signal that a word names. -/
def signal? (word : String) : Option Nat :=
  match number? word with
  | some n => if n ≤ 64 then some n else none
  | none =>
    let name := String.ofList (word.toList.map Char.toUpper)
    (0 :: signalNumbers).find? fun n => signalName n == name

/-- Whether a signal does nothing unless something is to be done about it. -/
def isIgnored (signal : Nat) : Bool := [0, 17, 18, 23, 28].contains signal

/-- What is said about a command that a signal has ended. -/
def signalMessage (signal : Nat) : Option String :=
  match signal with
  | 1 => some "Hangup"
  | 2 => none
  | 3 => some "Quit"
  | 4 => some "Illegal instruction"
  | 5 => some "Trace/breakpoint trap"
  | 6 => some "Aborted"
  | 7 => some "Bus error"
  | 8 => some "Floating point exception"
  | 9 => some "Killed"
  | 10 => some "User defined signal 1"
  | 11 => some "Segmentation fault"
  | 12 => some "User defined signal 2"
  | 13 => none
  | 14 => some "Alarm clock"
  | 15 => some "Terminated"
  | 16 => some "Stack fault"
  | 24 => some "CPU time limit exceeded"
  | 25 => some "File size limit exceeded"
  | 26 => some "Virtual timer expired"
  | 27 => some "Profiling timer expired"
  | 29 => some "I/O possible"
  | 30 => some "Power failure"
  | 31 => some "Bad system call"
  | n => if 34 ≤ n && n ≤ 64 then some s!"Real-time signal {n - 34}" else some s!"Unknown signal {n}"

/-!
## The state of a shell

A shell has parameters, streams and settings. Its streams lead to buffers, which it shares with
the shells that it starts, or to files. It takes texts apart by octets: each character of a text
of the shell stands for one octet.
-/

/-- A variable of a shell. It may be exported or read-only before it has a value. -/
structure Variable where
  value : Option String := none
  exported : Bool := false
  readOnly : Bool := false
  deriving Repr

/-- The variables that a shell begins with. -/
def initialBindings : List (String × Variable) :=
  [("HOME", "/root"), ("OPTIND", "1"), ("PS1", "# "), ("PS2", "> "), ("PS4", "+ ")].map fun (name, value) =>
    (name, { value := some value })

/-- Where a stream leads. -/
inductive Endpoint where
  | buffer (id : Nat)
  | file (path : String)
  | nowhere
  deriving DecidableEq, Repr

/-- A shell. -/
structure State where
  name : String
  args : List String := []
  /-- The number of the process. -/
  number : Nat
  /-- Whether the process is the shell itself, not a copy that it has started. -/
  isMain : Bool := true
  status : Nat := 0
  /-- The status of the last substitution in the present command. -/
  outputStatus : Nat := 0
  line : Nat := 1
  /-- The command of the shell that is being run. -/
  commandName : Option String := none
  bindings : List (String × Variable) := initialBindings
  functions : List (String × Script) := []
  /-- The texts that names stand for at the front of a command, the earliest first. -/
  aliases : List (String × String) := []
  /-- The argument that `getopts` looks at next. -/
  optionIndex : Nat := 1
  /-- How many characters of the argument in front of that one it has passed over, if there are
  more. -/
  optionOffset : Option Nat := none
  /-- The variables to be restored at the end of a function, inside of one. -/
  locals : Option (List (String × Option Variable)) := none
  loops : Nat := 0
  streams : List (Nat × Endpoint) := [(0, .buffer 0), (1, .buffer 1), (2, .buffer 2)]
  buffers : List (Nat × Octets) := []
  nextBuffer : Nat := 3
  /-- The letters of the options that are set. -/
  options : List Char := []
  traps : List (Nat × String) := []
  folder : String := ""
  /-- The processes that a signal has been sent to, with the signal. -/
  doomed : List (Nat × Nat) := []

namespace State

/-- The value of a variable. -/
def valueOf? (s : State) (name : String) : Option String :=
  (s.bindings.lookup name).bind Variable.value

/-- A word with the home folder in place of its sign. -/
def atHome (s : State) (isList : Bool) (w : Word) : Word :=
  match s.valueOf? "HOME" with
  | some home => expandHome home isList w
  | none => w

/-- The characters that separate fields. -/
def separators (s : State) : List Char := ((s.valueOf? "IFS").getD " \t\n").toList

/-- What stands between parameters that are joined. -/
def joint (s : State) : String :=
  match s.separators with
  | c :: _ => .singleton c
  | [] => if (s.valueOf? "IFS").isNone then " " else ""

/-- The letters of options in the order in which they are shown. -/
def optionLetters : List Char := "efIimnsxvVECabu".toList

/-- The value of a parameter. -/
def parameter? (s : State) (name : String) : Option String :=
  match name with
  | "#" => some (toString s.args.length)
  | "?" => some (toString s.status)
  | "$" => some (toString s.number)
  | "!" => none
  | "-" => some (String.ofList (optionLetters.filter s.options.contains))
  | "@" | "*" => if s.args.isEmpty then none else some (s.joint.intercalate s.args)
  | name =>
    match number? name with
    | some 0 => some s.name
    | some n => s.args[n - 1]?
    | none => s.valueOf? name

/-- The shell with another binding of a name. -/
def bind (s : State) (name : String) (v : Variable) : State :=
  { s with bindings := (name, v) :: s.bindings.filter (·.1 != name) }

/-- The shell without a variable. -/
def unbind (s : State) (name : String) : State :=
  { s with bindings := s.bindings.filter (·.1 != name) }

/-- The shell with its variables as they were saved. -/
def restore (s : State) (saved : List (String × Option Variable)) : State :=
  saved.foldl (fun s (name, v) =>
    let s := match v with
      | some v => s.bind name v
      | none => s.unbind name
    if name == "OPTIND" then
      { s with optionIndex := max (((s.valueOf? name).bind number?).getD 1) 1, optionOffset := none }
    else s) s

/-- The shell with other arguments. -/
def withArgs (s : State) (args : List String) : State :=
  { s with args, optionIndex := 1, optionOffset := none }

/-- The shell with a stream that leads elsewhere, or that is closed. -/
def lead (s : State) (stream : Nat) (e : Option Endpoint) : State :=
  let others := s.streams.filter (·.1 != stream)
  { s with streams := match e with
    | some e => (stream, e) :: others
    | none => others }

/-- What is in a buffer. -/
def content (s : State) (id : Nat) : Octets := (s.buffers.lookup id).getD []

/-- The shell with another content of a buffer. -/
def withContent (s : State) (id : Nat) (bytes : Octets) : State :=
  { s with buffers := (id, bytes) :: s.buffers.filter (·.1 != id) }

/-- The shell with a new buffer, and the buffer. -/
def newBuffer (s : State) (bytes : Octets) : Nat × State :=
  (s.nextBuffer, { (s.withContent s.nextBuffer bytes) with nextBuffer := s.nextBuffer + 1 })

/-- What a shell of which a copy is started shares with it. -/
def share (outside inside : State) : State :=
  { outside with
    buffers := inside.buffers, nextBuffer := inside.nextBuffer, doomed := inside.doomed }

end State

/-- How a shell leaves what it is doing. -/
inductive Flow where
  | breaks (loops : Nat)
  | continues (loops : Nat)
  | returns
  | exits (code : Nat)
  /-- A fault, about which there has been a complaint. -/
  | fails
  | dies (process signal : Nat)
  deriving DecidableEq, Repr

/-- A computation of a shell. -/
abbrev ShellT (m : Type → Type) := ExceptT Flow (StateT State m)

namespace ShellT

variable {m : Type → Type} [Monad m] {α : Type}

/-- Keeps the status of a command. -/
def setStatus (status : Nat) : ShellT m Unit := modify fun s => { s with status }

/-- Runs a computation and answers how it was left, if it was. -/
def flowOf (body : ShellT m Unit) : ShellT m (Option Flow) := do
  try
    body
    return none
  catch f => return some f

variable [files : Files m]

/-- Files as the shell sees them. -/
def access : ShellT m (Files m) := do
  let s ← get
  let input := match s.streams.lookup 0 with
    | some (.buffer id) => s.content id
    | _ => []
  return surroundings files (gathered s.folder) input

/-- Reads a file. -/
def readFile (path : String) : ShellT m (Except FileFault Octets) := do
  let a ← access
  (a.read (gathered path) : m _)

/-- Writes a file. -/
def writeFile (path : String) (bytes : Octets) : ShellT m (Except FileFault Unit) := do
  let a ← access
  (a.write (gathered path) bytes : m _)

/-- What stands at a path. -/
def presence (path : String) : ShellT m Presence := do
  let a ← access
  (a.look (gathered path) : m _)

/-- The names in a folder. -/
def namesIn (folder : String) : ShellT m (List String) := do
  let a ← access
  let names : List String ← (a.list (gathered folder) : m _)
  return names.map spread

/-- Writes octets where a stream leads. The answer is whether it leads anywhere. -/
def put (stream : Nat) (bytes : Octets) : ShellT m Bool := do
  let s ← get
  match s.streams.lookup stream with
  | some (.buffer id) =>
    set (s.withContent id (s.content id ++ bytes))
    return true
  | some (.file path) =>
    if !bytes.isEmpty then
      let known := match ← readFile path with
        | .ok known => known
        | .error _ => []
      let _ ← writeFile path (known ++ bytes)
    return true
  | some .nowhere => return true
  | none => return false

/-- Writes a text without regard to where it leads. -/
def write (stream : Nat) (text : String) : ShellT m Unit := do
  let _ ← put stream (spreadOctets text)

/-- Complains in the name of the shell. -/
def complain (message : String) : ShellT m Unit := do
  let s ← get
  let command := match s.commandName with
    | some name => name ++ ": "
    | none => ""
  write 2 s!"{s.name}: {s.line}: {command}{message}\n"

/-- Complains and leaves what the shell is doing. -/
def fail (message : String) : ShellT m α := do
  complain message
  throw .fails

/-- Writes what a command has written, and keeps its status. -/
def absorb (o : Outcome) : ShellT m Unit := do
  o.written.forM fun (stream, bytes) => do
    let _ ← put (if stream = .out then 1 else 2) bytes
  if o.readsInput then
    let s ← get
    match s.streams.lookup 0 with
    | some (.buffer id) => set (s.withContent id [])
    | _ => pure ()
  setStatus o.code.natAbs

/-- What can be read from the input. -/
def input : ShellT m Octets := do
  let s ← get
  match s.streams.lookup 0 with
  | some (.buffer id) => return s.content id
  | some (.file path) =>
    match ← readFile path with
    | .ok bytes => return bytes
    | .error _ => return []
  | _ => return []

/-- Gives a variable a value. -/
def assign (name value : String) : ShellT m Unit := do
  let s ← get
  let v := (s.bindings.lookup name).getD {}
  if v.readOnly then fail (name ++ ": is read only")
  let exported := v.exported || s.options.contains 'a'
  set (s.bind name { v with value := some value, exported })
  if name == "OPTIND" then
    match number? value with
    | some n => modify fun s => { s with optionIndex := max n 1, optionOffset := none }
    | none => fail ("Illegal number: " ++ value)

/-! ## Redirections -/

/-- Why a file is not made. -/
def creationFault : FileFault → String
  | .isDirectory _ => "Is a directory"
  | .notDirectory _ => "Not a directory"
  | _ => "Directory nonexistent"

/-- Why a file is not opened. -/
def openingFault : FileFault → String
  | .notFound _ => "No such file"
  | f => reason f

/-- Lets a stream lead to a file that is written. -/
def leadToFile (stream : Nat) (path : String) (keeps : Bool) : ShellT m Unit := do
  let current (stream : Nat) : ShellT m (Option Endpoint) :=
    return (← get).streams.lookup stream
  if path == nullPath then modify (·.lead stream (some .nowhere))
  else if path == "/dev/stdout" then
    let e ← current 1
    modify (·.lead stream e)
  else if path == "/dev/stderr" then
    let e ← current 2
    modify (·.lead stream e)
  else
    let known ← if keeps then readFile path else pure (.ok [])
    let content := match known with
      | .ok bytes => bytes
      | .error _ => []
    match ← writeFile path content with
    | .ok () => modify (·.lead stream (some (.file path)))
    | .error f => fail s!"cannot create {path}: {creationFault f}"

/-- Lets a stream come from octets. -/
def leadFrom (stream : Nat) (bytes : Octets) : ShellT m Unit :=
  modify fun s =>
    let (id, s) := s.newBuffer bytes
    s.lead stream (some (.buffer id))

/-- Opens what a redirection leads to. -/
def redirect (stream : Nat) (kind : RedirectionKind) (target : String) : ShellT m Unit := do
  match kind with
  | .document => leadFrom stream (spreadOctets target)
  | .read =>
    if target == nullPath then modify (·.lead stream (some .nowhere))
    else if target == inputPath then
      let e := (← get).streams.lookup 0
      modify (·.lead stream e)
    else
      match ← readFile target with
      | .ok bytes => leadFrom stream bytes
      | .error (.isDirectory _) => modify (·.lead stream (some (.file target)))
      | .error f => fail s!"cannot open {target}: {openingFault f}"
  | .copy =>
    if target == "-" then modify (·.lead stream none)
    else
      let s ← get
      match (number? target).bind fun n => s.streams.lookup n with
      | some e => modify (·.lead stream (some e))
      | none => fail s!"{target}: Bad file descriptor"
  | .write => leadToFile stream target false
  | .append | .readWrite => leadToFile stream target true

end ShellT

end DeviceApi.Command.Shell
