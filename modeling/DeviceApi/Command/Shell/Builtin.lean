import DeviceApi.Command.Shell.State
import DeviceApi.Command.Tools

/-!
# Commands of the shell

The commands that a shell runs by itself, apart from those that run other commands. A command
whose arguments are refused leaves what the shell is doing; the shell decides whether it goes on.
-/

namespace DeviceApi.Command.Shell

/-- The commands of a shell that are not special. -/
def plainCommands : List String :=
  ["alias", "bg", "cd", "chdir", "command", "echo", "false", "fg", "getopts", "hash", "jobs",
   "kill", "printf", "pwd", "read", "test", "[", "true", "type", "ulimit", "umask",
   "unalias", "wait"]

namespace ShellT

variable {m : Type → Type} [Monad m] [files : Files m]

/-- The number that an argument is, or a complaint. -/
def numberOf (arg : String) : ShellT m Nat := do
  match number? arg with
  | some n => return n
  | none => fail ("Illegal number: " ++ arg)

/-- What stands in front of a complaint of a command. -/
def complaintStart (s : State) : String :=
  let command := s.commandName.getD ""
  s!"{s.name}: {s.line}: {command}"

/-- Runs `exit` or `return`. -/
def leave (flow : Nat → Flow) (args : List String) : ShellT m Unit := do
  let code ← match args with
    | [] => pure (← get).status
    | arg :: _ => numberOf arg
  setStatus (code % 256)
  throw (flow (code % 256))

/-- Runs `break` or `continue`. -/
def leaveLoops (flow : Nat → Flow) (args : List String) : ShellT m Unit := do
  let count ← match args with
    | [] => pure 1
    | arg :: _ => numberOf arg
  if count = 0 then fail ("Illegal number: " ++ args.headD "")
  setStatus 0
  let loops := (← get).loops
  if loops ≠ 0 then throw (flow (min count loops))

/-- Runs `shift`. -/
def shift (args : List String) : ShellT m Unit := do
  let count ← match args with
    | [] => pure 1
    | arg :: _ => numberOf arg
  let s ← get
  if s.args.length < count then fail "can't shift that many"
  set { s.withArgs (s.args.drop count) with status := 0 }

/-- The name and the value that an argument gives it. -/
def nameAndValue (arg : String) : ShellT m (String × Option String) := do
  let cs := arg.toList
  let name := cs.takeWhile (· != '=')
  if !(match name with
    | [] => false
    | c :: _ => !c.isDigit && name.all fun c => c.isAlphanum || c == '_') then
    fail (String.ofList name ++ ": bad variable name")
  return (String.ofList name, (cs.drop name.length).tail?.map String.ofList)

/-- Lists the variables that are marked in the name of a command. -/
def listMarked (command : String) (isMarked : Variable → Bool) : ShellT m Unit := do
  let marked := (← get).bindings.filter fun (_, v) => isMarked v
  for (name, v) in marked.mergeSort fun a b => a.1 ≤ b.1 do
    let setting := match v.value with
      | some value => "=" ++ quotedText value
      | none => ""
    write 1 s!"{command} {name}{setting}\n"
  setStatus 0

/-- Runs `export` or `readonly` with names. -/
def declare (mark : Variable → Variable) : List String → ShellT m Unit
  | [] => setStatus 0
  | arg :: rest => do
    let (name, value) ← nameAndValue arg
    match value with
    | some value => assign name value
    | none => pure ()
    modify fun s => s.bind name (mark ((s.bindings.lookup name).getD {}))
    declare mark rest

/-- Runs `export` or `readonly`. -/
def declareOrList (command : String) (isMarked : Variable → Bool) (mark : Variable → Variable)
    (args : List String) : ShellT m Unit := do
  match args with
  | [] | ["--"] => listMarked command isMarked
  | "--" :: names => declare mark names
  | arg :: _ =>
    match arg.toList with
    | '-' :: c :: _ =>
      if c == 'p' then listMarked command isMarked
      else fail ("Illegal option -" ++ String.singleton c)
    | _ => declare mark args

/-- Runs `unset`. -/
def unset (ofFunctions : Bool) : List String → ShellT m Unit
  | [] => setStatus 0
  | "-f" :: rest => unset true rest
  | "-v" :: rest => unset false rest
  | arg :: rest => do
    if ofFunctions then
      modify fun s => { s with functions := s.functions.filter (·.1 != arg) }
    else
      let (name, _) ← nameAndValue arg
      if ((← get).bindings.lookup name).any Variable.readOnly then
        fail (name ++ ": is read only")
      modify (·.unbind name)
      if name == "OPTIND" then fail "Illegal number: "
    unset ofFunctions rest

/-- Runs `local`. -/
def declareLocal : List String → ShellT m Unit
  | [] => setStatus 0
  | arg :: rest => do
    let s ← get
    match s.locals with
    | none => fail "not in a function"
    | some saved =>
      let (name, value) ← nameAndValue arg
      let saved := if saved.any (·.1 == name) then saved
        else (name, s.bindings.lookup name) :: saved
      set { s with locals := some saved }
      match value with
      | some value => assign name value
      | none => pure ()
      declareLocal rest

/-- The options with their letters. -/
def optionNames : List (String × Char) :=
  [("errexit", 'e'), ("noglob", 'f'), ("ignoreeof", 'I'), ("interactive", 'i'), ("monitor", 'm'),
   ("noexec", 'n'), ("stdin", 's'), ("xtrace", 'x'), ("verbose", 'v'), ("vi", 'V'), ("emacs", 'E'),
   ("noclobber", 'C'), ("allexport", 'a'), ("notify", 'b'), ("nounset", 'u')]

/-- The names of the options in the order in which they are listed. -/
def listedOptions : List String :=
  optionNames.map Prod.fst ++ ["privileged", "nolog", "debug"]

/-- Lists the options. -/
def listOptions : ShellT m Unit := do
  let s ← get
  let line (name : String) : String :=
    let on := (optionNames.lookup name).any s.options.contains
    let column := String.ofList (List.replicate (16 - name.length) ' ')
    name ++ column ++ (if on then "on" else "off") ++ "\n"
  write 1 ("Current option settings\n" ++ String.join (listedOptions.map line))

/-- Sets an option or takes it back. -/
def setOption (on : Bool) (letter : Char) : ShellT m Unit :=
  modify fun s =>
    let others := s.options.filter (· != letter)
    { s with options := if on then letter :: others else others }

/-- Sets the options of letters. -/
def setLetters (on : Bool) : List Char → ShellT m Unit
  | [] => return
  | letter :: rest => do
    if !State.optionLetters.contains letter then
      fail ("Illegal option -" ++ String.singleton letter)
    setOption on letter
    setLetters on rest

/-- Sets the option with a name. -/
def setNamed (on : Bool) (name : String) : ShellT m Unit := do
  match optionNames.lookup name with
  | some letter => setOption on letter
  | none => fail ("Illegal option -o " ++ name)

/-- Runs `set`. -/
def setOptions : List String → ShellT m Unit
  | [] => setStatus 0
  | "--" :: rest => modify fun s => { s.withArgs rest with status := 0 }
  | "-" :: rest =>
    modify fun s => { (if rest.isEmpty then s else s.withArgs rest) with status := 0 }
  | arg :: rest => do
    let letters? : Option (Bool × List Char) := match arg.toList with
      | '-' :: letters => some (true, letters)
      | '+' :: letters => some (false, letters)
      | _ => none
    match letters? with
    | none => modify fun s => { s.withArgs (arg :: rest) with status := 0 }
    | some (on, letters) =>
      setLetters on (letters.filter (· != 'o'))
      match letters.contains 'o', rest with
      | true, name :: rest =>
        setNamed on name
        setOptions rest
      | true, [] => listOptions
      | false, rest => setOptions rest

/-- Sets what is done about signals. -/
def setTraps (action : Option String) : List String → ShellT m Unit
  | [] => return
  | word :: rest => do
    match signal? word with
    | none =>
      write 2 s!"trap: {word}: bad trap\n"
      setStatus 1
    | some n =>
      modify fun s =>
        let others := s.traps.filter (·.1 != n)
        { s with traps := match action with
          | some text => (n, text) :: others
          | none => others }
      setTraps action rest

/-- Runs `trap`. -/
def trap : List String → ShellT m Unit
  | [] => do
    let traps := (← get).traps
    let lines := (0 :: signalNumbers).filterMap fun n =>
      (traps.lookup n).map fun action => s!"trap -- {quotedText action} {signalName n}\n"
    write 1 (String.join lines)
    setStatus 0
  | ["--"] => setStatus 0
  | args => do
    let args := if args.head? == some "--" then args.drop 1 else args
    setStatus 0
    match args with
    | [] => return
    | [word] => setTraps none [word]
    | action :: words =>
      if action == "-" then setTraps none words
      else if (number? action).isSome then setTraps none (action :: words)
      else setTraps (some action) words

/-- Runs `cd`. -/
def changeFolder (args : List String) : ShellT m Unit := do
  let args := args.filter fun a => a != "-L" && a != "-P" && a != "--"
  match args with
  | [] => setStatus 0
  | path :: _ =>
    let s ← get
    let found ← presence path
    if path == "" || path == "." then setStatus 0
    else if found == .folder then
      let folder := if path.startsWith "/" || s.folder == "" then path else s.folder ++ "/" ++ path
      set { s with folder, status := 0 }
    else fail ("can't cd to " ++ path)

/-- The first line of octets, what follows it, and whether it is ended. With escapes, a line goes
on behind a line feed that follows a backslash. -/
def inputLine (escapes : Bool) : Octets → Octets × Octets × Bool
  | [] => ([], [], false)
  | b :: rest =>
    if b == 10 then ([], rest, true)
    else
      match escapes && b == 92, rest with
      | true, c :: rest =>
        let (line, rest, ended) := inputLine escapes rest
        (92 :: c :: line, rest, ended)
      | _, rest =>
        let (line, rest, ended) := inputLine escapes rest
        (b :: line, rest, ended)

/-- The elements of a line that has been read. -/
def lineElements (escapes : Bool) : List Char → List Element
  | [] => []
  | c :: rest =>
    match escapes && c == '\\', rest with
    | true, '\n' :: rest => lineElements escapes rest
    | true, d :: rest => .char d true true :: lineElements escapes rest
    | true, [] => []
    | false, rest => .char c false true :: lineElements escapes rest

/-- Runs `read`. -/
def readLine (args : List String) : ShellT m Unit := do
  let escapes := !args.contains "-r"
  let names := args.filter fun a => a != "-r" && a != "--"
  match args.find? fun a => a.startsWith "-" && a != "-r" && a != "--" && a != "-p" with
  | some a => fail ("Illegal option " ++ (a.take 2).toString)
  | none => pure ()
  if names.isEmpty then fail "arg count"
  let bytes ← input
  let (line, rest, ended) := inputLine escapes bytes
  match (← get).streams.lookup 0 with
  | some (.buffer id) => modify (·.withContent id rest)
  | _ => pure ()
  let es := lineElements escapes (spreadOf line).toList
  let texts := Fields.share (← get).separators names.length es
  (names.zip texts).forM fun (name, text) => assign name text
  setStatus (if ended then 0 else 1)

/-- What `getopts` finds. -/
structure FoundOption where
  /-- What the name of the option is set to. -/
  letter : Char := '?'
  /-- What the argument of the option is set to, if it stays set. -/
  argument : Option String := none
  /-- What is said about it. -/
  complaint : Option String := none
  index : Nat
  offset : Option Nat := none

/-- How an option is declared: not at all, or with an argument or without. -/
def declaredOption? (letter : Char) : List Char → Option Bool
  | [] => none
  | c :: ':' :: rest => if c == letter then some true else declaredOption? letter rest
  | c :: rest => if c == letter then some false else declaredOption? letter rest

/-- The option whose letter is followed by some characters of its argument. `index` is that of
the next argument, and `read` is the number of characters read. -/
def optionOf (declared : List Char) (letter : Char) (rest : List Char) (args : List String)
    (index read : Nat) : FoundOption :=
  let isSilent := declared.head? == some ':'
  let declared := if isSilent then declared.drop 1 else declared
  let offset := some read
  match declaredOption? letter declared, rest, args[index - 1]? with
  | none, _, _ =>
    if isSilent then { argument := some (.singleton letter), index, offset }
    else { complaint := some s!"Illegal option -{letter}\n", index, offset }
  | some false, _, _ => { letter, argument := some "", index, offset }
  | some true, [], none =>
    if isSilent then { letter := ':', argument := some (.singleton letter), index }
    else { complaint := some s!"No arg for -{letter} option\n", index }
  | some true, [], some arg => { letter, argument := some arg, index := index + 1 }
  | some true, rest, _ => { letter, argument := some (String.ofList rest), index }

/-- The next option among arguments, or the index of the first argument that is none. -/
def nextOption (declared : String) (args : List String) (index : Nat) (offset : Option Nat) :
    Nat ⊕ FoundOption :=
  let inside := match offset, args[index - 2]? with
    | some read, some arg => if index ≤ 1 then [] else arg.toList.drop read
    | _, _ => []
  match inside, offset with
  | letter :: rest, some read => .inr (optionOf declared.toList letter rest args index (read + 1))
  | _, _ =>
    match (args[index - 1]?).map String.toList with
    | some ['-', '-'] => .inl (index + 1)
    | some ('-' :: letter :: rest) =>
      .inr (optionOf declared.toList letter rest args (index + 1) 2)
    | _ => .inl index

/-- Runs `getopts`. -/
def readOption (args : List String) : ShellT m Unit := do
  match args with
  | declared :: name :: given =>
    let s ← get
    let among := if given.isEmpty then s.args else given
    let (index, offset) := if among.length + 1 < s.optionIndex then (1, none)
      else (s.optionIndex, s.optionOffset)
    let keep (index : Nat) (letter : Char) (offset : Option Nat) : ShellT m Unit := do
      assign "OPTIND" (toString index)
      if !isName name.toList then fail (name ++ ": bad variable name")
      assign name (.singleton letter)
      modify fun s => { s with optionIndex := index, optionOffset := offset }
    match nextOption declared among index offset with
    | .inl index =>
      keep index '?' none
      setStatus 1
    | .inr o =>
      match o.complaint with
      | some text => write 2 text
      | none => pure ()
      match o.argument with
      | some text => assign "OPTARG" text
      | none => modify (·.unbind "OPTARG")
      keep o.index o.letter o.offset
      setStatus 0
  | _ => fail "Usage: getopts optstring var [arg...]"

/-- The place of a name in the list of names with other texts. -/
def aliasPlace (name : String) : Nat :=
  let codes := name.toList.map Char.toNat
  (codes.foldl (· + ·) (16 * codes.headD 0)) % 39

/-- Runs `alias`. -/
def declareAliases (args : List String) : ShellT m Unit := do
  let line (name text : String) : String := name ++ "=" ++ quotedText text ++ "\n"
  setStatus 0
  if args.isEmpty then
    let known := (← get).aliases.mergeSort fun a b => aliasPlace a.1 ≤ aliasPlace b.1
    write 1 (String.join (known.map fun (name, text) => line name text))
  for arg in args do
    let cs := arg.toList
    let name := cs.take 1 ++ (cs.drop 1).takeWhile (· != '=')
    let known := (← get).aliases
    match cs.drop name.length with
    | '=' :: text =>
      let name := String.ofList name
      let text := String.ofList text
      modify fun s =>
        { s with aliases :=
            if (known.lookup name).isSome then
              known.map fun a => if a.1 == name then (name, text) else a
            else known ++ [(name, text)] }
    | _ =>
      match known.lookup arg with
      | some text => write 1 (line arg text)
      | none =>
        write 2 s!"alias: {arg} not found\n"
        setStatus 1

/-- Runs `unalias`. -/
def removeAliases (args : List String) : ShellT m Unit := do
  setStatus 0
  let args := if args.head? == some "--" then args.drop 1 else args
  match args with
  | "-a" :: _ => modify fun s => { s with aliases := [] }
  | names =>
    for name in names do
      let known := (← get).aliases
      if (known.lookup name).isSome then
        modify fun s => { s with aliases := known.filter (·.1 != name) }
      else
        write 2 s!"unalias: {name} not found\n"
        setStatus 1

/-- How `kill` is used. -/
def killUsage : String :=
  "Usage: kill [-s sigspec | -signum | -sigspec] [pid | job]... or\nkill -l [exitstatus]"

/-- Sends a signal to processes. -/
def sendSignal (signal : Nat) : List String → ShellT m Unit
  | [] => return
  | target :: rest => do
    if target.startsWith "%" then fail ("No such job: " ++ target)
    let n ← numberOf target
    let s ← get
    if n = s.number || (n < s.number && 4242 ≤ n) then
      set { s with doomed := (n, signal) :: s.doomed }
    else
      complain "No such process\n"
      setStatus 1
    sendSignal signal rest

/-- Runs `kill`. -/
def kill (args : List String) : ShellT m Unit := do
  setStatus 0
  let named (word : String) : ShellT m Nat := do
    match signal? word with
    | some n => return n
    | none => fail ("invalid signal number or name: " ++ word)
  let targets (signal : Nat) (args : List String) : ShellT m Unit := do
    if args.isEmpty then fail killUsage else sendSignal signal args
  match args with
  | "-l" :: rest =>
    match rest with
    | [] => write 1 ("0\n" ++ String.join (signalNumbers.map fun n => signalName n ++ "\n"))
    | word :: _ =>
      let n ← numberOf word
      let signal := if n > 128 then n - 128 else n
      if !signalNumbers.contains signal then
        fail ("invalid signal number or exit status: " ++ word)
      write 1 (signalName signal ++ "\n")
  | "-s" :: word :: rest => targets (← named word) rest
  | "--" :: rest => targets 15 rest
  | arg :: rest =>
    match arg.toList with
    | '-' :: 's' :: name@(_ :: _) => targets (← named (String.ofList name)) rest
    | '-' :: name@(c :: _) =>
      match signal? (String.ofList name) with
      | some n => targets n (if rest.head? == some "--" then rest.drop 1 else rest)
      | none => fail ("Illegal option -" ++ String.singleton c)
    | _ => targets 15 args
  | [] => fail killUsage

/-- Runs `test`, or its form in brackets. -/
def test (args : List String) : ShellT m Unit := do
  let a ← access
  match ← (@Condition.inShell m _ a (args.map gathered) : m _) with
  | .ok yes => setStatus (if yes then 0 else 1)
  | .error message => fail (spread message)

/-- How a name is understood. -/
def describe (short : Bool) (name : String) : ShellT m Unit := do
  let s ← get
  let say (text : String) : ShellT m Unit := do
    write 1 ((if short then name else text) ++ "\n")
    setStatus 0
  if reservedWords.contains name then say (name ++ " is a shell keyword")
  else if let some text := s.aliases.lookup name then
    write 1 (if short then "alias " ++ name ++ "=" ++ quotedText text ++ "\n"
      else s!"{name} is an alias for {text}\n")
    setStatus 0
  else if (s.functions.lookup name).isSome then say (name ++ " is a shell function")
  else if specialCommands.contains name then say (name ++ " is a special shell builtin")
  else if plainCommands.contains name then say (name ++ " is a shell builtin")
  else if isTool (bareName name) then
    let path := if name.contains '/' then name else "/usr/bin/" ++ name
    write 1 ((if short then path else s!"{name} is {path}") ++ "\n")
    setStatus 0
  else
    if !short then write 1 (name ++ ": not found\n")
    setStatus 127

/-- Runs a command of the shell, unless it is one that runs other commands. -/
def builtin? (name : String) (args : List String) : Option (ShellT m Unit) :=
  match name with
  | ":" | "true" => some (setStatus 0)
  | "false" => some (setStatus 1)
  | "echo" => some do
    if ((← get).streams.lookup 1).isNone then
      complain "echo: I/O error"
      setStatus 1
    else absorb (Printing.echo (args.map gathered))
  | "printf" => some do
    absorb (Printing.inShell (gathered (complaintStart (← get))) (args.map gathered))
  | "test" => some (test args)
  | "[" => some do
    if args.getLast? == some "]" then test args.dropLast else fail "missing ]"
  | "exit" => some (leave .exits args)
  | "return" => some (leave (fun _ => .returns) args)
  | "break" => some (leaveLoops .breaks args)
  | "continue" => some (leaveLoops .continues args)
  | "shift" => some (shift args)
  | "export" =>
    some (declareOrList name Variable.exported (fun v => { v with exported := true }) args)
  | "readonly" =>
    some (declareOrList name Variable.readOnly (fun v => { v with readOnly := true }) args)
  | "unset" => some (unset false args)
  | "local" => some (declareLocal args)
  | "set" => some do
    setStatus 0
    setOptions args
  | "trap" => some (trap args)
  | "cd" | "chdir" => some (changeFolder args)
  | "pwd" => some do
    write 1 ((← get).folder ++ "\n")
    setStatus 0
  | "read" => some (readLine args)
  | "kill" => some (kill args)
  | "umask" => some do
    if args.isEmpty then write 1 "0022\n"
    setStatus 0
  | "ulimit" => some do
    write 1 "unlimited\n"
    setStatus 0
  | "type" => some (args.forM (describe false))
  | "wait" => some (setStatus (if args.isEmpty then 0 else 127))
  | "bg" | "fg" => some (fail "No current job")
  | "alias" => some (declareAliases args)
  | "unalias" => some (removeAliases args)
  | "getopts" => some (readOption args)
  | "hash" | "jobs" | "times" => some (setStatus 0)
  | _ => none

end ShellT

end DeviceApi.Command.Shell
