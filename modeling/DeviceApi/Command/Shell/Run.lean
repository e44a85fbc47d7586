import DeviceApi.Command.Shell.Arithmetic
import DeviceApi.Command.Shell.Builtin
import DeviceApi.Command.Shell.Reader

/-!
# Running scripts

Parts of words are replaced, what comes of them is split into fields, and the first field names
the command that is run. Commands that are joined by pipes are run one after the other; each gets
all that the one in front has written.
-/

namespace DeviceApi.Command.Shell

namespace ShellT

variable {m : Type → Type} [Monad m]

/-! ## Copies of the shell -/

/-- The signals that have been sent to the process, which are then forgotten. -/
def takeSignals : ShellT m (List Nat) := do
  let s ← get
  if !s.isMain then return []
  let (own, others) := s.doomed.partition fun d => d.1 = s.number
  if !own.isEmpty then set { s with doomed := others }
  return (own.map Prod.snd).reverse

/-- Runs a computation in a copy of the shell and answers its status. -/
def apart (body : ShellT m Unit) : ShellT m Nat := do
  let outside ← get
  set { outside with isMain := false, traps := [], loops := 0 }
  let flow ← flowOf body
  let inside ← get
  set (outside.share inside)
  match flow with
  | some (.exits code) => return code
  | some .fails => return 2
  | some (.dies number signal) => throw (.dies number signal)
  | _ => return inside.status

/-- What a computation writes in a copy of the shell, and its status. -/
def captured (body : ShellT m Unit) : ShellT m (Octets × Nat) := do
  let (id, s) := (← get).newBuffer []
  set s
  let status ← apart do
    modify (·.lead 1 (some (.buffer id)))
    body
  return ((← get).content id, status)

/-- The text of octets without line feeds at its end. -/
def withoutLastBreaks (bytes : Octets) : List Char :=
  ((spreadOf bytes).toList.filter (· != '\x00')).reverse.dropWhile (· == '\n') |>.reverse

variable [files : Files m]

/-! ## Paths -/

/-- The names in a folder that a pattern matches. Hidden names are only matched by patterns that
begin with a dot. -/
def matchingNames (folder : String) (pattern : List Wildcard.Marked) : ShellT m (List String) := do
  let names ← namesIn (if folder == "" then "." else folder)
  let p := Wildcard.ofText pattern
  let hidden := pattern.head?.any fun c => c.1 == '.'
  return ((if hidden then [".", ".."] else []) ++ names).filter fun name =>
    (hidden || !name.startsWith ".") && Wildcard.holds p name.toList

/-- The paths that lead from folders by patterns. -/
def pathsFrom (bases : List String) : List (List Wildcard.Marked) → ShellT m (List String)
  | [] => return bases
  | pattern :: rest => do
    let plain := String.ofList (pattern.map Prod.fst)
    let here ← bases.mapM fun base => do
      let names ← if Wildcard.occursIn pattern then matchingNames base pattern else pure [plain]
      return names.map (base ++ ·)
    let paths := here.flatten
    if rest.isEmpty then return paths
    else pathsFrom (paths.map (· ++ "/")) rest

/-- The components of a path. -/
def components (cs : List Wildcard.Marked) : List (List Wildcard.Marked) :=
  cs.foldr
    (fun c parts =>
      match c.1 == '/', parts with
      | true, parts => [] :: parts
      | false, part :: more => (c :: part) :: more
      | false, [] => [[c]]) [[]]

/-- The texts that a field stands for: the paths that it matches, or else itself. -/
def pathsOf (field : List Wildcard.Marked) : ShellT m (List String) := do
  let plain := String.ofList (field.map Prod.fst)
  if (← get).options.contains 'f' || !Wildcard.occursIn field || plain.startsWith "/" then
    return [plain]
  let paths ← pathsFrom [""] (components field)
  let present ← paths.filterM fun path => return (← presence path) != .missing
  return if present.isEmpty then [plain] else present

/-! ## Words and commands -/

/-- Takes back the streams that a computation has led elsewhere. -/
def withStreams (body : ShellT m Unit) : ShellT m Unit := do
  let streams := (← get).streams
  let flow ← flowOf body
  modify fun s => { s with streams }
  match flow with
  | some f => throw f
  | none => return

/-- Opens what redirections lead to. The answer is whether there was no fault. -/
def redirectAll (rs : List (Nat × RedirectionKind × String)) : ShellT m Bool := do
  match ← flowOf (rs.forM fun (stream, kind, target) => redirect stream kind target) with
  | none => return true
  | some .fails => return false
  | some f => throw f

/-- Runs a computation under the name of a command. -/
def named (name : String) (body : ShellT m Unit) : ShellT m Unit := do
  let before := (← get).commandName
  modify fun s => { s with commandName := some name }
  let flow ← flowOf body
  modify fun s => { s with commandName := before }
  match flow with
  | some f => throw f
  | none => return

/-- Runs a computation, at the end of which variables become again what they were. -/
def restoring (names : List String) (body : ShellT m Unit) : ShellT m Unit := do
  let s ← get
  let saved := names.map fun name => (name, s.bindings.lookup name)
  let flow ← flowOf body
  modify (·.restore saved)
  match flow with
  | some f => throw f
  | none => return

/-- Shows a command before it is run, if that is asked for, in place of a stream. -/
def trace (place : Option Endpoint) (settings : List (String × String)) (words : List String) :
    ShellT m Unit := do
  let s ← get
  if s.options.contains 'x' then
    let all := settings.map (fun (name, value) => name ++ "=" ++ value) ++ words
    set (s.lead 2 place)
    write 2 ((s.valueOf? "PS4").getD "" ++ " ".intercalate all ++ "\n")
    modify (·.lead 2 (s.streams.lookup 2))

/-- Leaves the shell if a command has failed and that is asked for. -/
def checkFailure (tested : Bool) : ShellT m Unit := do
  let s ← get
  if s.status ≠ 0 && !tested && s.options.contains 'e' then throw (.exits s.status)

/-- The complaint about a missing value. -/
def demanded (name : String) (emptyToo : Bool) (message : String) : ShellT m Unit :=
  if message == "" then
    fail (name ++ ": parameter not set" ++ (if emptyToo then " or null" else ""))
  else fail (name ++ ": " ++ message)

/-- Goes through a loop once, and tells whether the loop goes on. -/
def once (body : ShellT m Unit) : ShellT m Bool := do
  modify fun s => { s with loops := s.loops + 1 }
  let flow ← flowOf body
  modify fun s => { s with loops := s.loops - 1 }
  match flow with
  | none | some (.continues 1) => return true
  | some (.breaks 1) => return false
  | some (.breaks n) => throw (.breaks (n - 1))
  | some (.continues n) => throw (.continues (n - 1))
  | some f => throw f

/-- Where a shell takes its script from, unless that is a file. -/
structure ScriptSource where
  isArgument : Bool := false
  isInput : Bool := false
  deriving DecidableEq, Repr

mutual

/-- The elements that a word stands for. `splits` tells whether unquoted text in it is split. -/
def elements : (fuel : Nat) → (splits : Bool) → Word → ShellT m (List Element)
  | 0, _, _ => fail "out of stack space"
  | _, _, [] => return []
  | fuel + 1, splits, part :: rest => do
    let here ← partElements fuel splits part
    return here ++ (← elements fuel splits rest)

/-- The elements that a part of a word stands for. -/
def partElements : (fuel : Nat) → (splits : Bool) → WordPart → ShellT m (List Element)
  | 0, _, _ => fail "out of stack space"
  | fuel + 1, splits, part => do
    match part with
    | .text cs quoted => return Element.ofText quoted splits cs
    | .quotes inside =>
      let es ← elements fuel splits inside
      let isEmptyList := (← get).args.isEmpty && inside matches [.parameter "@" .value _ _ _]
      return if isEmptyList then [] else .presence :: es
    | .output script quoted =>
      let (bytes, status) ← captured do
        match script with
        | some s => runScript fuel false s
        | none => setStatus 0
      modify fun s => { s with outputStatus := status }
      answerSignals fuel
      return Element.ofText quoted true (withoutLastBreaks bytes)
    | .arithmetic expression quoted =>
      let text := Element.text (← elements fuel false expression)
      let s ← get
      match Arithmetic.evaluate s.valueOf? text with
      | .ok (value, assigned) =>
        assigned.forM fun (name, value) => assign name (toString value)
        return Element.ofText quoted true (toString value).toList
      | .error f => fail (f.message text)
    | .parameter name use emptyToo word quoted =>
      let s ← get
      let value := s.parameter? name
      let isList := name == "@" || (name == "*" && !quoted)
      let missing := value.isNone || (emptyToo && value == some "")
      let shown : List Element :=
        if isList then Element.ofTexts quoted true s.args
        else Element.ofText quoted true (value.getD "").toList
      match use with
      | .value =>
        if value.isNone && s.options.contains 'u' && name != "@" && name != "*" && name != "!" then
          fail (name ++ ": parameter not set")
        return shown
      | .length =>
        if value.isNone && s.options.contains 'u' then fail (name ++ ": parameter not set")
        return Element.ofText quoted true (toString (value.getD "").length).toList
      | .default =>
        if missing then elements fuel true (if quoted then word else s.atHome false word)
        else return shown
      | .assign =>
        if !missing then return shown
        let es ← elements fuel true (if quoted then word else s.atHome true word)
        if (number? name).isSome || name.toList.any (!isNameChar ·) then
          fail (name ++ ": bad variable name")
        assign name (Element.text es)
        return Element.ofText quoted true (Element.text es).toList
      | .demand =>
        if !missing then return shown
        let es ← elements fuel false word
        demanded name emptyToo (Element.text es)
        return []
      | .replace =>
        if missing then return []
        else elements fuel true (if quoted then word else s.atHome false word)
      | .cutStart longest =>
        let p := Wildcard.ofText (Element.marked [' '] (← elements fuel false word))
        return Element.ofText quoted true (Wildcard.cutStart longest p (value.getD "").toList)
      | .cutEnd longest =>
        let p := Wildcard.ofText (Element.marked [' '] (← elements fuel false word))
        return Element.ofText quoted true (Wildcard.cutEnd longest p (value.getD "").toList)
      | .unknown => fail "Bad substitution"

/-- The single text that a word stands for, which may be a list of paths. -/
def single : (fuel : Nat) → (isList : Bool) → Word → ShellT m String
  | 0, _, _ => fail "out of stack space"
  | fuel + 1, isList, w => do
    let es ← elements fuel false ((← get).atHome isList w)
    return Element.text es

/-- The fields that words stand for. -/
def fieldsOf : (fuel : Nat) → List Word → ShellT m (List String)
  | 0, _ => fail "out of stack space"
  | _, [] => return []
  | fuel + 1, w :: rest => do
    let es ← elements fuel false ((← get).atHome false w)
    let fields := Fields.ofElements (← get).separators es
    let here ← fields.mapM pathsOf
    return here.flatten ++ (← fieldsOf fuel rest)

/-- The fields that the words of a command stand for behind those that are known. -/
def commandFields : (fuel : Nat) → (known : List String) → List Word → ShellT m (List String)
  | 0, _, _ => fail "out of stack space"
  | _, known, [] => return known
  | fuel + 1, known, w :: rest => do
    let s ← get
    let declares := declaresNames known && !known.any fun name => (s.functions.lookup name).isSome
    let here ← match if declares then setting? w else none with
      | some (name, value) => do pure [name ++ "=" ++ (← single fuel true value)]
      | none => fieldsOf fuel [w]
    commandFields fuel (known ++ here) rest

/-- Makes settings one after the other, each of which is known to those behind it. -/
def makeSettings : (fuel : Nat) → (exported : Bool) → List (String × Word) →
    ShellT m (List (String × String))
  | 0, _, _ => fail "out of stack space"
  | _, _, [] => return []
  | fuel + 1, exported, (name, w) :: rest => do
    let value ← single fuel true w
    assign name value
    if exported then
      modify fun s => s.bind name { ((s.bindings.lookup name).getD {}) with exported := true }
    return (name, value) :: (← makeSettings fuel exported rest)

/-- The targets of redirections. -/
def targetsOf : (fuel : Nat) → List Redirection → ShellT m (List (Nat × RedirectionKind × String))
  | 0, _ => fail "out of stack space"
  | _, [] => return []
  | fuel + 1, .lead stream kind w :: rest => do
    let target ← match kind with
      | .document => do pure (Element.text (← elements fuel false w))
      | _ => single fuel false w
    if kind == .copy && target != "-" && (number? target).isNone then
      fail "Syntax error: Bad fd number"
    return (stream, kind, target) :: (← targetsOf fuel rest)

/-- Runs a command that is not a part of the shell. -/
def runProgram : (fuel : Nat) → (name : String) → (args : List String) → ShellT m Unit
  | 0, _, _ => fail "out of stack space"
  | fuel + 1, name, args => do
    let bare := bareName name
    if bare == "sh" || bare == "dash" then
      let number := (← get).number + 1
      match ← runShell fuel name number args with
      | .inl status => setStatus status
      | .inr signal =>
        match signalMessage signal with
        | some message => write 2 (message ++ "\n")
        | none => pure ()
        setStatus (128 + signal)
    else
      let a ← access
      let bytes ← input
      match @tool? m _ a (gathered name) (args.map gathered) bytes with
      | some run =>
        let o : Outcome ← (run : m _)
        absorb o
      | none =>
        let found ← if name.contains '/' then presence name else pure .missing
        if found == .missing && name != "" then
          complain (name ++ ": not found")
          setStatus 127
        else
          complain (name ++ ": Permission denied")
          setStatus (if name == "" then 127 else 126)

/-- Runs a function. -/
def runFunction : (fuel : Nat) → (tested : Bool) → Script → (args : List String) → ShellT m Unit
  | 0, _, _, _ => fail "out of stack space"
  | fuel + 1, tested, body, args => do
    let before ← get
    set { before.withArgs args with locals := some [], loops := 0 }
    let flow ← flowOf (runScript fuel tested body)
    modify fun s =>
      { s with
        args := before.args, optionIndex := before.optionIndex
        optionOffset := before.optionOffset, locals := before.locals, loops := before.loops }
        |>.restore (s.locals.getD [])
    match flow with
    | none | some .returns => return
    | some f => throw f

/-- Runs a command that is a part of the shell. -/
def runBuiltin : (fuel : Nat) → (tested : Bool) → (name : String) → (args : List String) →
    ShellT m Unit
  | 0, _, _, _ => fail "out of stack space"
  | fuel + 1, tested, name, args => do
    match name with
    | "eval" =>
      setStatus 0
      let line := (← get).line
      runText fuel tested (" ".intercalate args).toList
      modify fun s => { s with line }
    | "." =>
      match args with
      | [] => setStatus 0
      | path :: _ =>
        if !path.contains '/' then fail (path ++ ": not found")
        match ← readFile path with
        | .error f => fail s!"cannot open {path}: {openingFault f}"
        | .ok bytes =>
          let line := (← get).line
          setStatus 0
          let flow ← flowOf (runText fuel tested (spreadOf bytes).toList)
          modify fun s => { s with line }
          match flow with
          | none | some .returns => return
          | some f => throw f
    | "exec" =>
      match args with
      | [] => setStatus 0
      | program :: args =>
        let bare := bareName program
        if bare == "sh" || bare == "dash" then
          let number := (← get).number
          match ← runShell fuel program number args with
          | .inl status => throw (.exits status)
          | .inr signal => throw (.dies number signal)
        else
          if isTool bare then modify fun s => { s with commandName := none }
          runProgram fuel program args
          throw (.exits (← get).status)
    | "command" =>
      match args with
      | [] => setStatus 0
      | "-v" :: names => names.forM (describe true)
      | "-V" :: names => names.forM (describe false)
      | "--" :: rest => runBuiltin fuel tested "command" rest
      | "-p" :: rest => runBuiltin fuel tested "command" rest
      | inner :: args =>
        modify fun s => { s with commandName := none }
        runOwn fuel tested inner args
    | _ =>
      match builtin? name args with
      | some body => body
      | none => setStatus 0

/-- Runs a command that is no function. -/
def runOwn : (fuel : Nat) → (tested : Bool) → (name : String) → (args : List String) →
    ShellT m Unit
  | 0, _, _, _ => fail "out of stack space"
  | fuel + 1, tested, name, args => do
    if specialCommands.contains name then named name (runBuiltin fuel tested name args)
    else if plainCommands.contains name then
      match ← flowOf (named name (runBuiltin fuel tested name args)) with
      | some .fails => setStatus 2
      | some f => throw f
      | none => return
    else runProgram fuel name args

/-- Runs a simple command. -/
def runSimple : (fuel : Nat) → (tested : Bool) → List (String × Word) → List Word →
    List Redirection → ShellT m Unit
  | 0, _, _, _, _ => fail "out of stack space"
  | fuel + 1, tested, settings, words, rs => do
    modify fun s => { s with outputStatus := 0 }
    let names ← commandFields fuel [] words
    let targets ← targetsOf fuel rs
    let s ← get
    let function? := names.head?.bind fun name => s.functions.lookup name
    let special := function?.isNone && names.head?.any specialCommands.contains
    let place := s.streams.lookup 2
    let run : ShellT m Unit := do
      if !(← redirectAll targets) then
        setStatus 2
        if special then throw .fails
      else
        match names with
        | [] =>
          let made ← makeSettings fuel false settings
          trace place made []
          setStatus (← get).outputStatus
        | name :: args =>
          if special then
            let made ← makeSettings fuel false settings
            trace place made names
            runOwn fuel tested name args
          else
            restoring (settings.map Prod.fst) do
              let made ← makeSettings fuel true settings
              trace place made names
              match function? with
              | some body => runFunction fuel tested body args
              | none => runOwn fuel tested name args
    if names.head? == some "exec" && names.length = 1 then run
    else withStreams run

/-- Runs commands that are joined by pipes, the first of which reads where a stream leads. -/
def runPipe : (fuel : Nat) → (tested : Bool) → Option Endpoint → List Script → ShellT m Unit
  | 0, _, _, _ => fail "out of stack space"
  | _, _, _, [] => return
  | fuel + 1, tested, source, body :: rest => do
    let (id, s) := (← get).newBuffer []
    set s
    let status ← apart do
      match source with
      | some e => modify (·.lead 0 (some e))
      | none => pure ()
      if !rest.isEmpty then modify (·.lead 1 (some (.buffer id)))
      runScript fuel tested body
    if rest.isEmpty then setStatus status
    else runPipe fuel tested (some (.buffer id)) rest

/-- Runs a script, if there is one. -/
def runBlock : (fuel : Nat) → (tested : Bool) → Option Script → ShellT m Unit
  | 0, _, _ => fail "out of stack space"
  | _, _, none => return
  | fuel + 1, tested, some s => runScript fuel tested s

/-- Runs the body of a loop as long as its condition comes out as wanted. -/
def runLoop : (fuel : Nat) → (tested wanted : Bool) → (condition body : Option Script) →
    (status : Nat) → ShellT m Unit
  | 0, _, _, _, _, _ => fail "out of stack space"
  | fuel + 1, tested, wanted, condition, body, status => do
    let before := (← get).status
    setStatus before
    let goesOn ← once (runBlock fuel true condition)
    if goesOn && ((← get).status == 0) == wanted then
      let goesOn ← once (runBlock fuel tested body)
      let status := (← get).status
      if goesOn then runLoop fuel tested wanted condition body status
    else if goesOn then setStatus status

/-- Runs the body of a loop for each value of a variable. -/
def runEach : (fuel : Nat) → (tested : Bool) → (name : String) → List String → Option Script →
    ShellT m Unit
  | 0, _, _, _, _ => fail "out of stack space"
  | _, _, _, [], _ => return
  | fuel + 1, tested, name, value :: rest, body => do
    assign name value
    if ← once (runBlock fuel tested body) then runEach fuel tested name rest body

/-- Runs the first case that a text matches. -/
def runChoice : (fuel : Nat) → (tested : Bool) → (text : String) →
    List (List Word × Option Script) → ShellT m Unit
  | 0, _, _, _ => fail "out of stack space"
  | _, _, _, [] => return
  | fuel + 1, tested, text, (patterns, body) :: rest => do
    if ← anyMatches fuel text patterns then runBlock fuel tested body
    else runChoice fuel tested text rest

/-- Whether one of several patterns matches a text. -/
def anyMatches : (fuel : Nat) → (text : String) → List Word → ShellT m Bool
  | 0, _, _ => fail "out of stack space"
  | _, _, [] => return false
  | fuel + 1, text, w :: rest => do
    let es ← elements fuel false ((← get).atHome false w)
    let p := Wildcard.ofText (Element.marked [' '] es)
    if Wildcard.holds p text.toList then return true else anyMatches fuel text rest

/-- Runs a script. A command that fails ends the shell if that is asked for, unless its status is
tested. -/
def runScript : (fuel : Nat) → (tested : Bool) → Script → ShellT m Unit
  | 0, _, _ => fail "out of stack space"
  | fuel + 1, tested, script => do
    if (← get).options.contains 'n' then return
    match script with
    | .simple line settings words rs =>
      modify fun s => { s with line }
      runSimple fuel tested settings words rs
      answerSignals fuel
      checkFailure tested
    | .pipe commands =>
      runPipe fuel tested none commands
      answerSignals fuel
      checkFailure tested
    | .negated body =>
      runScript fuel true body
      modify fun s => { s with status := if s.status = 0 then 1 else 0 }
    | .both first second =>
      runScript fuel true first
      if (← get).status = 0 then runScript fuel tested second
    | .either first second =>
      runScript fuel true first
      if (← get).status ≠ 0 then runScript fuel tested second
    | .sequence first second =>
      runScript fuel tested first
      runScript fuel tested second
    | .background body =>
      let _ ← apart do
        modify (·.lead 0 (some .nowhere))
        runScript fuel false body
      setStatus 0
    | .subshell line body =>
      modify fun s => { s with line }
      let status ← apart (asProcess fuel (runBlock fuel tested body))
      setStatus status
      answerSignals fuel
      checkFailure tested
    | .redirected line body rs =>
      modify fun s => { s with line }
      let targets ← targetsOf fuel rs
      withStreams do
        if ← redirectAll targets then runScript fuel tested body else setStatus 2
      checkFailure (tested || !(body matches .subshell ..))
    | .branch condition yes no =>
      runBlock fuel true condition
      if (← get).status = 0 then runBlock fuel tested yes
      else
        setStatus 0
        runBlock fuel tested no
    | .loop wanted condition body => runLoop fuel tested wanted condition body 0
    | .each line name words body =>
      modify fun s => { s with line }
      let values ← fieldsOf fuel words
      setStatus 0
      runEach fuel tested name values body
    | .choice line word cases =>
      modify fun s => { s with line }
      let text ← single fuel false word
      setStatus 0
      runChoice fuel tested text cases
    | .definition name body =>
      modify fun s => { s with functions := (name, body) :: s.functions, status := 0 }

/-- Does what is to be done about the signals that have been sent to the process. -/
def answerSignals : (fuel : Nat) → ShellT m Unit
  | 0 => fail "out of stack space"
  | fuel + 1 => do
    let signals ← takeSignals
    signals.forM fun signal => do
      let s ← get
      match s.traps.lookup signal |>.filter fun _ => signal ≠ 9 with
      | some action =>
        let status := s.status
        runText fuel true action.toList
        modify fun t => { t with status, line := s.line }
      | none => if !isIgnored signal then throw (.dies s.number signal)

/-- Runs the lines of a text in order. -/
def runLines : (fuel : Nat) → (tested : Bool) → Position → ShellT m Unit
  | 0, _, _ => fail "out of stack space"
  | fuel + 1, tested, position => do
    match nextLine.run { position with aliases := (← get).aliases } with
    | .error f =>
      modify fun s => { s with line := f.line }
      fail f.message
    | .ok (none, _) => return
    | .ok (some line, position) =>
      runBlock fuel tested line
      runLines fuel tested position

/-- Runs the text of a script. -/
def runText : (fuel : Nat) → (tested : Bool) → List Char → ShellT m Unit
  | 0, _, _ => fail "out of stack space"
  | fuel + 1, tested, text => runLines fuel tested { rest := text }

/-- Runs a computation as a process, at the end of which there may be something to do. -/
def asProcess : (fuel : Nat) → ShellT m Unit → ShellT m Unit
  | 0, _ => fail "out of stack space"
  | fuel + 1, body => do
    let flow ← flowOf body
    match flow with
    | some (.dies number signal) => throw (.dies number signal)
    | _ => pure ()
    match flow with
    | some .fails => setStatus 2
    | some (.exits code) => setStatus code
    | _ => pure ()
    match (← get).traps.lookup 0 with
    | none => throw (.exits (← get).status)
    | some action =>
      let status := (← get).status
      modify fun s => { s with traps := s.traps.filter (·.1 != 0), line := 1 }
      runText fuel true action.toList
      throw (.exits status)

/-- Runs a shell as a program of its own. The answer is its status or the signal that it has died
of. -/
def runShell : (fuel : Nat) → (program : String) → (number : Nat) → (args : List String) →
    ShellT m (Nat ⊕ Nat)
  | 0, _, _, _ => fail "out of stack space"
  | fuel + 1, program, number, args => do
    let outside ← get
    let fresh : State :=
      { name := program, number, streams := outside.streams, buffers := outside.buffers
        nextBuffer := outside.nextBuffer, folder := outside.folder, doomed := outside.doomed
        bindings := initialBindings.foldl
          (fun known (name, v) => if (known.lookup name).isSome then known else (name, v) :: known)
          (outside.bindings.filterMap fun (name, v) =>
            if v.exported && name != "IFS" && name != "OPTIND" then
              some (name, { v with readOnly := false })
            else none) }
    set fresh
    let flow ← flowOf (asProcess fuel (start fuel program {} args))
    let inside ← get
    set (outside.share inside)
    match flow with
    | some (.dies process signal) =>
      if process = number then return .inr signal else throw (.dies process signal)
    | some (.exits code) => return .inl code
    | _ => return .inl inside.status

/-- Reads the arguments of a shell and runs its script. -/
def start : (fuel : Nat) → (program : String) → ScriptSource → (args : List String) →
    ShellT m Unit
  | 0, _, _, _ => fail "out of stack space"
  | fuel + 1, program, source, args => do
    let option? : Option (Bool × List Char × List String) := match args with
      | arg :: rest =>
        match arg.toList with
        | '-' :: '-' :: [] => none
        | '-' :: [] => none
        | '-' :: letters => some (true, letters, rest)
        | '+' :: letters => some (false, letters, rest)
        | _ => none
      | [] => none
    match option? with
    | some (on, letters, rest) =>
      modify fun s => { s with line := 0 }
      let source : ScriptSource :=
        { isArgument := source.isArgument || (on && letters.contains 'c')
          isInput := source.isInput || (on && letters.contains 's') }
      let named := letters.contains 'o'
      setLetters on (letters.filter fun c => !(['c', 'l', 'o', 's'].contains c))
      match named, rest with
      | true, name :: rest =>
        setNamed on name
        start fuel program source rest
      | _, rest => start fuel program source rest
    | none =>
      let args := match args with
        | "--" :: rest | "-" :: rest => rest
        | args => args
      modify fun s => { s with line := 1 }
      if source.isArgument then
        match args with
        | [] =>
          modify fun s => { s with line := 0 }
          fail "-c requires an argument"
        | [text] => runText fuel false text.toList
        | text :: name :: args =>
          modify fun s => { s with name, args }
          runText fuel false text.toList
      else
        match source.isInput, args with
        | false, path :: args =>
          match ← readFile path with
          | .ok bytes =>
            modify fun s => { s with name := path, args }
            runText fuel false (spreadOf bytes).toList
          | .error f =>
            modify fun s => { s with line := 0 }
            complain s!"cannot open {path}: {openingFault f}"
            throw (.exits 2)
        | _, args =>
          let bytes ← input
          match (← get).streams.lookup 0 with
          | some (.buffer id) => modify (·.withContent id [])
          | _ => pure ()
          modify fun s => { s with args }
          runText fuel false (spreadOf bytes).toList

end

end ShellT

end DeviceApi.Command.Shell

/-!
## The shell

The command `sh` runs a script that is an argument, in a file or in the input.
-/

namespace DeviceApi.Command

variable {m : Type → Type} [Monad m] [Files m]

/-- How deep scripts are followed. -/
def scriptDepth : Nat := 100000

/-- The number by which the first shell knows itself. -/
def ownNumber : Nat := 4242

/-- Runs the shell as a command under the name it is called by. -/
def shell (self : String) (args : List String) (input : Octets) : m Outcome := do
  let s : Shell.State := { name := self, number := ownNumber, buffers := [(0, input)] }
  let run : Shell.ShellT m (Nat ⊕ Nat) := Shell.ShellT.runShell scriptDepth self ownNumber (args.map spread)
  let (ended, s) ← run.run s
  let code : Int := match ended with
    | .ok (.inl status) => status
    | .ok (.inr signal) => -(signal : Int)
    | .error _ => 2
  return { code, written := [(.err, s.content 2), (.out, s.content 1)] }

end DeviceApi.Command
