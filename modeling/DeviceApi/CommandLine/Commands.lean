import DeviceApi.CommandLine.Options
import DeviceApi.Formatter
import DeviceApi.Settings

/-!
# Commands

The command line knows three commands: a description is normalized, the names of the methods of
its operations are printed, and a source file is formatted.
-/

namespace DeviceApi.CommandLine

/-- What a command has shown so far. -/
structure Console where
  /-- The lines on the standard output. -/
  lines : List String := []
  verbose : Bool := false
  log : List Log.Record := []

/-- Ways in which a command ends early. -/
inductive Ending where
  /-- The arguments are not those of a command. -/
  | misused
  /-- Help is asked for. -/
  | helped
  /-- The failure is explained to the user. -/
  | refused (message : String)
  /-- The failure is not one that the user is to read about. -/
  | broken (f : Fault)

/-- A command that is being run. -/
abbrev Run (m : Type → Type) := ExceptT Ending (StateT Console m)

/-- What a command leaves behind on the console. -/
structure Outcome where
  exitCode : Nat
  console : Console
  complaint : Option String := none
  broken : Option Fault := none

/-- The text on the standard output. -/
def Outcome.out (o : Outcome) : String := String.join (o.console.lines.map (· ++ "\n"))

/-- A text in which halves of characters are shown by their codes. -/
def withoutHalves (s : String) : String :=
  String.ofList (s.toList.flatMap fun c =>
    if Text.isHalfChar c then '\\' :: 'u' :: Nat.toDigits 16 (Text.codeOf c) else [c])

/-- The text on the error output, given the text of the time and that of a duration. -/
def Outcome.err (time elapsed : String) (o : Outcome) : String :=
  let complaint := match o.complaint with
    | some message => "Error: " ++ message ++ "\n"
    | none => ""
  withoutHalves (Log.lines o.console.verbose time elapsed o.console.log ++ complaint)

/-- How a failure ends a command. Failures of files are explained only where a command expects
them. -/
def Ending.ofFault (explainsFiles : Bool) (f : Fault) : Ending :=
  match f.message?, f with
  | some message, _ => .refused message
  | none, .file (.notText path) => .broken (.file (.notText path))
  | none, .file fault => if explainsFiles then .refused fault.message else .broken f
  | none, f => .broken f

variable {m : Type → Type} [Monad m] [Files m] {α : Type}

namespace Run

/-- Prints a line. -/
def print (line : String) : Run m Unit := do
  if line.any Text.isHalfChar then throw (.broken (.misfit .halfCharacter))
  modifyThe Console fun c => { c with lines := c.lines ++ [line] }

/-- Gives a file a text. A text that cannot be written leaves the file empty. -/
def writeText (path text : String) : Run m Unit := do
  let unfit := text.any Text.isHalfChar
  match ← (Files.write path (if unfit then [] else text.toUTF8.toList) : m _) with
  | .ok () => if unfit then throw (.broken (.misfit .halfCharacter))
  | .error f => throw (.broken (.file f))

/-- The answer of a computation, whose failure ends the command. -/
def ofExcept (explainsFiles : Bool) : Except Fault α → Run m α
  | .ok a => return a
  | .error f => throw (.ofFault explainsFiles f)

/-- The octets of a file. -/
def readFile (explainsFiles : Bool) (path : String) : Run m (List UInt8) := do
  match ← (Files.read path : m _) with
  | .ok bytes => return bytes
  | .error f => throw (.ofFault explainsFiles (.file f))

/-- Refuses the arguments unless something is at a path. -/
def mustExist (path : String) (foldersToo : Bool) : Run m Unit := do
  match ← (Files.look path : m _) with
  | .missing => throw .misused
  | .folder => if !foldersToo then throw .misused
  | .file => return

/-- Refuses the arguments unless something is at a path that may be left out. -/
def mustExistIfGiven : Option String → Run m Unit
  | none => return
  | some path => mustExist path true

/-- What is given on the command line of a command. -/
def givenOf (forms : List OptionForm) (args : List String) : Run m Given := do
  match given? forms args with
  | none => throw .misused
  | some g => if g.has "help" then throw .helped else return g

/-- The settings, given the file that states them. -/
def settings (explainsFiles : Bool) (file formatter : Option String) : Run m Settings := do
  let stated ← match file with
    | none => pure none
    | some path =>
      let name := (PathName.ofText path).text
      pure (some (name, ← readFile explainsFiles name))
  ofExcept explainsFiles (Settings.load stated formatter)

/-- The description in a file. -/
def description (explainsFiles : Bool) (path : PathName) : Run m (Value × Store) := do
  let bytes ← readFile explainsFiles path.text
  ofExcept explainsFiles (readDescription path.text bytes)

/-- The names of methods in a file. -/
def methodNames (explainsFiles : Bool) (path : PathName) : Run m MethodNames := do
  let bytes ← readFile explainsFiles path.text
  return MethodNames.ofText (← ofExcept explainsFiles (fileText path.text bytes))

end Run

open Run

/-- The options of the command that normalizes. -/
def normalizeForms : List OptionForm :=
  [{ field := "names", long := "--names" },
   { field := "output", long := "--output", letter := 'o' },
   { field := "format", long := "--output-format" },
   { field := "config", long := "--config" },
   { field := "merge", long := "--merge-duplicates", takesValue := false },
   { field := "verbose", long := "--verbose", letter := 'v', takesValue := false }]

/-- The number of schemas of a description. -/
def schemaCount (store : Store) (document : Value) : Nat :=
  let schemas := do
    let components ← store.field? document "components"
    let schemas ← store.field? components "schemas"
    store.entries? schemas
  (schemas.getD []).length

/-- Normalizes a description and writes it to a file. What is given on the command line counts
more than the settings. -/
def normalizeCommand (formatter : Option String) (args : List String) : Run m Unit := do
  let g ← givenOf normalizeForms args
  let given? ← match g.arguments with
    | [] => pure none
    | [path] => pure (some path)
    | _ => throw .misused
  mustExistIfGiven given?
  mustExistIfGiven (g.value? "names")
  mustExistIfGiven (g.value? "config")
  let format? ← match g.value? "format" with
    | none => pure none
    | some name =>
      match OutputFormat.ofText? name with
      | some format => pure (some format)
      | none => throw .misused
  let path? (field : String) : Option PathName := (g.value? field).map PathName.ofText
  let stated ← settings true (g.value? "config") formatter
  let source := (given?.map PathName.ofText).getD stated.description
  let names? := path? "names" <|> stated.names
  let target := (path? "output").getD stated.output
  modifyThe Console fun c => { c with verbose := g.has "verbose" || stated.verbose }
  print s!"Parsing {source.text}..."
  let (document, store) ← description true source
  let names ← match names? with
    | none => pure none
    | some path =>
      print s!"Reading canonical names from {path.text}..."
      pure (some (← methodNames true path))
  let merges := g.has "merge" || stated.mergeDuplicates
  let (answer, session) :=
    (Procedure.normalize document names defaultCatalogue merges).runOn { store }
  modifyThe Console fun c => { c with log := session.log }
  let result ← ofExcept true answer
  let folder := target.parent
  match ← (Files.makeFolders folder.names.length folder : m _) with
  | .ok () => pure ()
  | .error f => throw (.broken (.file f))
  let text ← ofExcept false ((result.render (format?.getD stated.format)).runOn session.store).1
  writeText target.text text
  let count := schemaCount session.store document
  let replaced := result.replacements.length
  print s!"Normalized {count} schemas ({replaced} replaced), saved to {target.text}"
  if !result.duplicates.isEmpty then
    let repeated := result.duplicates.length
    print s!"Warning: {repeated} schema shapes are declared more than once."

/-- Prints the name of the method of an operation. -/
def printName (names : MethodNames) (op : Operation) : Run m Unit := do
  let name ← ofExcept false (names.resolvePath op.path)
  print s!"{op.method.text.toUpper} {op.path} -> {name}"

/-- Prints the names of the methods of all operations in order. -/
def namesCommand (args : List String) : Run m Unit := do
  let g ← givenOf [{ field := "names", long := "--names" }] args
  match g.arguments, g.value? "names" with
  | [path], some names =>
    mustExist path true
    mustExist names true
    let (document, store) ← description false (.ofText path)
    let names ← methodNames false (.ofText names)
    let paths := (store.field? document "paths").bind store.entries?
    for entry in paths.getD [] do
      match store.pathOperations [entry] with
      | .ok operations => for op in operations do printName names op
      | .error f => throw (.broken (.misfit f))
  | _, _ => throw .misused

/-- Formats a source file. The command of the formatter may be given, and is otherwise that of
the settings. -/
def formatCommand (formatter : Option String) (args : List String) : Run m Unit := do
  let g ← givenOf [{ field := "command", long := "--cmd" }, { field := "config", long := "--config" }]
    args
  match g.arguments with
  | [path] =>
    mustExist path false
    mustExistIfGiven (g.value? "config")
    let words ← match g.value? "command" with
      | none | some "" => pure (← settings false (g.value? "config") formatter).formatter
      | some line =>
        match Text.shellWords? line with
        | some words => pure words
        | none => throw (.broken (.misfit .badContent))
    let path := (PathName.ofText path).text
    match ← (Formatter.formatFile words path : m _) with
    | .ok () => print s!"Formatted {path}"
    | .error f => throw (.ofFault false f)
  | _ => throw .misused

/-- Runs the command that the first argument names. -/
def command (formatter : Option String) (args : List String) : Run m Unit :=
  match args with
  | "--" :: name :: rest | name :: rest =>
    match name with
    | "normalize" => normalizeCommand formatter rest
    | "names" => namesCommand rest
    | "format" => formatCommand formatter rest
    | "--help" => throw .helped
    | _ => throw .misused
  | [] => throw .misused

/-- What comes of a command line, given the command line of the formatter if one is set. -/
def outcome (formatter : Option String) (args : List String) : m Outcome := do
  let (ending, console) ← ((command formatter args : Run m Unit).run).run {}
  return match ending with
    | .ok () | .error .helped => { exitCode := 0, console }
    | .error .misused => { exitCode := 2, console := {} }
    | .error (.refused message) => { exitCode := 1, console, complaint := some message }
    | .error (.broken f) => { exitCode := 1, console, broken := some f }

end DeviceApi.CommandLine
