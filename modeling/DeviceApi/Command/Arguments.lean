import DeviceApi.Command.Outcome

/-!
# Command-line arguments

The arguments of a command are options and operands. An option is a letter behind a dash or a
name behind two dashes; it may have a value. Letters may be put together, and a name may be cut
short as long as it stays unique.
-/

namespace DeviceApi.Command

/-- Whether an option has a value. -/
inductive OptionValue where
  | none | optional | required
  deriving DecidableEq, Repr

/-- The options that a command knows. -/
structure OptionTable where
  letters : List (Char × OptionValue)
  /-- Names, each with the letter that stands for the same option and whether it has a value. -/
  names : List (String × Char × OptionValue) := []
  /-- Whether options may stand behind operands. -/
  anywhere : Bool := true

/-- Arguments that have been told apart. -/
structure Arguments where
  options : List (Char × Option String) := []
  operands : List String := []
  deriving Repr

/-- Whether an option is among the arguments. -/
def Arguments.has (a : Arguments) (letter : Char) : Bool :=
  a.options.any fun o => o.1 == letter

/-- Why arguments are refused. -/
inductive ArgumentFault where
  | unknownLetter (letter : Char)
  | unknownName (name : String)
  | ambiguous (name : String) (candidates : List String)
  | missingValue (letter : Char)
  | missingNamedValue (name : String)
  | unexpectedValue (name : String)
  deriving Repr

/-- The message about arguments that are refused. -/
def ArgumentFault.message : ArgumentFault → String
  | unknownLetter letter => s!"invalid option -- '{letter}'"
  | unknownName name => s!"unrecognized option '--{name}'"
  | ambiguous name candidates =>
    s!"option '--{name}' is ambiguous; possibilities:" ++
      String.join (candidates.map fun c => s!" '--{c}'")
  | missingValue letter => s!"option requires an argument -- '{letter}'"
  | missingNamedValue name => s!"option '--{name}' requires an argument"
  | unexpectedValue name => s!"option '--{name}' doesn't allow an argument"

namespace OptionTable

/-- The options of an argument of letters, given the argument behind it, and whether that one is
the value of the last letter. -/
def lettersOf (table : OptionTable) (next : Option String) :
    List Char → Except ArgumentFault (List (Char × Option String) × Bool)
  | [] => .ok ([], false)
  | letter :: rest => do
    match table.letters.lookup letter with
    | none => throw (.unknownLetter letter)
    | some .none =>
      let (more, usesNext) ← lettersOf table next rest
      return ((letter, none) :: more, usesNext)
    | some .optional =>
      return ([(letter, if rest.isEmpty then none else some (String.ofList rest))], false)
    | some .required =>
      if !rest.isEmpty then return ([(letter, some (String.ofList rest))], false)
      match next with
      | some value => return ([(letter, some value)], true)
      | none => throw (.missingValue letter)

/-- The option that a name stands for. -/
def named (table : OptionTable) (name : String) :
    Except ArgumentFault (String × Char × OptionValue) :=
  match table.names.find? fun n => n.1 == name with
  | some n => .ok n
  | none =>
    match table.names.filter fun n => n.1.startsWith name with
    | [] => .error (.unknownName name)
    | [n] => .ok n
    | n :: more =>
      if more.all fun o => o.2 == n.2 then .ok n
      else .error (.ambiguous name ((n :: more).map Prod.fst))

/-- The option of an argument with a name, given the argument behind it, and whether that one is
its value. -/
def nameOf (table : OptionTable) (next : Option String) (text : String) :
    Except ArgumentFault ((Char × Option String) × Bool) := do
  let cs := text.toList
  let name := cs.takeWhile (· != '=')
  let value := (cs.drop name.length).tail?.map String.ofList
  let (full, letter, kind) ← table.named (String.ofList name) |>.mapError fun f =>
    match f with
    | .unknownName _ => .unknownName text
    | f => f
  match kind, value with
  | .none, none | .optional, _ => return ((letter, value), false)
  | .none, some _ => throw (.unexpectedValue full)
  | .required, some value => return ((letter, some value), false)
  | .required, none =>
    match next with
    | some value => return ((letter, some value), true)
    | none => throw (.missingNamedValue full)

/-- Tells options and operands apart. -/
def parse (table : OptionTable) : List String → Except ArgumentFault Arguments
  | [] => .ok {}
  | arg :: rest => do
    let found ← match arg.toList with
      | ['-', '-'] => return { operands := rest }
      | '-' :: '-' :: _ =>
        let (o, usesNext) ← table.nameOf rest.head? ((arg.drop 2).toString)
        pure (some ([o], usesNext))
      | '-' :: letter :: letters =>
        let (os, usesNext) ← table.lettersOf rest.head? (letter :: letters)
        pure (some (os, usesNext))
      | _ => pure none
    match found, rest with
    | some (os, true), _ :: rest =>
      let more ← parse table rest
      return { more with options := os ++ more.options }
    | some (os, _), rest =>
      let more ← parse table rest
      return { more with options := os ++ more.options }
    | none, rest =>
      if table.anywhere then
        let more ← parse table rest
        return { more with operands := arg :: more.operands }
      else return { operands := arg :: rest }

end OptionTable

/-- The complaint of a command about its arguments. -/
def refuseArguments (command : String) (code : Int) (f : ArgumentFault) : Outcome :=
  .complains code
    s!"{command}: {f.message}\nTry '{command} --help' for more information."

end DeviceApi.Command
