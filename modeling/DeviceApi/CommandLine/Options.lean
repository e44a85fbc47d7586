/-!
# Options on a command line

Options stand between the other arguments, up to two dashes. An option with a long name takes
its value behind an equals sign or from the next argument; options of one letter may stand
together behind one dash, and the last of them may take the rest of the argument as its value.
-/

namespace DeviceApi.CommandLine

/-- An option of a command. -/
structure OptionForm where
  /-- What the option sets. -/
  field : String
  long : String
  letter : Option Char := none
  takesValue : Bool := true

/-- The option that asks for help, which every command has. -/
def helpForm : OptionForm := { field := "help", long := "--help", takesValue := false }

/-- What is given on a command line. -/
structure Given where
  /-- The values of options, the latest first. -/
  values : List (String × String) := []
  /-- The other arguments. -/
  arguments : List String := []

namespace Given

/-- The value of an option. -/
def value? (g : Given) (field : String) : Option String := g.values.lookup field

/-- Whether an option is given. -/
def has (g : Given) (field : String) : Bool := (g.value? field).isSome

/-- Adds the value of an option. -/
def withValue (g : Given) (field value : String) : Given :=
  { g with values := (field, value) :: g.values }

/-- Adds an argument that is no option. -/
def withArgument (g : Given) (argument : String) : Given :=
  { g with arguments := g.arguments ++ [argument] }

end Given

/-- Reads an option with a long name. The second component is the field whose value is still to
come. -/
def longOption? (forms : List OptionForm) (g : Given) (arg : String) :
    Option (Given × Option String) := do
  let name := String.ofList (arg.toList.takeWhile (· != '='))
  let value? := match arg.toList.dropWhile (· != '=') with
    | _ :: value => some (String.ofList value)
    | [] => none
  let form ← forms.find? fun f => f.long == name
  match form.takesValue, value? with
  | true, some value => some (g.withValue form.field value, none)
  | true, none => some (g, some form.field)
  | false, none => some (g.withValue form.field "", none)
  | false, some _ => none

/-- Reads options of one letter. -/
def letterOptions? (forms : List OptionForm) (g : Given) :
    List Char → Option (Given × Option String)
  | [] => some (g, none)
  | c :: rest => do
    let form ← forms.find? fun f => f.letter == some c
    if !form.takesValue then letterOptions? forms (g.withValue form.field "") rest
    else if rest.isEmpty then some (g, some form.field)
    else some (g.withValue form.field (String.ofList rest), none)

/-- Reads arguments, the first of which is the value of an option if one is waiting. -/
def givenFrom? (forms : List OptionForm) :
    (waiting : Option String) → Given → List String → Option Given
  | none, g, [] => some g
  | some _, _, [] => none
  | some field, g, arg :: rest => givenFrom? forms none (g.withValue field arg) rest
  | none, g, arg :: rest =>
    match arg.toList with
    | ['-', '-'] => some { g with arguments := g.arguments ++ rest }
    | '-' :: '-' :: _ => do
      let (g, waiting) ← longOption? forms g arg
      givenFrom? forms waiting g rest
    | '-' :: c :: letters => do
      let (g, waiting) ← letterOptions? forms g (c :: letters)
      givenFrom? forms waiting g rest
    | _ => givenFrom? forms none (g.withArgument arg) rest

/-- What is given by arguments, or nothing if one of the options is not known. -/
def given? (forms : List OptionForm) (args : List String) : Option Given :=
  givenFrom? (helpForm :: forms) none {} args

end DeviceApi.CommandLine
