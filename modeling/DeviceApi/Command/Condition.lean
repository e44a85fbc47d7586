import DeviceApi.Files.Files
import DeviceApi.Number.Numeral
import DeviceApi.Command.Outcome

/-!
# Conditions

The command `test` answers whether a condition on texts, integers and files holds. There are
two readings of its arguments: the one of the command itself, which decides by their number, and
the one that is built into the shell.
-/

namespace DeviceApi.Command.Condition

/-- An answer or a complaint. -/
abbrev Answer := Except String

/-- A relation between two texts, two integers or two files. -/
def relations : List String :=
  ["=", "==", "!=", "-eq", "-ne", "-lt", "-le", "-gt", "-ge", "-nt", "-ot", "-ef"]

/-- The integer that an argument is. -/
def integer (complaint : String → String) (arg : String) : Answer Int :=
  match Numeral.integer? 10 arg.toList with
  | some i => if arg.toList.all fun c => c.toNat < 0x80 then .ok i else .error (complaint arg)
  | none => .error (complaint arg)

/-- Whether a relation holds between two arguments. -/
def compare (complaint : String → String) (a relation b : String) : Answer Bool := do
  let numbers (holds : Int → Int → Bool) : Answer Bool := do
    return holds (← integer complaint a) (← integer complaint b)
  match relation with
  | "=" | "==" => return a == b
  | "!=" => return a != b
  | "<" => return decide (a < b)
  | ">" => return decide (b < a)
  | "-eq" => numbers fun x y => x == y
  | "-ne" => numbers fun x y => x != y
  | "-lt" => numbers fun x y => x < y
  | "-le" => numbers fun x y => x ≤ y
  | "-gt" => numbers fun x y => y < x
  | "-ge" => numbers fun x y => y ≤ x
  | "-ef" => return a == b
  | _ => return false

variable {m : Type → Type} [Monad m] [Files m]

/-- Whether the property of a letter holds of an argument. -/
def property (complaint : String → String) (letter : Char) (arg : String) :
    m (Option (Answer Bool)) := do
  let presence ← Files.look arg
  match letter with
  | 'e' | 'a' | 'r' | 'w' | 'O' | 'G' => return some (.ok (presence != .missing))
  | 'f' => return some (.ok (presence == .file))
  | 'd' | 'x' => return some (.ok (presence == .folder))
  | 's' =>
    match ← Files.read arg with
    | .ok bytes => return some (.ok !bytes.isEmpty)
    | .error _ => return some (.ok (presence == .folder))
  | 'n' => return some (.ok (arg != ""))
  | 'z' => return some (.ok (arg == ""))
  | 't' => return some ((integer complaint arg).map fun _ => false)
  | 'L' | 'h' | 'p' | 'S' | 'b' | 'c' | 'u' | 'g' | 'k' | 'N' => return some (.ok false)
  | _ => return none

/-! ## The command -/

/-- The complaint of the command about an argument that is no integer. -/
def invalidInteger (arg : String) : String := s!"invalid integer {quote arg}"

/-- The complaint about an argument that is missing behind the last one. -/
def missingBehind (args : List String) : String :=
  "missing argument after " ++ quote (args.getLastD "")

/-- The letter of an argument that looks like a property. -/
def propertyLetter? (arg : String) : Option Char :=
  match arg.toList with
  | ['-', c] => some c
  | _ => none

/-- Answers whether the property that is named first holds of the second argument. -/
def named (all : List String) : List String → m (Answer (Bool × List String))
  | operator :: arg :: rest => do
    match ← property invalidInteger ((propertyLetter? operator).getD ' ') arg with
    | some (.ok yes) => return .ok (yes, rest)
    | some (.error f) => return .error f
    | none => return .error s!"{quote operator}: unary operator expected"
  | _ => return .error (missingBehind all)

/-- A condition without a conjunction, for use inside of a longer one, and what follows it. -/
def term (all : List String) (inParentheses : List String → m (Answer (Bool × List String))) :
    List String → m (Answer (Bool × List String))
  | [] => return .error (missingBehind all)
  | "!" :: rest => do
    match ← term all inParentheses rest with
    | .ok (yes, rest) => return .ok (!yes, rest)
    | .error f => return .error f
  | "(" :: rest => do
    match ← inParentheses rest with
    | .error f => return .error f
    | .ok (yes, ")" :: rest) => return .ok (yes, rest)
    | .ok (_, arg :: _) => return .error (quote ")" ++ " expected, found " ++ quote arg)
    | .ok (_, []) => return .error (quote ")" ++ " expected")
  | a :: rest => do
    match rest with
    | relation :: b :: more =>
      if relations.contains relation then
        return (compare invalidInteger a relation b).map fun yes => (yes, more)
    | _ => pure ()
    if (propertyLetter? a).isSome then named all (a :: rest)
    else return .ok (a != "", rest)

/-- Conditions joined by one kind of operator, of which the first is known. -/
def joined (operator : String) (join : Bool → Bool → Bool)
    (part : List String → m (Answer (Bool × List String))) :
    (fuel : Nat) → Bool → List String → m (Answer (Bool × List String))
  | 0, yes, rest => return .ok (yes, rest)
  | fuel + 1, yes, rest => do
    match rest with
    | o :: rest =>
      if o == operator then
        match ← part rest with
        | .ok (also, rest) => joined operator join part fuel (join yes also) rest
        | .error f => return .error f
      else return .ok (yes, o :: rest)
    | [] => return .ok (yes, [])

mutual

/-- A condition with conjunctions and alternatives. -/
def expression (all : List String) : (fuel : Nat) → List String →
    m (Answer (Bool × List String))
  | 0, rest => return .ok (false, rest)
  | fuel + 1, args => do
    let single := term all (grouped all fuel)
    let conjunction (args : List String) : m (Answer (Bool × List String)) := do
      match ← single args with
      | .ok (yes, rest) => joined "-a" (· && ·) single rest.length yes rest
      | .error f => return .error f
    match ← conjunction args with
    | .ok (yes, rest) => joined "-o" (· || ·) conjunction rest.length yes rest
    | .error f => return .error f

/-- The condition at the front of arguments inside of parentheses: up to three arguments are
read by their number. -/
def grouped (all : List String) : (fuel : Nat) → List String → m (Answer (Bool × List String))
  | 0, rest => return .ok (false, rest)
  | fuel + 1, args => do
    let inside := args.takeWhile (· != ")")
    if inside.length ≤ 3 ∧ inside.length < args.length then
      match ← byNumber all fuel inside with
      | .ok (yes, rest) => return .ok (yes, rest ++ args.drop inside.length)
      | .error f => return .error f
    else expression all fuel args

/-- A condition whose form is given by the number of its arguments, and what is left of them. -/
def byNumber (all : List String) : (fuel : Nat) → List String → m (Answer (Bool × List String))
  | 0, rest => return .ok (false, rest)
  | fuel + 1, args => do
    let negated (args : List String) : m (Answer (Bool × List String)) := do
      return (← byNumber all fuel args).map fun (yes, rest) => (!yes, rest)
    match args with
    | [] => return .ok (false, [])
    | [a] => return .ok (a != "", [])
    | ["!", a] => negated [a]
    | [operator, a] =>
      if (propertyLetter? operator).isSome then named all [operator, a]
      else return .error (missingBehind all)
    | [a, operator, b] =>
      if relations.contains operator then
        return (compare invalidInteger a operator b).map fun yes => (yes, [])
      else if a == "!" then negated [operator, b]
      else if a == "(" && b == ")" then return .ok (operator != "", [])
      else if operator == "-a" || operator == "-o" then expression all fuel args
      else return .error s!"{quote operator}: binary operator expected"
    | ["!", a, b, c] => negated [a, b, c]
    | ["(", a, b, ")"] => byNumber all fuel [a, b]
    | args => expression all fuel args

end

/-- Runs the command under the name it is called by. -/
def command (self : String) (args : List String) : m Outcome := do
  let refusal (line : String) : Outcome := .complains 2 (self ++ ": " ++ line)
  match ← byNumber args (4 * args.length + 4) args with
  | .ok (yes, []) => return .answers yes
  | .ok (_, arg :: _) => return refusal s!"extra argument {quote arg}"
  | .error f => return refusal f

/-! ## The shell -/

/-- The kinds of arguments that the shell tells apart. -/
inductive Kind where
  | missing | operand | relation | property | negation | conjunction | alternative
  | opening | closing
  deriving DecidableEq, Repr

/-- The complaint of the shell about an argument that is no integer. -/
def illegalNumber (arg : String) : String := s!"Illegal number: {arg}"

/-- What an argument is by itself. -/
def plainKind (arg : String) : Kind :=
  if arg == "!" then .negation
  else if arg == "(" then .opening
  else if arg == ")" then .closing
  else if arg == "-a" then .conjunction
  else if arg == "-o" then .alternative
  else if (relations ++ ["<", ">"]).contains arg && arg != "==" then .relation
  else
    match propertyLetter? arg with
    | some c => if "rwxefdcbpugkstznhLOGS".toList.contains c then .property else .operand
    | none => .operand

/-- What the argument at the front is, given those behind it. -/
def kindOf : List String → Kind
  | [] => .missing
  | arg :: rest =>
    match plainKind arg, rest with
    | .property, [] => .operand
    | .property, _ :: [] => .property
    | .property, next :: _ => if plainKind next == .relation then .operand else .property
    | .opening, [] => .operand
    | kind, _ => kind

mutual

/-- A condition that may have alternatives. What is left begins with its last argument. -/
def alternatives : (fuel : Nat) → Kind → List String → m (Answer (Bool × List String))
  | 0, _, args => return .ok (false, args)
  | fuel + 1, kind, args => do
    match ← conjunctions fuel kind args with
    | .error f => return .error f
    | .ok (yes, rest) =>
      if kindOf (rest.drop 1) == .alternative then
        match ← alternatives fuel (kindOf (rest.drop 2)) (rest.drop 2) with
        | .ok (also, rest) => return .ok (yes || also, rest)
        | .error f => return .error f
      else return .ok (yes, rest)

/-- A condition that may have conjunctions. -/
def conjunctions : (fuel : Nat) → Kind → List String → m (Answer (Bool × List String))
  | 0, _, args => return .ok (false, args)
  | fuel + 1, kind, args => do
    match ← negations fuel kind args with
    | .error f => return .error f
    | .ok (yes, rest) =>
      if kindOf (rest.drop 1) == .conjunction then
        match ← conjunctions fuel (kindOf (rest.drop 2)) (rest.drop 2) with
        | .ok (also, rest) => return .ok (yes && also, rest)
        | .error f => return .error f
      else return .ok (yes, rest)

/-- A condition that may be negated. -/
def negations : (fuel : Nat) → Kind → List String → m (Answer (Bool × List String))
  | 0, _, args => return .ok (false, args)
  | fuel + 1, kind, args => do
    if kind != .negation then primary fuel kind args
    else
      let next := kindOf (args.drop 1)
      let rest := if next == .missing then args else args.drop 1
      return (← negations fuel next rest).map fun (yes, rest) => (!yes, rest)

/-- A condition without operators around it. -/
def primary : (fuel : Nat) → Kind → List String → m (Answer (Bool × List String))
  | 0, _, args => return .ok (false, args)
  | fuel + 1, kind, args => do
    match kind, args with
    | .missing, args => return .ok (false, args)
    | .opening, _ :: rest =>
      if kindOf rest == .closing then return .ok (false, rest)
      else
        match ← alternatives fuel (kindOf rest) rest with
        | .error f => return .error f
        | .ok (yes, rest) =>
          if kindOf (rest.drop 1) == .closing then return .ok (yes, rest.drop 1)
          else return .error "closing paren expected"
    | .property, [operator] => return .error s!"{operator}: argument expected"
    | .property, operator :: arg :: rest =>
      match ← property illegalNumber ((propertyLetter? operator).getD ' ') arg with
      | some answer => return answer.map fun yes => (yes, arg :: rest)
      | none => return .ok (false, arg :: rest)
    | _, a :: relation :: rest =>
      if plainKind relation != .relation then return .ok (a != "", args)
      else
        match rest with
        | [] => return .error s!"{relation}: argument expected"
        | b :: rest => return (compare illegalNumber a relation b).map fun yes => (yes, b :: rest)
    | _, a :: rest => return .ok (a != "", a :: rest)
    | _, [] => return .ok (false, [])

end

/-- Whether the condition of a shell holds. -/
def inShell (args : List String) : m (Answer Bool) := do
  if args.isEmpty then return .ok false
  let (kind, args) : Kind × List String :=
    match args with
    | [a, operator, b] =>
      if plainKind operator == .relation then (.operand, args)
      else if a == "(" && b == ")" then (kindOf [operator], [operator])
      else if a == "!" then (.negation, args)
      else (kindOf args, args)
    | ["(", a, b, ")"] => (kindOf [a, b], [a, b])
    | "!" :: _ :: _ :: _ :: [] => (.negation, args)
    | args => (kindOf args, args)
  match ← alternatives (8 * args.length + 8) kind args with
  | .error f => return .error f
  | .ok (yes, rest) =>
    match rest with
    | a :: _ :: _ => return .error s!"{a}: unexpected operator"
    | _ => return .ok yes

end DeviceApi.Command.Condition
