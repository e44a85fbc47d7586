/-!
# Arithmetic of the shell

Numbers are taken modulo two to the power of 64. A variable without a value counts as zero. What
the outcome does not depend on is read, but not computed.
-/

namespace DeviceApi.Command.Shell.Arithmetic

/-- Why there is no outcome. -/
inductive Fault where
  /-- Something is wrong with the expression. -/
  | expression (what : String)
  | illegalNumber (text : String)
  deriving DecidableEq, Repr

/-- The message about an expression. -/
def Fault.message (text : String) : Fault → String
  | expression what => s!"arithmetic expression: {what}: \"{text}\""
  | illegalNumber number => s!"Illegal number: {number}"

/-- The smallest parts of an expression. -/
inductive Token where
  | number (i : Int)
  | variableName (name : String)
  | operator (text : String)
  deriving DecidableEq, Repr

/-- A number in the range of 64 bits. -/
def wrap (i : Int) : Int := (i + Int.pow 2 63) % Int.pow 2 64 - Int.pow 2 63

/-- The digit that a character is, in bases up to sixteen. -/
def digit? (base : Nat) (c : Char) : Option Nat :=
  let value? := if c.isDigit then some (c.toNat - '0'.toNat)
    else if 'a' ≤ c.toLower && c.toLower ≤ 'f' then some (c.toLower.toNat - 'a'.toNat + 10)
    else none
  value?.filter (· < base)

/-- The number at the front, and what follows it. Numbers that are too large are cut off. -/
def numberAt (cs : List Char) : Int × List Char :=
  let (base, cs) : Nat × List Char := match cs with
    | '0' :: x :: d :: _ =>
      if (x == 'x' || x == 'X') && (digit? 16 d).isSome then (16, cs.drop 2) else (8, cs)
    | '0' :: _ => (8, cs)
    | _ => (10, cs)
  let digits := cs.takeWhile fun c => (digit? base c).isSome
  let n := digits.foldl (fun n c => base * n + (digit? base c).getD 0) 0
  (min (n : Int) (Int.pow 2 63 - 1), cs.drop digits.length)

/-- The operators, longer ones before shorter ones that they begin with. -/
def operators : List String :=
  ["<<=", ">>=", "<<", ">>", "<=", ">=", "==", "!=", "&&", "||", "+=", "-=", "*=", "/=", "%=",
   "&=", "|=", "^="]

/-- Whether a character may stand in a name. -/
def isNameChar (c : Char) : Bool := c.isAlphanum || c == '_'

/-- The parts of an expression. -/
def tokens : (fuel : Nat) → List Char → List Token
  | 0, _ => []
  | fuel + 1, cs =>
    match cs with
    | [] => []
    | c :: rest =>
      if c == ' ' || c == '\t' || c == '\n' then tokens fuel rest
      else if c.isDigit then
        let (i, rest) := numberAt cs
        .number i :: tokens fuel rest
      else if isNameChar c then
        let name := cs.takeWhile isNameChar
        .variableName (String.ofList name) :: tokens fuel (cs.drop name.length)
      else
        match operators.find? fun o => o.toList.isPrefixOf cs with
        | some o => .operator o :: tokens fuel (cs.drop o.length)
        | none => .operator (.singleton c) :: tokens fuel rest

/-- The values of variables, and what has been assigned. -/
structure State where
  tokens : List Token
  /-- The assignments, the last one first. -/
  assigned : List (String × Int) := []

/-- A computation with the rest of an expression. -/
abbrev Calculation := StateT State (Except Fault)

/-- The value of a text that a variable has. -/
def valueOf (text : String) : Except Fault Int :=
  let isBlank (c : Char) : Bool := c == ' ' || c == '\t' || c == '\n'
  let cs := text.toList.dropWhile isBlank
  let (sign, digits) : Int × List Char := match cs with
    | '-' :: rest => (-1, rest)
    | '+' :: rest => (1, rest)
    | _ => (1, cs)
  if cs.isEmpty then .ok 0
  else
    let (i, rest) := numberAt digits
    if rest.length = digits.length || !rest.all isBlank then .error (.illegalNumber text)
    else .ok (sign * i)

/-- The value of a variable. -/
def lookup (values : String → Option String) (name : String) : Calculation Int := do
  match (← get).assigned.lookup name with
  | some i => return i
  | none => valueOf ((values name).getD "")

/-- Goes behind a token. -/
def pass : Calculation Unit := modify fun s => { s with tokens := s.tokens.drop 1 }

/-- Whether the next token is an operator, which is then passed over. -/
def passes (text : String) : Calculation Bool := do
  let found := (← get).tokens.head? == some (.operator text)
  if found then pass
  return found

/-- The operators of two numbers with their ranks; those of lower rank bind closer. -/
def ranks : List (String × Nat) :=
  [("*", 0), ("/", 0), ("%", 0), ("+", 1), ("-", 1), ("<<", 2), (">>", 2), ("<", 3), ("<=", 3),
   (">", 3), (">=", 3), ("==", 4), ("!=", 4), ("&", 5), ("^", 6), ("|", 7)]

/-- A truth value as a number. -/
def ofBool (b : Bool) : Int := if b then 1 else 0

/-- Two numbers combined bit by bit. -/
def bitwise (f : UInt64 → UInt64 → UInt64) (a b : Int) : Int :=
  let bits (i : Int) : UInt64 := UInt64.ofNat (i % Int.pow 2 64).toNat
  wrap (f (bits a) (bits b)).toNat

/-- Two numbers combined by an operator. -/
def combine (operator : String) (a b : Int) : Except Fault Int :=
  match operator with
  | "*" => .ok (wrap (a * b))
  | "/" => if b = 0 then .error (.expression "division by zero") else .ok (wrap (a.tdiv b))
  | "%" => if b = 0 then .error (.expression "division by zero") else .ok (wrap (a.tmod b))
  | "+" => .ok (wrap (a + b))
  | "-" => .ok (wrap (a - b))
  | "<<" => .ok (wrap (a * Int.pow 2 (b % 64).toNat))
  | ">>" => .ok (wrap (a / Int.pow 2 (b % 64).toNat))
  | "<" => .ok (ofBool (a < b))
  | "<=" => .ok (ofBool (a ≤ b))
  | ">" => .ok (ofBool (a > b))
  | ">=" => .ok (ofBool (a ≥ b))
  | "==" => .ok (ofBool (a == b))
  | "!=" => .ok (ofBool (a != b))
  | "&" => .ok (bitwise (· &&& ·) a b)
  | "^" => .ok (bitwise (· ^^^ ·) a b)
  | _ => .ok (bitwise (· ||| ·) a b)

/-- The operator that an assignment applies first, if the token is an assignment. -/
def assignment? : Token → Option (Option String)
  | .operator "=" => some none
  | .operator text =>
    if ["==", "!=", "<=", ">="].contains text then none
    else
      match text.toList.reverse with
      | '=' :: rest => some (some (String.ofList rest.reverse))
      | _ => none
  | _ => none

mutual

/-- Reads an assignment, or a choice between two expressions. -/
def expression (values : String → Option String) : (fuel : Nat) → (live : Bool) →
    Calculation Int
  | 0, _ => throw (.expression "expecting primary")
  | fuel + 1, live => do
    match (← get).tokens with
    | .variableName name :: t :: rest =>
      match assignment? t with
      | some operator =>
        modify fun s => { s with tokens := rest }
        let value ← expression values fuel live
        if !live then return value
        let value ← match operator with
          | some o => do combine o (← lookup values name) value
          | none => pure value
        modify fun s => { s with assigned := (name, value) :: s.assigned }
        return value
      | none => choice values fuel live
    | _ => choice values fuel live

/-- Reads a choice between two expressions. -/
def choice (values : String → Option String) : (fuel : Nat) → (live : Bool) → Calculation Int
  | 0, _ => throw (.expression "expecting primary")
  | fuel + 1, live => do
    let a ← disjunction values fuel live
    if !(← passes "?") then return a
    let b ← expression values fuel (live && a ≠ 0)
    if !(← passes ":") then throw (.expression "expecting ':'")
    let c ← choice values fuel (live && a = 0)
    return if a ≠ 0 then b else c

/-- Reads expressions of which one has to hold. -/
def disjunction (values : String → Option String) : (fuel : Nat) → (live : Bool) →
    Calculation Int
  | 0, _ => throw (.expression "expecting primary")
  | fuel + 1, live => do
    let a ← conjunction values fuel live
    if !(← passes "||") then return a
    let b ← disjunction values fuel (live && a = 0)
    return ofBool (a ≠ 0 || b ≠ 0)

/-- Reads expressions all of which have to hold. -/
def conjunction (values : String → Option String) : (fuel : Nat) → (live : Bool) →
    Calculation Int
  | 0, _ => throw (.expression "expecting primary")
  | fuel + 1, live => do
    let first ← primary values fuel live
    let a ← combined values fuel live 8 first
    if !(← passes "&&") then return a
    let b ← conjunction values fuel (live && a ≠ 0)
    return ofBool (a ≠ 0 && b ≠ 0)

/-- Reads operators of a rank below a given one with the numbers behind them. -/
def combined (values : String → Option String) : (fuel : Nat) → (live : Bool) →
    (rank : Nat) → Int → Calculation Int
  | 0, _, _, _ => throw (.expression "expecting primary")
  | fuel + 1, live, rank, a => do
    match (← get).tokens.head? with
    | some (.operator o) =>
      match ranks.lookup o with
      | some r =>
        if r < rank then
          pass
          let b ← combined values fuel live r (← primary values fuel live)
          let c ← if live then combine o a b else pure b
          combined values fuel live rank c
        else return a
      | none => return a
    | _ => return a

/-- Reads a number, a variable or an expression in parentheses, with signs in front. -/
def primary (values : String → Option String) : (fuel : Nat) → (live : Bool) → Calculation Int
  | 0, _ => throw (.expression "expecting primary")
  | fuel + 1, live => do
    let t := (← get).tokens.head?
    pass
    match t with
    | some (.number i) => return i
    | some (.variableName name) => if live then lookup values name else return 0
    | some (.operator "(") =>
      let a ← expression values fuel live
      if !(← passes ")") then throw (.expression "expecting ')'")
      return a
    | some (.operator "+") => primary values fuel live
    | some (.operator "-") => return wrap (-(← primary values fuel live))
    | some (.operator "!") => return ofBool ((← primary values fuel live) = 0)
    | some (.operator "~") => return -(← primary values fuel live) - 1
    | _ => throw (.expression "expecting primary")

end

/-- The value of an expression, and what has been assigned in order. -/
def evaluate (values : String → Option String) (text : String) :
    Except Fault (Int × List (String × Int)) := do
  let ts := tokens (text.length + 1) text.toList
  let (value, s) ← (expression values (8 * ts.length + 16) true).run { tokens := ts }
  if s.tokens.isEmpty then return (value, s.assigned.reverse)
  else throw (.expression "expecting EOF")

end DeviceApi.Command.Shell.Arithmetic
