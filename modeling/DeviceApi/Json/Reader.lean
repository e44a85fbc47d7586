import DeviceApi.Document.Tree
import DeviceApi.Fault
import DeviceApi.Text.Code
import DeviceApi.Text.Encoding

/-!
# Reading JSON

Besides the standard values the names of the two infinities and of the undefined number are
read. A number with a point or an exponent is a binary number, any other an integer. Of a
repeated key the first place and the last value count.
-/

namespace DeviceApi.Json

/-- The text behind white space. -/
def skipBlanks : List Char → List Char :=
  List.dropWhile fun c => c == ' ' || c == '\t' || c == '\n' || c == '\r'

/-- The text behind a word at its front. -/
def dropWord? : (word text : List Char) → Option (List Char)
  | [], text => some text
  | _ :: _, [] => none
  | w :: word, c :: text => if w = c then dropWord? word text else none

/-- The value of digits. -/
def digitsValue (digits : List Char) : Nat :=
  digits.foldl (fun n c => 10 * n + (c.toNat - '0'.toNat)) 0

/-- The fraction digits behind a point, if there are any, and the rest. -/
def takeFraction : List Char → Option (List Char × List Char)
  | '.' :: rest =>
    let digits := rest.takeWhile Char.isDigit
    if digits.isEmpty then none else some (digits, rest.dropWhile Char.isDigit)
  | _ => none

/-- The exponent, if there is one, and the rest. -/
def takeExponent : List Char → Option (Int × List Char)
  | e :: rest =>
    if e = 'e' ∨ e = 'E' then
      let (negative, digits) := match rest with
        | '-' :: more => (true, more)
        | '+' :: more => (false, more)
        | more => (false, more)
      let run := digits.takeWhile Char.isDigit
      if run.isEmpty then none
      else
        let n : Int := digitsValue run
        some (if negative then -n else n, digits.dropWhile Char.isDigit)
    else none
  | [] => none

/-- Why a text has no tree. -/
inductive Failure where
  /-- The text is not JSON. -/
  | malformed
  /-- The text is JSON as far as it has been read, but states a value that there is not. -/
  | unfit (m : Misfit)
  deriving DecidableEq, Repr

/-- The integer of digits. -/
def integer (negative : Bool) (digits : List Char) : Except Failure Scalar :=
  if Numeral.maxDigits < digits.length then .error (.unfit .badContent)
  else
    let n : Int := digitsValue digits
    .ok (.int (if negative then -n else n))

/-- A number whose sign has been read. -/
def readNumber (negative : Bool) (cs : List Char) : Except Failure (Scalar × List Char) := do
  let (whole, rest) ← match cs with
    | '0' :: rest => pure (['0'], rest)
    | c :: _ =>
      if c.isDigit then pure (cs.takeWhile Char.isDigit, cs.dropWhile Char.isDigit)
      else throw .malformed
    | [] => throw .malformed
  let (fraction, afterFraction) := match takeFraction rest with
    | some (digits, after) => (some digits, after)
    | none => (none, rest)
  let (exponent, after) := match takeExponent afterFraction with
    | some (n, after) => (some n, after)
    | none => (none, afterFraction)
  match fraction, exponent with
  | none, none => return (← integer negative whole, after)
  | _, _ =>
    let digits := fraction.getD []
    let value := Binary64.ofDecimal negative (digitsValue (whole ++ digits))
      (exponent.getD 0 - digits.length)
    return (.real value, after)

/-- The code unit of four hexadecimal digits. -/
def readUnit : List Char → Option (Nat × List Char)
  | a :: b :: c :: d :: rest => do
    let a ← Text.hexValue? a
    let b ← Text.hexValue? b
    let c ← Text.hexValue? c
    let d ← Text.hexValue? d
    return (((a * 16 + b) * 16 + c) * 16 + d, rest)
  | _ => none

/-- The characters of a text up to its closing quote. -/
def readChars : (fuel : Nat) → List Char → Option (List Char × List Char)
  | 0, _ => none
  | fuel + 1, cs =>
    match cs with
    | [] => none
    | '"' :: rest => some ([], rest)
    | '\\' :: 'u' :: rest => do
      let (n, rest) ← readUnit rest
      let pair : Option (Nat × List Char) :=
        if Text.isFirstHalf n then
          match rest with
          | '\\' :: 'u' :: more => do
            let (low, more) ← readUnit more
            if Text.isSecondHalf low then some (low, more) else none
          | _ => none
        else none
      match pair with
      | some (low, more) =>
        let (text, rest) ← readChars fuel more
        return (Text.joinCodes n low :: text, rest)
      | none =>
        let (text, rest) ← readChars fuel rest
        return (Text.charOfCode n :: text, rest)
    | '\\' :: e :: rest => do
      let c ← match e with
        | '"' => some '"'
        | '\\' => some '\\'
        | '/' => some '/'
        | 'b' => some '\x08'
        | 'f' => some '\x0c'
        | 'n' => some '\n'
        | 'r' => some '\r'
        | 't' => some '\t'
        | _ => none
      let (text, rest) ← readChars fuel rest
      return (c :: text, rest)
    | c :: rest =>
      if c.toNat < 0x20 ∨ c = '\\' then none
      else do
        let (text, rest) ← readChars fuel rest
        return (c :: text, rest)

/-- A text behind its opening quote. -/
def readText (cs : List Char) : Except Failure (String × List Char) :=
  match readChars (cs.length + 1) cs with
  | some (chars, rest) => .ok (String.ofList chars, rest)
  | none => .error .malformed

/-- A value that begins with a letter, a digit or a sign. -/
def readPlain (cs : List Char) : Except Failure (Scalar × List Char) :=
  let names : List (String × Scalar) :=
    [("null", .null), ("true", .bool true), ("false", .bool false), ("NaN", .real .nan),
     ("Infinity", .real (.infinity false)), ("-Infinity", .real (.infinity true))]
  match names.findSome? fun (name, s) => (dropWord? name.toList cs).map fun rest => (s, rest) with
  | some found => .ok found
  | none =>
    match cs with
    | '-' :: rest => readNumber true rest
    | _ => readNumber false cs

/-- The greatest number of brackets that stand inside of each other. -/
def maxDepth : Nat := 990

/-- The depth inside of one more bracket. -/
def deeper (depth : Nat) : Except Failure Nat :=
  if depth < maxDepth then .ok (depth + 1) else .error (.unfit .endless)

mutual

/-- A value at a depth, white space in front of it skipped. -/
def readValue : (fuel : Nat) → (depth : Nat) → List Char → Except Failure (Tree × List Char)
  | 0, _, _ => .error .malformed
  | fuel + 1, depth, cs =>
    match skipBlanks cs with
    | '"' :: rest => do
      let (s, rest) ← readText rest
      return (.text s, rest)
    | '[' :: rest => do
      let depth ← deeper depth
      match skipBlanks rest with
      | ']' :: rest => return (.list [], rest)
      | rest =>
        let (items, rest) ← readItems fuel depth rest
        return (.list items, rest)
    | '\x7b' :: rest => do
      let depth ← deeper depth
      match skipBlanks rest with
      | '\x7d' :: rest => return (.object [], rest)
      | rest =>
        let (pairs, rest) ← readMembers fuel depth rest
        return (.object (Entries.ofPairs pairs), rest)
    | rest => do
      let (s, rest) ← readPlain rest
      return (.scalar s, rest)

/-- The items of a list that has some. -/
def readItems : (fuel : Nat) → (depth : Nat) → List Char →
    Except Failure (List Tree × List Char)
  | 0, _, _ => .error .malformed
  | fuel + 1, depth, cs => do
    let (item, rest) ← readValue fuel depth cs
    match skipBlanks rest with
    | ',' :: rest =>
      let (items, rest) ← readItems fuel depth rest
      return (item :: items, rest)
    | ']' :: rest => return ([item], rest)
    | _ => throw .malformed

/-- The members of an object that has some. -/
def readMembers : (fuel : Nat) → (depth : Nat) → List Char →
    Except Failure (List (Scalar × Tree) × List Char)
  | 0, _, _ => .error .malformed
  | fuel + 1, depth, cs =>
    match skipBlanks cs with
    | '"' :: rest => do
      let (key, rest) ← readText rest
      match skipBlanks rest with
      | ':' :: rest =>
        let (value, rest) ← readValue fuel depth rest
        match skipBlanks rest with
        | ',' :: rest =>
          let (members, rest) ← readMembers fuel depth rest
          return ((.text key, value) :: members, rest)
        | '\x7d' :: rest => return ([(.text key, value)], rest)
        | _ => throw .malformed
      | _ => throw .malformed
    | _ => .error .malformed

end

/-- The tree of a JSON text with nothing but white space behind it. -/
def read (text : String) : Except Failure Tree := do
  let cs := text.toList
  let (t, rest) ← readValue (2 * cs.length + 2) 0 cs
  if (skipBlanks rest).isEmpty then return t else throw .malformed

end DeviceApi.Json
