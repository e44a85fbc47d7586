import DeviceApi.Number.Binary64
import DeviceApi.Text.CharRange
import DeviceApi.Text.Encoding

/-!
# Numerals

Numbers written by people: blanks around them do not count, and the decimal digits of all
scripts are read.
-/

namespace DeviceApi.Numeral

/-- The sign in front of a numeral and what follows it. -/
def signOf : List Char → Bool × List Char
  | '-' :: rest => (true, rest)
  | '+' :: rest => (false, rest)
  | cs => (false, cs)

/-- The value of a digit in a base of at most sixteen. -/
def digitValue? (base : Nat) (c : Char) : Option Nat :=
  (Text.decimalValue? c <|> Text.hexValue? c).filter (· < base)

/-- The value of a run of at least one digit. -/
def natural? (base : Nat) (cs : List Char) : Option Nat :=
  if cs.isEmpty then none
  else cs.foldlM (fun n c => (digitValue? base c).map fun d => base * n + d) 0

/-- The letter that may announce a base behind a leading zero. -/
def baseLetter? : Nat → Option Char
  | 2 => some 'b'
  | 8 => some 'o'
  | 16 => some 'x'
  | _ => none

/-- A numeral without the announcement of its base. -/
def withoutBaseLetter (base : Nat) : List Char → List Char
  | '0' :: c :: rest =>
    if baseLetter? base == some c.toLower then rest else '0' :: c :: rest
  | cs => cs

/-- The greatest number of digits of a decimal integer that is read or written. -/
def maxDigits : Nat := 4300

/-- Whether an integer has few enough digits to be written in decimal. -/
def hasDecimalText (i : Int) : Bool :=
  i.natAbs < Nat.pow 2 64 || decide (i.natAbs < Nat.pow 10 maxDigits)

/-- The integer of a numeral. -/
def integer? (base : Nat) (cs : List Char) : Option Int :=
  let (negative, cs) := signOf (Text.trim cs)
  let digits := withoutBaseLetter base cs
  if base = 10 ∧ maxDigits < digits.length then none
  else (natural? base digits).map fun n => if negative then -(n : Int) else n

/-- The exponent at the end of a numeral; without one it is zero. -/
def exponent? : List Char → Option Int
  | [] => some 0
  | c :: rest =>
    if c == 'e' || c == 'E' then
      let (negative, digits) := signOf rest
      (natural? 10 digits).map fun n => if negative then -(n : Int) else n
    else none

/-- The number nearest to a decimal numeral without a sign, or what a word stands for. -/
def unsignedReal? (negative : Bool) (cs : List Char) : Option Binary64 :=
  let lowered := String.ofList (cs.map Char.toLower)
  if lowered == "inf" || lowered == "infinity" then some (.infinity negative)
  else if lowered == "nan" then some .nan
  else do
    let isDigit (c : Char) : Bool := (Text.decimalValue? c).isSome
    let whole := cs.takeWhile isDigit
    let rest := cs.dropWhile isDigit
    let (fraction, rest) := match rest with
      | '.' :: rest => (rest.takeWhile isDigit, rest.dropWhile isDigit)
      | _ => ([], rest)
    let digits ← natural? 10 (whole ++ fraction)
    let exponent ← exponent? rest
    return .ofDecimal negative digits (exponent - fraction.length)

/-- The number nearest to a numeral. -/
def real? (cs : List Char) : Option Binary64 :=
  let (negative, cs) := signOf (Text.trim cs)
  unsignedReal? negative cs

end DeviceApi.Numeral
