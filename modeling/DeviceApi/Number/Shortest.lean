import DeviceApi.Number.Binary64

/-!
# Shortest decimal text of a number

A finite number is written with the fewest significant digits that read back as
the same number, and among those with the digits nearest to it. The choice of
digits is independent of the way in which they are then laid out.
-/

namespace DeviceApi

namespace Binary64

/-- A value together with the ends of the interval of reals that round to it,
over a common denominator. -/
structure Interval where
  value : Nat
  low : Nat
  high : Nat
  den : Nat
  /-- Whether the ends themselves round to the value. -/
  closed : Bool

/-- The rounding interval of `mantissa * 2 ^ exponent`. Below a power of two the
neighbour is nearer by half. -/
def interval (mantissa : Nat) (exponent : Int) : Interval :=
  let below := if mantissa = Nat.pow 2 fractionBits ∧ minExponent < exponent then 1 else 2
  let scale := if 2 ≤ exponent then Nat.pow 2 (exponent - 2).toNat else 1
  { value := 4 * mantissa * scale
    low := (4 * mantissa - below) * scale
    high := (4 * mantissa + 2) * scale
    den := if 2 ≤ exponent then 1 else Nat.pow 2 (2 - exponent).toNat
    closed := mantissa % 2 = 0 }

/-- The decimal exponent of the leading digit of the positive ratio `num / den`. -/
def leadingExponent (num den : Nat) : Int :=
  if den ≤ num then (digitCount (num / den) : Int) - 1
  else
    let places := digitCount (den / num)
    if den ≤ num * Nat.pow 10 (places - 1) then 1 - (places : Int) else -(places : Int)

/-- The interval measured in units of `10 ^ exponent`. -/
def Interval.inUnits (i : Interval) (exponent : Int) : Interval :=
  if 0 ≤ exponent then { i with den := i.den * Nat.pow 10 exponent.toNat }
  else
    let scale := Nat.pow 10 (-exponent).toNat
    { i with value := i.value * scale, low := i.low * scale, high := i.high * scale }

/-- Whether the natural number `n` lies in the interval. -/
def Interval.holds (i : Interval) (n : Nat) : Bool :=
  if i.closed then i.low ≤ n * i.den && n * i.den ≤ i.high
  else i.low < n * i.den && n * i.den < i.high

/-- The natural number nearest to the value among those in the interval, looking
only at the two neighbours of the value; a tie goes to the even one. -/
def Interval.nearest? (i : Interval) : Option Nat :=
  let below := i.value / i.den
  let above := below + 1
  match i.holds below, i.holds above with
  | false, false => none
  | true, false => some below
  | false, true => some above
  | true, true =>
    let twice := 2 * (i.value % i.den)
    if twice < i.den then some below
    else if i.den < twice then some above
    else if below % 2 = 0 then some below else some above

/-- Searches the grids of `count`, `count + 1`, … significant digits for a number in
the interval, and answers it with the exponent of its last digit. -/
def searchDigits (i : Interval) (leading : Int) : (fuel count : Nat) → Nat × Int
  | 0, count =>
    let unit := leading - count + 1
    ((i.inUnits unit).value / (i.inUnits unit).den, unit)
  | fuel + 1, count =>
    let unit := leading - count + 1
    match (i.inUnits unit).nearest? with
    | some digits => (digits, unit)
    | none => searchDigits i leading fuel (count + 1)

/-- Moves zeros at the end of the digits into the exponent. -/
def dropTrailingZeros : (fuel : Nat) → Nat → Int → Nat × Int
  | 0, digits, exponent => (digits, exponent)
  | fuel + 1, digits, exponent =>
    if digits ≠ 0 ∧ digits % 10 = 0 then dropTrailingZeros fuel (digits / 10) (exponent + 1)
    else (digits, exponent)

/-- The fewest digits that read back, with the exponent of the last of them.
Seventeen digits are always enough. -/
def shortestDigits (mantissa : Nat) (exponent : Int) : Nat × Int :=
  let i := interval mantissa exponent
  let (digits, unit) := searchDigits i (leadingExponent i.value i.den) 17 1
  dropTrailingZeros 20 digits unit

end Binary64

/-- How the digits of a number are laid out. -/
structure RealFormat where
  /-- Least exponent of the leading digit that is still written positionally. -/
  positionalFrom : Int
  /-- Least exponent of the leading digit that is written with an exponent again. -/
  positionalBelow : Int
  /-- Digits that an exponent has at least. -/
  exponentDigits : Nat
  /-- Whether a lone digit in front of an exponent is followed by a point and a zero. -/
  pointBeforeExponent : Bool
  nan : String
  infinity : String
  negativeInfinity : String

namespace RealFormat

/-- The exponent with its sign, padded with zeros to the least number of digits. -/
def exponentText (f : RealFormat) (exponent : Int) : String :=
  let digits := toString exponent.natAbs
  let padding := String.ofList (List.replicate (f.exponentDigits - digits.length) '0')
  (if exponent < 0 then "-" else "+") ++ padding ++ digits

/-- The text of `digits * 10 ^ exponent`. -/
def layOut (f : RealFormat) (digits : Nat) (exponent : Int) : String :=
  let text := (toString digits).toList
  let leading := exponent + text.length - 1
  if f.positionalFrom ≤ leading ∧ leading < f.positionalBelow then
    if leading < 0 then
      String.ofList ("0.".toList ++ List.replicate ((-leading).toNat - 1) '0' ++ text)
    else if exponent < 0 then
      let whole := leading.toNat + 1
      String.ofList (text.take whole ++ '.' :: text.drop whole)
    else String.ofList (text ++ List.replicate exponent.toNat '0' ++ ".0".toList)
  else
    let fraction := match text.drop 1 with
      | [] => if f.pointBeforeExponent then ".0" else ""
      | rest => String.ofList ('.' :: rest)
    String.ofList (text.take 1) ++ fraction ++ "e" ++ f.exponentText leading

/-- The text of a number. -/
def text (f : RealFormat) : Binary64 → String
  | .nan => f.nan
  | .infinity negative => if negative then f.negativeInfinity else f.infinity
  | .finite negative mantissa exponent =>
    let sign := if negative then "-" else ""
    if mantissa = 0 then sign ++ "0.0"
    else
      let (digits, unit) := Binary64.shortestDigits mantissa exponent
      sign ++ f.layOut digits unit

end RealFormat

/-! ## Text of the real numbers of documents -/

/-- Numbers in JSON text: positional from `1e-04` up to below `1e+16`, an exponent has a
sign and at least two digits. -/
def jsonReal : RealFormat :=
  { positionalFrom := -4, positionalBelow := 16, exponentDigits := 2, pointBeforeExponent := false
    nan := "NaN", infinity := "Infinity", negativeInfinity := "-Infinity" }

/-- Numbers in YAML text: as in JSON text, but an exponent always follows a point. -/
def yamlReal : RealFormat :=
  { jsonReal with
    pointBeforeExponent := true, nan := ".nan", infinity := ".inf", negativeInfinity := "-.inf" }

/-- Numbers in messages. -/
def messageReal : RealFormat :=
  { jsonReal with nan := "nan", infinity := "inf", negativeInfinity := "-inf" }

end DeviceApi
