import DeviceApi.Number.Binary64

/-!
# Padded and rounded numbers
-/

namespace DeviceApi

/-! ## Padded numbers -/

/-- A number padded with zeros to a least number of digits. -/
def paddedNat (width n : Nat) : String :=
  let digits := toString n
  String.ofList (List.replicate (width - digits.length) '0') ++ digits

end DeviceApi

/-!
## Rounded decimal text

A number with a stated count of decimals or of significant digits. The exact value is rounded,
and a tie goes to the even neighbour.
-/

namespace DeviceApi.Rounded

/-- Digits with a point in front of the last ones. The point stays without a digit behind it
if `keepPoint` holds. -/
def withPoint (keepPoint : Bool) (decimals n : Nat) : List Char :=
  let digits := (paddedNat (decimals + 1) n).toList
  let whole := digits.take (digits.length - decimals)
  if decimals = 0 && !keepPoint then whole
  else whole ++ '.' :: digits.drop (digits.length - decimals)

/-- A ratio with a count of decimals. -/
def fixed (keepPoint : Bool) (decimals num den : Nat) : List Char :=
  withPoint keepPoint decimals (Binary64.divideToEven (num * Nat.pow 10 decimals) den)

/-- A ratio divided by a power of ten, rounded to an integer. -/
def scaled (num den : Nat) (exponent : Int) : Nat :=
  if 0 ≤ exponent then Binary64.divideToEven num (den * Nat.pow 10 exponent.toNat)
  else Binary64.divideToEven (num * Nat.pow 10 (-exponent).toNat) den

/-- The first digits of a positive ratio, as many as stated, and the decimal exponent of the
first of them. Rounding may lead to the next power of ten. -/
def leading (count num den : Nat) : Nat × Int :=
  if num = 0 then (0, 0)
  else
    let estimate : Int := (Nat.toDigits 10 num).length - (Nat.toDigits 10 den).length
    let exponent :=
      if Nat.pow 10 (estimate.toNat) * den ≤ num * Nat.pow 10 ((-estimate).toNat) then estimate
      else estimate - 1
    let digits := scaled num den (exponent - (count - 1 : Nat))
    if digits = Nat.pow 10 count then (Nat.pow 10 (count - 1), exponent + 1) else (digits, exponent)

/-- An exponent with its sign and at least two digits. -/
def exponentText (exponent : Int) : List Char :=
  'e' :: (if exponent < 0 then '-' else '+') :: (paddedNat 2 exponent.natAbs).toList

/-- A ratio as one digit, a count of decimals and an exponent. -/
def scientific (keepPoint : Bool) (decimals num den : Nat) : List Char :=
  let (digits, exponent) := leading (decimals + 1) num den
  withPoint keepPoint decimals digits ++ exponentText exponent

/-- Digits with a point without the zeros at their end. -/
def withoutZeros (cs : List Char) : List Char :=
  if cs.contains '.' then
    match cs.reverse.dropWhile (· == '0') with
    | '.' :: rest => rest.reverse
    | rest => rest.reverse
  else cs

/-- A ratio with a count of significant digits, with an exponent only if it is far from one.
Zeros at the end are left out unless `keepPoint` holds. -/
def general (keepPoint : Bool) (count num den : Nat) : List Char :=
  let count := max count 1
  let (digits, exponent) := leading count num den
  let trimmed (cs : List Char) : List Char := if keepPoint then cs else withoutZeros cs
  if -4 ≤ exponent ∧ exponent < count then
    trimmed (fixed keepPoint (count - 1 - exponent).toNat num den)
  else trimmed (withPoint keepPoint (count - 1) digits) ++ exponentText exponent

/-- The sign of a number and the text of its magnitude, given how to write a ratio. -/
def signed (write : (num den : Nat) → List Char) : Binary64 → Bool × List Char
  | .nan => (false, ['n', 'a', 'n'])
  | .infinity negative => (negative, ['i', 'n', 'f'])
  | .finite negative mantissa exponent =>
    let (num, den) := Binary64.ratio false mantissa exponent
    (negative, write num.natAbs den)

end DeviceApi.Rounded
