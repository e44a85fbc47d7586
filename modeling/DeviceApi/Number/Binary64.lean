/-!
# Binary floating-point numbers

A number of a document that is written with a point or an exponent is held in
the 64-bit binary format, as a sign, a mantissa and a power of two. Every
operation is exact natural-number arithmetic followed by one rounding, to the
nearest number of the format and to the even mantissa at a tie.
-/

namespace DeviceApi

/-- A number of the 64-bit binary format. A finite number stands for
`mantissa * 2 ^ exponent` with its sign, and zero keeps its sign. -/
inductive Binary64 where
  | nan
  | infinity (negative : Bool)
  | finite (negative : Bool) (mantissa : Nat) (exponent : Int)
  deriving DecidableEq, Repr

namespace Binary64

/-- Number of mantissa bits behind the leading one. -/
def fractionBits : Nat := 52

/-- Exponent of the smallest positive number. -/
def minExponent : Int := -1074

/-- Largest exponent of a finite number. -/
def maxExponent : Int := 971

/-- The quotient rounded to the nearest natural number, a tie to the even one. -/
def divideToEven (num den : Nat) : Nat :=
  let quotient := num / den
  let twice := 2 * (num % den)
  if twice < den then quotient
  else if den < twice then quotient + 1
  else if quotient % 2 = 0 then quotient else quotient + 1

/-- The quotient of `num` by `den * 2 ^ exponent`, rounded to even at a tie. -/
def scaledQuotient (num den : Nat) (exponent : Int) : Nat :=
  if 0 ≤ exponent then divideToEven num (den * Nat.pow 2 exponent.toNat)
  else divideToEven (num * Nat.pow 2 (-exponent).toNat) den

/-- The exponent at which the ratio `num / den` has a mantissa of full length. -/
def fullExponent (num den : Nat) : Int :=
  let guess := (num.log2 : Int) - den.log2 - fractionBits
  let short :=
    if 0 ≤ guess then num < den * Nat.pow 2 fractionBits * Nat.pow 2 guess.toNat
    else num * Nat.pow 2 (-guess).toNat < den * Nat.pow 2 fractionBits
  if short then guess - 1 else guess

/-- The number nearest to `num / den`. -/
def ofRatio (negative : Bool) (num den : Nat) : Binary64 :=
  if num = 0 then .finite negative 0 0
  else
    let exponent := max (fullExponent num den) minExponent
    let mantissa := scaledQuotient num den exponent
    if mantissa = 0 then .finite negative 0 0
    else
      let carried := mantissa = Nat.pow 2 (fractionBits + 1)
      let mantissa := if carried then Nat.pow 2 fractionBits else mantissa
      let exponent := if carried then exponent + 1 else exponent
      if maxExponent < exponent then .infinity negative
      else .finite negative mantissa exponent

/-- Number of decimal digits of a natural number; zero has one. -/
def digitCount (n : Nat) : Nat := (Nat.toDigits 10 n).length

/-- The number nearest to `digits * 10 ^ exponent`. Powers far outside of the
format are answered without computing them. -/
def ofDecimal (negative : Bool) (digits : Nat) (exponent : Int) : Binary64 :=
  if digits = 0 then .finite negative 0 0
  else
    let magnitude := (digitCount digits : Int) + exponent
    if 320 < magnitude then .infinity negative
    else if magnitude < -340 then .finite negative 0 0
    else if 0 ≤ exponent then ofRatio negative (digits * Nat.pow 10 exponent.toNat) 1
    else ofRatio negative digits (Nat.pow 10 (-exponent).toNat)

/-- The exact value of a finite number as numerator and positive denominator. -/
def ratio (negative : Bool) (mantissa : Nat) (exponent : Int) : Int × Nat :=
  let signed : Int := if negative then -(mantissa : Int) else mantissa
  if 0 ≤ exponent then (signed * Int.pow 2 exponent.toNat, 1) else (signed, Nat.pow 2 (-exponent).toNat)

/-- The number nearest to an exact ratio; a zero is positive. -/
def ofSigned (num : Int) (den : Nat) : Binary64 := ofRatio (decide (num < 0)) num.natAbs den

/-- The number nearest to an integer. -/
def ofInt (i : Int) : Binary64 := ofSigned i 1

/-- Sign reversal. -/
def neg : Binary64 → Binary64
  | .nan => .nan
  | .infinity negative => .infinity (!negative)
  | .finite negative mantissa exponent => .finite (!negative) mantissa exponent

/-- The rounded sum. -/
def add : Binary64 → Binary64 → Binary64
  | .nan, _ | _, .nan => .nan
  | .infinity a, .infinity b => if a = b then .infinity a else .nan
  | .infinity a, .finite .. | .finite .., .infinity a => .infinity a
  | .finite a m e, .finite b n f =>
    if m = 0 ∧ n = 0 then .finite (a && b) 0 0
    else
      let (p, d) := ratio a m e
      let (q, c) := ratio b n f
      ofSigned (p * c + q * d) (d * c)

/-- The rounded product. -/
def mul : Binary64 → Binary64 → Binary64
  | .nan, _ | _, .nan => .nan
  | .infinity a, .infinity b => .infinity (a != b)
  | .infinity a, .finite b m _ | .finite b m _, .infinity a =>
    if m = 0 then .nan else .infinity (a != b)
  | .finite a m e, .finite b n f =>
    let (p, d) := ratio a m e
    let (q, c) := ratio b n f
    ofRatio (a != b) (p * q).natAbs (d * c)

/-- Whether the number is a zero of either sign. -/
def isZero : Binary64 → Bool
  | .finite _ m _ => m = 0
  | _ => false

/-- The integer that the number equals, if there is one. -/
def toInt? : Binary64 → Option Int
  | .finite negative m e =>
    let (num, den) := ratio negative m e
    if num % (den : Int) = 0 then some (num / den) else none
  | _ => none

end Binary64

/-!
## Quantities

Integers, truth values and binary numbers are compared by the exact quantity that they
stand for, without rounding one to the format of the other.
-/

/-- An exact quantity: a ratio with positive denominator, one of the two infinities, or no
quantity at all. -/
inductive Quantity where
  | undefined
  | below
  | ratio (num : Int) (den : Nat)
  | above
  deriving DecidableEq, Repr

namespace Quantity

/-- The quantity of an integer. -/
def ofInt (i : Int) : Quantity := .ratio i 1

/-- The quantity of a truth value is zero or one. -/
def ofBool (b : Bool) : Quantity := .ofInt (if b then 1 else 0)

/-- The quantity of a binary number. -/
def ofBinary64 : Binary64 → Quantity
  | .nan => .undefined
  | .infinity negative => if negative then .below else .above
  | .finite negative mantissa exponent =>
    let (num, den) := Binary64.ratio negative mantissa exponent
    .ratio num den

/-- Whether two quantities are the same; what is undefined equals nothing. -/
def equal : Quantity → Quantity → Bool
  | .ratio a b, .ratio c d => a * d == c * b
  | .below, .below | .above, .above => true
  | _, _ => false

/-- Whether one quantity is less than the other; what is undefined is less than nothing. -/
def less : Quantity → Quantity → Bool
  | .ratio a b, .ratio c d => a * d < c * b
  | .below, .ratio .. | .below, .above | .ratio .., .above => true
  | _, _ => false

end Quantity

end DeviceApi
