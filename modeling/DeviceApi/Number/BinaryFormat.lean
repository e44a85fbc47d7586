import DeviceApi.Number.Binary64
import DeviceApi.Text.Encoding

/-!
# Binary formats

A numeral is read as far as it goes and stands for an exact value, which is then rounded to the
nearest number of a binary format.
-/

namespace DeviceApi

/-- What a numeral stands for. -/
inductive RealText where
  | nan
  | infinity
  /-- `digits * 10 ^ exponent`. -/
  | decimal (digits : Nat) (exponent : Int)
  /-- `digits * 2 ^ exponent`. -/
  | binary (digits : Nat) (exponent : Int)
  deriving DecidableEq, Repr

namespace RealText

/-- What follows a word at the front of a text; capital letters count as small ones. -/
def afterWord? (word : String) (cs : List Char) : Option (List Char) :=
  let n := word.length
  if (cs.take n).map Char.toLower == word.toList then some (cs.drop n) else none

/-- The number that digits of a base stand for. -/
def natural (base : Nat) (digits : List Char) : Nat :=
  digits.foldl (fun n c => base * n + (Text.hexValue? c).getD 0) 0

/-- The exponent behind a letter and what follows it. Without digits there is none. -/
def exponentAt (letter : Char) (cs : List Char) : Int × List Char :=
  match cs with
  | c :: rest =>
    if c.toLower != letter then (0, cs)
    else
      let (negative, behind) := match rest with
        | '-' :: behind => (true, behind)
        | '+' :: behind => (false, behind)
        | behind => (false, behind)
      let digits := behind.takeWhile Char.isDigit
      if digits.isEmpty then (0, cs)
      else
        let n := natural 10 digits
        (if negative then -(n : Int) else n, behind.drop digits.length)
  | [] => (0, [])

/-- The digits in front of a point and behind it, and what follows them. -/
def digitsAt (isDigit : Char → Bool) (cs : List Char) : List Char × List Char × List Char :=
  let whole := cs.takeWhile isDigit
  match cs.drop whole.length with
  | '.' :: behind =>
    let fraction := behind.takeWhile isDigit
    if whole.isEmpty && fraction.isEmpty then ([], [], cs)
    else (whole, fraction, behind.drop fraction.length)
  | rest => (whole, [], rest)

/-- The numeral at the front of a text without its sign, and what follows it. -/
def unsignedAt? (cs : List Char) : Option (RealText × List Char) :=
  let isHex (c : Char) : Bool := (Text.hexValue? c).isSome
  match afterWord? "infinity" cs <|> afterWord? "inf" cs with
  | some rest => some (infinity, rest)
  | none =>
    match afterWord? "nan" cs with
    | some rest =>
      match rest with
      | '(' :: inside =>
        let label := inside.takeWhile fun c => c.isAlphanum || c == '_'
        match inside.drop label.length with
        | ')' :: behind => some (nan, behind)
        | _ => some (nan, rest)
      | _ => some (nan, rest)
    | none =>
      let (whole, fraction, rest) := match afterWord? "0x" cs with
        | some behind => digitsAt isHex behind
        | none => ([], [], cs)
      if !(whole.isEmpty && fraction.isEmpty) then
        let (exponent, rest) := exponentAt 'p' rest
        some (binary (natural 16 (whole ++ fraction)) (exponent - 4 * fraction.length), rest)
      else
        let (whole, fraction, rest) := digitsAt Char.isDigit cs
        if whole.isEmpty && fraction.isEmpty then none
        else
          let (exponent, rest) := exponentAt 'e' rest
          some (decimal (natural 10 (whole ++ fraction)) (exponent - fraction.length), rest)

/-- Whether a sign behind blanks is negative, and what follows it. -/
def signed (cs : List Char) : Bool × List Char :=
  match cs.dropWhile fun c => c == ' ' || ('\t' ≤ c && c ≤ '\r') with
  | '-' :: rest => (true, rest)
  | '+' :: rest => (false, rest)
  | rest => (false, rest)

/-- The numeral at the front of a text, whether it is negative, and what follows it. -/
def at? (cs : List Char) : Option (Bool × RealText × List Char) :=
  let (negative, rest) := signed cs
  (unsignedAt? rest).map fun (t, rest) => (negative, t, rest)

end RealText

/-- A binary format: how many bits a mantissa has behind the leading one, and between which
exponents its numbers lie. -/
structure BinaryFormat where
  fractionBits : Nat
  minExponent : Int
  maxExponent : Int
  /-- The number of bits that are shown by the first digit in hexadecimal. -/
  leadBits : Nat
  deriving DecidableEq, Repr

/-- A magnitude that has been rounded. -/
inductive Magnitude where
  | nan
  | infinity
  /-- `mantissa * 2 ^ exponent`. -/
  | finite (mantissa : Nat) (exponent : Int)
  deriving DecidableEq, Repr

namespace BinaryFormat

/-- The format with 64 bits. -/
def double : BinaryFormat :=
  { fractionBits := 52, minExponent := -1074, maxExponent := 971, leadBits := 1 }

/-- The format with 80 bits. -/
def extended : BinaryFormat :=
  { fractionBits := 63, minExponent := -16445, maxExponent := 16320, leadBits := 4 }

/-- The exponent at which a positive ratio has a mantissa of full length. -/
def fullExponent (f : BinaryFormat) (num den : Nat) : Int :=
  let guess := (num.log2 : Int) - den.log2 - f.fractionBits
  let short :=
    if 0 ≤ guess then num < den * Nat.pow 2 f.fractionBits * Nat.pow 2 guess.toNat
    else num * Nat.pow 2 (-guess).toNat < den * Nat.pow 2 f.fractionBits
  if short then guess - 1 else guess

/-- Whether a ratio is a multiple of a power of two. -/
def isMultiple (num den : Nat) (exponent : Int) : Bool :=
  if 0 ≤ exponent then num % (den * Nat.pow 2 exponent.toNat) = 0
  else num * Nat.pow 2 (-exponent).toNat % den = 0

/-- A ratio rounded to the nearest number of the format, and whether it lies in its range. -/
def round (f : BinaryFormat) (num den : Nat) : Magnitude × Bool :=
  if num = 0 then (.finite 0 0, true)
  else
    let full := f.fullExponent num den
    let exponent := max full f.minExponent
    let mantissa := Binary64.scaledQuotient num den exponent
    let carried := mantissa = Nat.pow 2 (f.fractionBits + 1)
    let mantissa := if carried then Nat.pow 2 f.fractionBits else mantissa
    let exponent := if carried then exponent + 1 else exponent
    if f.maxExponent < exponent then (.infinity, false)
    else (.finite mantissa exponent, f.minExponent ≤ full || isMultiple num den f.minExponent)

/-- The magnitude that a numeral stands for, and whether it lies in the range of the format.
Powers far outside of the format are answered without computing them. -/
def ofText (f : BinaryFormat) : RealText → Magnitude × Bool
  | .nan => (.nan, true)
  | .infinity => (.infinity, true)
  | .decimal digits exponent =>
    if digits = 0 then (.finite 0 0, true)
    else
      let magnitude := (Binary64.digitCount digits : Int) + exponent
      if 5000 < magnitude then (.infinity, false)
      else if magnitude < -5100 then (.finite 0 0, false)
      else if 0 ≤ exponent then f.round (digits * Nat.pow 10 exponent.toNat) 1
      else f.round digits (Nat.pow 10 (-exponent).toNat)
  | .binary digits exponent =>
    if digits = 0 then (.finite 0 0, true)
    else
      let magnitude := (digits.log2 : Int) + exponent
      if 17000 < magnitude then (.infinity, false)
      else if magnitude < -17000 then (.finite 0 0, false)
      else if 0 ≤ exponent then f.round (digits * Nat.pow 2 exponent.toNat) 1
      else f.round digits (Nat.pow 2 (-exponent).toNat)

/-- A number in hexadecimal digits with a power of two, with a stated count of digits behind the
point or as many as it takes. -/
def hexText (f : BinaryFormat) (keepPoint : Bool) (precision : Option Nat) (mantissa : Nat)
    (exponent : Int) : List Char :=
  let fractionDigits := (f.fractionBits + 1 - f.leadBits) / 4
  let exponent := if mantissa = 0 then 0 else exponent + 4 * fractionDigits
  let (digits, exponent) := match precision with
    | some n =>
      if n < fractionDigits then
        let rounded := Binary64.divideToEven mantissa (Nat.pow 16 (fractionDigits - n))
        if rounded < Nat.pow 16 (n + 1) then (rounded, exponent) else (rounded / 16, exponent + 4)
      else (mantissa * Nat.pow 16 (n - fractionDigits), exponent)
    | none => (mantissa, exponent)
  let count := precision.getD fractionDigits
  let cs := Nat.toDigits 16 digits
  let cs := List.replicate (count + 1 - cs.length) '0' ++ cs
  let fraction := cs.drop 1
  let fraction := if precision.isSome then fraction
    else (fraction.reverse.dropWhile (· == '0')).reverse
  let point := if fraction.isEmpty && !keepPoint then [] else ['.']
  cs.take 1 ++ point ++ fraction ++ 'p' :: (if exponent < 0 then '-' else '+') ::
    Nat.toDigits 10 exponent.natAbs

end BinaryFormat

end DeviceApi
