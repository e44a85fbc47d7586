import DeviceApi.Command.Printing.Escape
import DeviceApi.Text.Directive

/-!
# Printed numbers

An argument is read as a number as far as it goes; what is wrong with it is complained about.
-/

namespace DeviceApi.Command.Printing

/-- The greatest magnitudes of integers with and without sign. -/
def maxSigned : Int := Int.pow 2 63 - 1

/-- One more than the greatest integer without sign. -/
def unsignedCount : Int := Int.pow 2 64

/-- The integer at the front of a text and what follows it; without digits nothing is read. -/
def integerAt (cs : List Char) : Int × List Char :=
  let (negative, digits) := RealText.signed cs
  let read (base : Nat) (digits : List Char) : Nat × List Char :=
    let known := digits.takeWhile fun c => (Text.hexValue? c).any (· < base)
    (RealText.natural base known, digits.drop known.length)
  let isHex (c : Char) : Bool := (Text.hexValue? c).isSome
  let (n, rest) := match digits with
    | '0' :: x :: d :: more =>
      if (x == 'x' || x == 'X') && isHex d then read 16 (d :: more) else read 8 digits
    | '0' :: _ => read 8 digits
    | _ => read 10 digits
  if rest.length = digits.length then (0, cs) else (if negative then -(n : Int) else n, rest)

/-- The number of the character behind a quote, with what is said about the characters that
follow it. -/
def quotedChar? (d : Dialect) (arg : String) : Option (Nat × List String) :=
  match arg.toList with
  | [quote] =>
    if !d.isSeparate && (quote == '\'' || quote == '"') then some (0, []) else none
  | quote :: c :: more =>
    if quote == '\'' || quote == '"' then
      some (d.charNumber c, if more.isEmpty || d.excess.isNone then [] else
        [s!"warning: {String.ofList more}: character(s) following character constant " ++
          "have been ignored"])
    else none
  | _ => none

/-- What is said about an argument in which there is no number, or one that is out of range or
that something follows. -/
def complaintsAbout (d : Dialect) (arg : String) (isMissing isOutOfRange isFollowed : Bool) :
    List String :=
  if isMissing then [d.noNumber arg]
  else if isOutOfRange && (d.isSeparate || !isFollowed) then [d.outOfRange arg]
  else if isFollowed then [d.trailing arg]
  else []

/-- An argument as an integer, with what is said about it. -/
def integerOf (d : Dialect) (signed : Bool) (arg : String) : Int × List String :=
  match quotedChar? d arg with
  | some (n, warnings) => (n, warnings)
  | none => if arg.isEmpty then (0, []) else number arg.toList
where
  /-- An argument that is no quoted character. -/
  number (cs : List Char) : Int × List String :=
    let (i, rest) := integerAt cs
    let least : Int := if signed then -maxSigned - 1 else 1 - unsignedCount
    let most : Int := if signed then maxSigned else unsignedCount - 1
    let complaints :=
      complaintsAbout d arg (rest.length = cs.length) (i < least ∨ most < i) !rest.isEmpty
    let clamped := if most < i then most else if i < least then
      (if signed then least else most) else i
    (clamped, complaints)

/-- An argument as a number with a point, with its sign and with what is said about it. -/
def realOf (d : Dialect) (arg : String) : Bool × Magnitude × List String :=
  match quotedChar? d arg with
  | some (n, warnings) => (false, (d.reals.round n 1).1, warnings)
  | none =>
    if arg.isEmpty then (false, .finite 0 0, [])
    else
      match RealText.at? arg.toList with
      | none => (false, .finite 0 0, [d.noNumber arg])
      | some (negative, text, rest) =>
        let (x, isInRange) := d.reals.ofText text
        (negative, x, complaintsAbout d arg false (!isInRange) !rest.isEmpty)

/-- An integer as the letter of a directive says. -/
def integerText (d : Directive) (kind : Char) (i : Int) : List Char :=
  let isSigned := kind == 'd' || kind == 'i'
  let n := if i < 0 && !isSigned then (i + unsignedCount).toNat else i.natAbs
  let base := if isSigned || kind == 'u' then 10 else if kind == 'o' then 8 else 16
  let digits := if n = 0 && d.precision == some 0 then [] else Nat.toDigits base n
  let digits := List.replicate (d.precision.getD 0 - digits.length) '0' ++ digits
  let digits := if kind == 'o' && d.alternate && digits.head? != some '0' then '0' :: digits
    else digits
  let announced := if base = 16 && d.alternate && n ≠ 0 then ['0', 'x'] else []
  let raised (cs : List Char) : List Char := if kind == 'X' then cs.map Char.toUpper else cs
  let d := { d with
    zeros := d.zeros && d.precision.isNone, plus := d.plus && isSigned
    blank := d.blank && isSigned }
  d.padNumber (isSigned && i < 0) (raised announced) (raised digits)

/-- A number with a point as the letter of a directive says. -/
def realText (f : BinaryFormat) (d : Directive) (kind : Char) (negative : Bool) (x : Magnitude) :
    List Char :=
  let raised (cs : List Char) : List Char := if kind.isUpper then cs.map Char.toUpper else cs
  match x with
  | .nan => { d with zeros := false }.padNumber negative [] (raised ['n', 'a', 'n'])
  | .infinity => { d with zeros := false }.padNumber negative [] (raised ['i', 'n', 'f'])
  | .finite mantissa exponent =>
    if kind.toLower == 'a' then
      d.padNumber negative (raised ['0', 'x'])
        (raised (f.hexText d.alternate d.precision mantissa exponent))
    else
      let (num, den) := Binary64.ratio false mantissa exponent
      d.padNumber negative [] (raised (d.ratio kind num.natAbs den))

end DeviceApi.Command.Printing
