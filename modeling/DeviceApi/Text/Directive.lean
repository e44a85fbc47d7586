import DeviceApi.Number.Rounded

/-!
# Directives

A directive says how a value is shown in a text: on which side blanks or zeros fill it up to a
width, which sign a positive number has, and how many digits or characters there are.
-/

namespace DeviceApi

/-- How a value is shown. -/
structure Directive where
  left : Bool := false
  zeros : Bool := false
  plus : Bool := false
  blank : Bool := false
  alternate : Bool := false
  width : Nat := 0
  precision : Option Nat := none

namespace Directive

/-- The directive with a flag, if a character is one. -/
def withFlag? (d : Directive) : Char → Option Directive
  | '-' => some { d with left := true }
  | '0' => some { d with zeros := true }
  | '+' => some { d with plus := true }
  | ' ' => some { d with blank := true }
  | '#' => some { d with alternate := true }
  | _ => none

/-- The directive with the flags at the front of a text, and the rest of the text. -/
def withFlags (d : Directive) : List Char → Directive × List Char
  | [] => (d, [])
  | c :: rest =>
    match d.withFlag? c with
    | some d => withFlags d rest
    | none => (d, c :: rest)

/-- A text with at least the stated width. -/
def padText (d : Directive) (cs : List Char) : List Char :=
  let blanks := List.replicate (d.width - cs.length) ' '
  if d.left then cs ++ blanks else blanks ++ cs

/-- A number with at least the stated width: its sign, what announces its base and its digits.
Zeros stand behind the sign, blanks in front of it. -/
def padNumber (d : Directive) (negative : Bool) (base digits : List Char) : List Char :=
  let sign :=
    if negative then ['-'] else if d.plus then ['+'] else if d.blank then [' '] else []
  if d.zeros && !d.left then
    let missing := d.width - (sign.length + base.length + digits.length)
    sign ++ base ++ List.replicate missing '0' ++ digits
  else d.padText (sign ++ base ++ digits)

/-- A text cut to the stated precision, with at least the stated width. -/
def text (d : Directive) (s : String) : List Char :=
  let cs := s.toList
  d.padText (match d.precision with
    | some n => cs.take n
    | none => cs)

/-- An integer in a base. -/
def integer (d : Directive) (base : Nat) (upper : Bool) (i : Int) : List Char :=
  let digits := Nat.toDigits base i.natAbs
  let digits := List.replicate (d.precision.getD 0 - digits.length) '0' ++ digits
  let announced :=
    if !d.alternate then []
    else if base = 8 then ['0', 'o'] else if base = 16 then ['0', 'x'] else []
  let raised (cs : List Char) : List Char := if upper then cs.map Char.toUpper else cs
  d.padNumber (i < 0) (raised announced) (raised digits)

/-- The digits of a ratio with a point or an exponent. -/
def ratio (d : Directive) (kind : Char) (num den : Nat) : List Char :=
  let precision := d.precision.getD 6
  match kind.toLower with
  | 'f' => Rounded.fixed d.alternate precision num den
  | 'e' => Rounded.scientific d.alternate precision num den
  | _ => Rounded.general d.alternate precision num den

/-- A number with a point. -/
def real (d : Directive) (kind : Char) (x : Binary64) : List Char :=
  let (negative, digits) := Rounded.signed (d.ratio kind) x
  d.padNumber negative [] (if kind.isUpper then digits.map Char.toUpper else digits)

end Directive

end DeviceApi
