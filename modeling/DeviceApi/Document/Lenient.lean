import DeviceApi.Document.Tree
import DeviceApi.Number.Numeral
import DeviceApi.Text.CharRange
import DeviceApi.Text.Encoding

/-!
# Lenient readings

Settings and fields of records may be given in more than one form: an integer also as a number
without fraction or as a numeral, a truth value also as zero, one or a word.
-/

namespace DeviceApi

namespace Lenient

/-- Whether a character is a digit other than zero. -/
def isCounting (c : Char) : Bool := '1' ≤ c && c ≤ '9'

/-- A numeral behind a zero or an underscore at its front. Further ones are left out, but in
front of a point or at the end the last one stays. -/
def behindZero? (last : Char) : List Char → Option (List Char)
  | [] => some [last]
  | c :: rest =>
    if c == '0' || c == '_' then behindZero? c rest
    else if c == '.' then some (last :: c :: rest)
    else if isCounting c || c == '-' then some (c :: rest)
    else none

/-- A numeral without the plus sign and the zeros at its front. -/
def withoutLeadingZeros? (cs : List Char) : Option (List Char) :=
  match cs with
  | '+' :: '-' :: _ => none
  | _ =>
    match if cs.head? == some '+' then cs.tail else cs with
    | '0' :: rest => behindZero? '0' rest
    | c :: rest => if isCounting c || c == '-' then some (c :: rest) else none
    | [] => none

/-- A numeral without a point that only zeros follow. -/
def withoutZeroFraction (cs : List Char) : List Char :=
  if (cs.dropWhile (· != '.')).drop 1 |>.all (· == '0') then cs.takeWhile (· != '.') else cs

/-- A numeral without single underscores inside. -/
def withoutUnderscores (cs : List Char) : List Char :=
  let doubled := (cs.zip (cs.drop 1)).any fun (a, b) => a == '_' && b == '_'
  if cs.head? == some '_' || cs.getLast? == some '_' || doubled then cs
  else cs.filter (· != '_')

/-- The value of digits without a zero in front. -/
def plainDigits? : List Char → Option Nat
  | ['0'] => some 0
  | c :: rest =>
    if isCounting c && rest.all Char.isDigit then
      some ((c :: rest).foldl (fun n c => 10 * n + (c.toNat - '0'.toNat)) 0)
    else none
  | [] => none

/-- The integer of a numeral in its plain form, which must not be too long. -/
def plainInteger? (cs : List Char) : Option Int :=
  if Numeral.maxDigits < cs.length then none
  else
    match cs with
    | '-' :: digits => (plainDigits? digits).map fun n => -(n : Int)
    | digits => (plainDigits? digits).map fun n => (n : Int)

/-- The integer of a numeral, which may have blanks around it, zeros in front, underscores
inside and a fraction of zeros. -/
def numeral? (text : String) : Option Int := do
  let cs ← withoutLeadingZeros? (Text.trimBlank text.toList)
  plainInteger? (withoutUnderscores (withoutZeroFraction cs))

/-- The integer that a scalar may be read as. -/
def integer? : Scalar → Option Int
  | .int i => some i
  | .bool b => some (if b then 1 else 0)
  | .real x =>
    match x.toInt? with
    | some i => if i.natAbs < Nat.pow 2 63 then some i else none
    | none => none
  | .text s => numeral? s
  | _ => none

/-- The words for false and for true. -/
def truthWords : List (String × Bool) :=
  [("0", false), ("off", false), ("f", false), ("false", false), ("n", false), ("no", false),
   ("1", true), ("on", true), ("t", true), ("true", true), ("y", true), ("yes", true)]

/-- The truth value of a word. -/
def truthWord? (word : String) : Option Bool :=
  let lowered := String.ofList (word.toList.map Char.toLower)
  (truthWords.find? fun known => known.1 == lowered).map Prod.snd

/-- The text that a scalar may be read as: octets are those of a text. -/
def text? : Scalar → Option String
  | .text s => some s
  | .octets bytes => Text.Utf8.decode? bytes
  | _ => none

/-- The truth value that a scalar may be read as. -/
def truth? : Scalar → Option Bool
  | .bool b => some b
  | .int i => if i = 0 then some false else if i = 1 then some true else none
  | .real x =>
    match x.toInt? with
    | some 0 => some false
    | some 1 => some true
    | _ => none
  | s => (text? s).bind truthWord?

end Lenient

end DeviceApi
