import DeviceApi.Text.Encoding
import DeviceApi.Yaml.Cursor
import DeviceApi.Yaml.PlainScalar

/-!
# Values of scalars

What the text of a scalar stands for when its tag is known. A tag may be stated for any text,
so a text need not be of the form that the tag asks for.
-/

namespace DeviceApi.Yaml

namespace ScalarValue

/-- Adds pieces of a number in base sixty, the most significant one first. -/
def integerOfPieces (pieces : List Int) : Int := pieces.foldl (fun n piece => 60 * n + piece) 0

/-- The value of an integer: binary, octal, hexadecimal, in base sixty or decimal. -/
def integer (text : String) : Except Misfit Int := do
  let cs := text.toList.filter (· != '_')
  if cs.isEmpty then throw .outOfRange
  let (negative, cs) := Numeral.signOf cs
  let magnitude ← match cs with
    | [] => throw .outOfRange
    | '0' :: 'b' :: digits => pure (Numeral.integer? 2 digits)
    | '0' :: 'x' :: digits => pure (Numeral.integer? 16 digits)
    | '0' :: _ => pure (Numeral.integer? 8 cs)
    | _ => pure (((Text.splitAtChar ':' cs).mapM (Numeral.integer? 10)).map integerOfPieces)
  match magnitude with
  | some i => return if negative then -i else i
  | none => throw .badContent

/-- Adds pieces of a number in base sixty, the least significant one first, rounding each
time. The unit of each piece has to be a number of the format. -/
def realOfPieces (unit : Int) : Binary64 → List Binary64 → Except Misfit Binary64
  | sum, [] => .ok sum
  | sum, piece :: more =>
    match Binary64.ofInt unit with
    | .infinity _ => .error .tooLarge
    | factor => realOfPieces (60 * unit) (sum.add (piece.mul factor)) more

/-- A number with a point as it is compared: without underscores and in lower case. -/
def realText (text : String) : List Char := (text.toList.filter (· != '_')).map Char.toLower

/-- Whether a text is the word for the undefined number that is the same everywhere. -/
def isUndefinedWord (text : String) : Bool :=
  (Numeral.signOf (realText text)).2 == ".nan".toList

/-- The value of a number with a point: a word, in base sixty or decimal. -/
def real (text : String) : Except Misfit Binary64 := do
  let cs := realText text
  if cs.isEmpty then throw .outOfRange
  let (negative, cs) := Numeral.signOf cs
  let magnitude ←
    if cs == ".inf".toList then pure (.infinity false)
    else if isUndefinedWord text then pure .nan
    else
      match (Text.splitAtChar ':' cs).mapM Numeral.real? with
      | none => throw .badContent
      | some [whole] => pure whole
      | some pieces => realOfPieces 1 (.finite false 0 0) pieces.reverse
  return if negative then magnitude.neg else magnitude

/-- The value of a word for a truth value. -/
def truth (text : String) : Except Misfit Bool :=
  match truthWords.lookup (String.ofList (text.toList.map Char.toLower)) with
  | some b => .ok b
  | none => .error .missingEntry

/-- The octets that are written in base 64. -/
def octets? (text : String) : Option (List UInt8) :=
  if text.toList.all fun c => c.toNat < 0x80 then Text.Base64.decode? text.toList else none

/-- The value of a timestamp. A line feed at the end of the text does not count. -/
def stamp (text : String) : Except Misfit Timestamp :=
  let cs := text.toList
  match StampText.stamp? (if cs.getLast? == some '\n' then cs.dropLast else cs) with
  | none => .error .noSuchOperation
  | some t => if t.isValid then .ok t else .error .badContent

end ScalarValue

end DeviceApi.Yaml
