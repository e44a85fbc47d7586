import DeviceApi.Document.Scalar
import DeviceApi.Number.Numeral
import DeviceApi.Text.Lines

/-!
# Tags and plain scalars
-/

namespace DeviceApi.Yaml

/-!
## Tags

The tag of a value says of which kind it is.
-/

/-- The kinds of values. -/
inductive Tag where
  | null
  | bool
  | int
  | real
  | text
  | octets
  | stamp
  | sequence
  | mapping
  | set
  | orderedMapping
  | pairs
  /-- The key under which a mapping takes over the entries of others. -/
  | merge
  /-- The key of the value that stands for a whole mapping. -/
  | standIn
  | other (name : String)
  deriving DecidableEq, Repr

/-- What the names of the common tags begin with. -/
def commonTags : String := "tag:yaml.org,2002:"

/-- The tag with a complete name. -/
def Tag.ofName (name : String) : Tag :=
  match (name.dropPrefix? commonTags).map (·.copy) with
  | some "null" => .null
  | some "bool" => .bool
  | some "int" => .int
  | some "float" => .real
  | some "str" => .text
  | some "binary" => .octets
  | some "timestamp" => .stamp
  | some "seq" => .sequence
  | some "map" => .mapping
  | some "set" => .set
  | some "omap" => .orderedMapping
  | some "pairs" => .pairs
  | some "merge" => .merge
  | some "value" => .standIn
  | _ => .other name

/-!
## Plain scalars

A plain scalar without a tag is of the kind that its text suggests: the words for truth values
and for nothing, numbers and timestamps are told from other texts by the way they are written.
-/

/-- A word in lower case, in upper case or with an upper case letter in front. -/
def spellings (word : String) : List String := [word, word.capitalize, word.toUpper]

/-- The words for truth values. -/
def truthWords : List (String × Bool) :=
  [("yes", true), ("no", false), ("true", true), ("false", false), ("on", true), ("off", false)]

/-- Whether a text is a word for a truth value. -/
def isTruthWord (s : String) : Bool := truthWords.any fun word => (spellings word.1).contains s

/-- Whether a text is a word for nothing. -/
def isNullWord (s : String) : Bool := s == "" || s == "~" || (spellings "null").contains s

namespace NumberText

/-- Whether a character is a digit or an underscore. -/
def isDigitOrUnderscore (c : Char) : Bool := c.isDigit || c == '_'

/-- Whether a text consists of a digit, digits and underscores. -/
def isDigitRun : List Char → Bool
  | [] => false
  | c :: rest => c.isDigit && rest.all isDigitOrUnderscore

/-- Whether a text is a number of minutes or seconds. -/
def isSixtieth : List Char → Bool
  | [c] => c.isDigit
  | [c, d] => '0' ≤ c && c ≤ '5' && d.isDigit
  | _ => false

/-- Whether a text is a number in base sixty: at least two pieces between colons. -/
def isSexagesimal (isFirst : List Char → Bool) (cs : List Char) : Bool :=
  match Text.splitAtChar ':' cs with
  | first :: second :: more => isFirst first && (second :: more).all isSixtieth
  | _ => false

/-- Whether a text without a sign is an integer. -/
def isUnsignedInteger (cs : List Char) : Bool :=
  match cs with
  | ['0'] => true
  | '0' :: 'b' :: digits =>
    !digits.isEmpty && digits.all fun c => c == '0' || c == '1' || c == '_'
  | '0' :: 'x' :: digits =>
    !digits.isEmpty && digits.all fun c =>
      c.isDigit || ('a' ≤ c && c ≤ 'f') || ('A' ≤ c && c ≤ 'F') || c == '_'
  | '0' :: digits => digits.all fun c => ('0' ≤ c && c ≤ '7') || c == '_'
  | _ => isDigitRun cs || isSexagesimal isDigitRun cs

/-- Whether a text is an integer. -/
def isInteger (cs : List Char) : Bool := isUnsignedInteger (Numeral.signOf cs).2

/-- Whether a text is an exponent with its sign, or empty. -/
def isExponent : List Char → Bool
  | [] => true
  | e :: sign :: digits =>
    (e == 'e' || e == 'E') && (sign == '-' || sign == '+') && !digits.isEmpty &&
      digits.all Char.isDigit
  | _ => false

/-- Whether a text is a number with a point. An exponent may follow, unless the number is in
base sixty. -/
def isReal (cs : List Char) : Bool :=
  let bare := (Numeral.signOf cs).2
  let whole := bare.takeWhile (· != '.')
  let fraction := (bare.dropWhile (· != '.')).drop 1
  let exponent := fraction.dropWhile isDigitOrUnderscore
  if !bare.contains '.' then false
  else if whole.isEmpty then
    ((spellings "inf").contains (String.ofList fraction)) ||
      (cs.head? == some '.' && (["nan", "NaN", "NAN"].contains (String.ofList fraction) ||
        (isDigitRun (fraction.takeWhile isDigitOrUnderscore) && isExponent exponent)))
  else
    (isDigitRun whole && isExponent exponent) ||
      (isSexagesimal isDigitRun whole && exponent.isEmpty)

end NumberText

namespace StampText

/-- The number at the front, of at least and at most so many digits. -/
def number? (least most : Nat) (cs : List Char) : Option (Nat × List Char) :=
  let digits := (cs.take most).takeWhile Char.isDigit
  if digits.length < least then none
  else some (digits.foldl (fun n c => 10 * n + (c.toNat - '0'.toNat)) 0, cs.drop digits.length)

/-- What follows a character at the front. -/
def behind? (c : Char) : List Char → Option (List Char)
  | d :: rest => if c == d then some rest else none
  | [] => none

/-- Whether a character is a space or a tab. -/
def isBlank (c : Char) : Bool := c == ' ' || c == '\t'

/-- The offset to universal time in minutes at the end of a text. -/
def offset? (cs : List Char) : Option (Option Int) :=
  match cs.dropWhile isBlank with
  | [] => if cs.isEmpty then some none else none
  | ['Z'] => some (some 0)
  | sign :: rest => do
    if sign != '+' && sign != '-' then failure
    let (hours, rest) ← number? 1 2 rest
    let minutes ← match rest with
      | [] => some 0
      | _ => do
        let (minutes, rest) ← number? 2 2 (← behind? ':' rest)
        if rest.isEmpty then some minutes else none
    let total : Int := 60 * hours + minutes
    return some (if sign == '-' then -total else total)

/-- The microseconds of the digits behind the seconds; further digits are ignored. -/
def microseconds (digits : List Char) : Nat :=
  (digits.take 6 ++ List.replicate (6 - digits.length) '0').foldl
    (fun n c => 10 * n + (c.toNat - '0'.toNat)) 0

/-- The time of day at the end of a text. -/
def time? (cs : List Char) : Option TimeOfDay := do
  let rest ← match cs with
    | 't' :: rest => some rest
    | 'T' :: rest => some rest
    | c :: rest => if isBlank c then some (rest.dropWhile isBlank) else none
    | [] => none
  let (hour, rest) ← number? 1 2 rest
  let (minute, rest) ← number? 2 2 (← behind? ':' rest)
  let (second, rest) ← number? 2 2 (← behind? ':' rest)
  let (fraction, rest) := match rest with
    | '.' :: rest => (rest.takeWhile Char.isDigit, rest.dropWhile Char.isDigit)
    | _ => ([], rest)
  return { hour, minute, second, microsecond := microseconds fraction, offset := ← offset? rest }

/-- The timestamp that a text is written as; its components may be out of range. -/
def stamp? (cs : List Char) : Option Timestamp := do
  let (year, rest) ← number? 4 4 cs
  let (month, rest) ← number? 1 2 (← behind? '-' rest)
  let (day, rest) ← number? 1 2 (← behind? '-' rest)
  if rest.isEmpty then return { year, month, day, time := none }
  else return { year, month, day, time := some (← time? rest) }

/-- Whether a plain scalar is a timestamp: a day alone is written with all of its digits. -/
def isStamp (cs : List Char) : Bool :=
  match stamp? cs with
  | some t => t.time.isSome || cs.length == 10
  | none => false

end StampText

/-- The tag of a plain scalar. A line feed at the end of the text does not count. -/
def Tag.ofPlain (text : String) : Tag :=
  let cs := text.toList
  let cs := if cs.length != 1 && cs.getLast? == some '\n' then cs.dropLast else cs
  let word := String.ofList cs
  if isTruthWord word then .bool
  else if NumberText.isReal cs then .real
  else if NumberText.isInteger cs then .int
  else if word == "<<" then .merge
  else if isNullWord word then .null
  else if StampText.isStamp cs then .stamp
  else if word == "=" then .standIn
  else if word == "!" || word == "&" || word == "*" then .other (commonTags ++ "yaml")
  else .text

end DeviceApi.Yaml
