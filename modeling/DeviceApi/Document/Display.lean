import DeviceApi.Document.Tree
import DeviceApi.Number.Numeral
import DeviceApi.Number.Shortest
import DeviceApi.Number.Rounded
import DeviceApi.Text.Quoted

/-!
# Trees in messages

A message shows a value of a document in one line. A text by itself is shown as it is; inside
of a list or an object it is quoted.
-/

namespace DeviceApi

namespace Timestamp

/-- Day, hours, minutes and seconds with the offset to universal time at the end. -/
def text (t : Timestamp) : String :=
  let date := paddedNat 4 t.year ++ "-" ++ paddedNat 2 t.month ++ "-" ++ paddedNat 2 t.day
  match t.time with
  | none => date
  | some c =>
    let fraction := if c.microsecond = 0 then "" else "." ++ paddedNat 6 c.microsecond
    let offset := match c.offset with
      | none => ""
      | some minutes =>
        (if minutes < 0 then "-" else "+") ++ paddedNat 2 (minutes.natAbs / 60) ++ ":" ++
          paddedNat 2 (minutes.natAbs % 60)
    date ++ " " ++ paddedNat 2 c.hour ++ ":" ++ paddedNat 2 c.minute ++ ":" ++
      paddedNat 2 c.second ++ fraction ++ offset

/-- The offset to universal time as whole days and a non-negative number of seconds. -/
def offsetParts (minutes : Int) : String :=
  if minutes = 0 then "datetime.timezone.utc"
  else
    let days := minutes / 1440
    let seconds := minutes % 1440 * 60
    let parts := (if days = 0 then [] else ["days=" ++ toString days]) ++
      (if seconds = 0 then [] else ["seconds=" ++ toString seconds])
    "datetime.timezone(datetime.timedelta(" ++ ", ".intercalate parts ++ "))"

/-- The components by which a timestamp inside of a list is shown. -/
def components (t : Timestamp) : String :=
  let date := [toString t.year, toString t.month, toString t.day]
  match t.time with
  | none => "datetime.date(" ++ ", ".intercalate date ++ ")"
  | some c =>
    let seconds :=
      if c.microsecond ≠ 0 then [toString c.second, toString c.microsecond]
      else if c.second ≠ 0 then [toString c.second] else []
    let zone := match c.offset with
      | none => []
      | some minutes => ["tzinfo=" ++ offsetParts minutes]
    "datetime.datetime(" ++
      ", ".intercalate (date ++ [toString c.hour, toString c.minute] ++ seconds ++ zone) ++ ")"

end Timestamp

namespace Scalar

/-- A scalar by itself. -/
def display : Scalar → String
  | .null => "None"
  | .bool b => if b then "True" else "False"
  | .int i => toString i
  | .real x => messageReal.text x
  | .text s => s
  | .octets bytes => Text.quotedOctets bytes
  | .stamp t _ => t.text
  | .undefined _ => messageReal.text .nan

/-- A scalar inside of a list or an object. -/
def displayInside : Scalar → String
  | .text s => Text.quoted s
  | .stamp t _ => t.components
  | s => s.display

/-- Whether a scalar has a text. An integer with too many digits has none. -/
def hasText : Scalar → Bool
  | .int i => Numeral.hasDecimalText i
  | _ => true

end Scalar

namespace Tree

mutual

/-- A tree inside of a list or an object. -/
def displayInside : Tree → String
  | .scalar s => s.displayInside
  | .list items => "[" ++ ", ".intercalate (displayItems items) ++ "]"
  | .pair key value => "(" ++ displayInside key ++ ", " ++ displayInside value ++ ")"
  | .set [] => "set()"
  | .set members => "\x7b" ++ ", ".intercalate (members.map Scalar.displayInside) ++ "\x7d"
  | .object entries => "\x7b" ++ ", ".intercalate (displayEntries entries) ++ "\x7d"
  | .enclosing isObject => if isObject then "\x7b...\x7d" else "[...]"

/-- The items of a list. -/
def displayItems : List Tree → List String
  | [] => []
  | item :: rest => displayInside item :: displayItems rest

/-- The entries of an object. -/
def displayEntries : List (Scalar × Tree) → List String
  | [] => []
  | (key, value) :: rest =>
    (key.displayInside ++ ": " ++ displayInside value) :: displayEntries rest

end

mutual

/-- Whether all scalars of a tree have a text. -/
def hasText : Tree → Bool
  | .scalar s => s.hasText
  | .list items => haveText items
  | .pair key value => hasText key && hasText value
  | .set members => members.all Scalar.hasText
  | .object entries => entriesHaveText entries
  | .enclosing _ => true

/-- Whether all scalars of a list have a text. -/
def haveText : List Tree → Bool
  | [] => true
  | item :: rest => hasText item && haveText rest

/-- Whether all keys and values have a text. -/
def entriesHaveText : List (Scalar × Tree) → Bool
  | [] => true
  | (key, value) :: rest => key.hasText && hasText value && entriesHaveText rest

end

/-- A tree by itself. -/
def display : Tree → String
  | .scalar s => s.display
  | t => t.displayInside

end Tree

/-- A list of texts as messages show it. -/
def displayTexts (texts : List String) : String :=
  (Tree.list (texts.map Tree.text)).display

end DeviceApi
