import DeviceApi.Document.Order
import DeviceApi.Number.Numeral
import DeviceApi.Number.Shortest
import DeviceApi.Text.Encoding

/-!
# Writing JSON

Keys are written as texts. Octets, moments and sets have no JSON form, and neither has a value
that contains itself.
-/

namespace DeviceApi.Json

/-- How JSON text is laid out. -/
structure Style where
  /-- Whether characters outside of ASCII are escaped. -/
  ascii : Bool
  /-- Whether the entries of every object are sorted by key. -/
  sorted : Bool
  /-- The step of indentation, or everything in one line. -/
  indent : Option Nat

/-- One line with the entries in their own order. -/
def line : Style := { ascii := false, sorted := false, indent := none }

/-- One line of ASCII with sorted keys: equal for objects that differ only in order. -/
def sortedLine : Style := { ascii := true, sorted := true, indent := none }

/-- Several lines, indented by two. -/
def block : Style := { ascii := false, sorted := false, indent := some 2 }

/-- A code unit as an escape. -/
def unicodeEscape (n : Nat) : List Char := '\\' :: 'u' :: Text.hexDigits 4 n

/-- One character inside of a text. -/
def escapeChar (ascii : Bool) (c : Char) : List Char :=
  match c with
  | '"' => ['\\', '"']
  | '\\' => ['\\', '\\']
  | '\n' => ['\\', 'n']
  | '\r' => ['\\', 'r']
  | '\t' => ['\\', 't']
  | '\x08' => ['\\', 'b']
  | '\x0c' => ['\\', 'f']
  | c =>
    let n := Text.codeOf c
    if n < 0x20 then unicodeEscape n
    else if !ascii || n < 0x7f then [c]
    else if n < 0x10000 then unicodeEscape n
    else unicodeEscape (0xD800 + (n - 0x10000) / 0x400) ++
      unicodeEscape (0xDC00 + (n - 0x10000) % 0x400)

/-- A text with its quotes. -/
def writeText (ascii : Bool) (s : String) : String :=
  String.ofList ('"' :: (s.toList.flatMap (escapeChar ascii) ++ ['"']))

/-- The text of a key. -/
def keyText : Scalar → Except Misfit String
  | .null => .ok "null"
  | .bool b => .ok (if b then "true" else "false")
  | .int i => if Numeral.hasDecimalText i then .ok (toString i) else .error .badContent
  | .real x => .ok (jsonReal.text x)
  | .undefined _ => .ok (jsonReal.text .nan)
  | .text s => .ok s
  | .octets _ | .stamp .. => .error .wrongOperand

/-- A scalar. -/
def writeScalar (style : Style) : Scalar → Except Misfit String
  | .text s => .ok (writeText style.ascii s)
  | s => keyText s

/-- A line break with indentation, or nothing. -/
def Style.lineBreak (style : Style) (level : Nat) : String :=
  match style.indent with
  | none => ""
  | some step => String.ofList ('\n' :: List.replicate (step * level) ' ')

/-- Parts between brackets, each on a line of its own if the style has lines. -/
def Style.enclose (style : Style) (level : Nat) (opening closing : String)
    (parts : List String) : String :=
  if parts.isEmpty then opening ++ closing
  else
    let separator := match style.indent with
      | none => ", "
      | some _ => "," ++ style.lineBreak (level + 1)
    opening ++ style.lineBreak (level + 1) ++ separator.intercalate parts ++
      style.lineBreak level ++ closing

/-- The entries of an object with their written values, in the order of the style. -/
def Style.arrange {α : Type} (style : Style) (parts : List (Scalar × α)) :
    Except Misfit (List (Scalar × α)) :=
  if style.sorted then Sorting.sort (fun p q => p.1.less q.1) parts else .ok parts

/-- The written parts of an object with their keys. Of two parts that have no JSON form the
first one counts. -/
def writeParts (style : Style) (parts : List (Scalar × Except Misfit String)) :
    Except Misfit (List String) :=
  parts.mapM fun (key, value) => do
    let key ← keyText key
    return writeText style.ascii key ++ ": " ++ (← value)

mutual

/-- A tree at a level of indentation. -/
def writeAt (style : Style) (level : Nat) : Tree → Except Misfit String
  | .scalar s => writeScalar style s
  | .list items => do
    return style.enclose level "[" "]" (← writeItems style (level + 1) items)
  | .pair key value => do
    let key ← writeAt style (level + 1) key
    return style.enclose level "[" "]" [key, ← writeAt style (level + 1) value]
  | .set _ => .error .wrongOperand
  | .object entries => do
    let parts ← style.arrange (writeEntries style (level + 1) entries)
    return style.enclose level "\x7b" "\x7d" (← writeParts style parts)
  | .enclosing _ => .error .badContent

/-- The items of a list. -/
def writeItems (style : Style) (level : Nat) : List Tree → Except Misfit (List String)
  | [] => .ok []
  | item :: rest => do
    let first ← writeAt style level item
    return first :: (← writeItems style level rest)

/-- The values of an object, each with its key. -/
def writeEntries (style : Style) (level : Nat) :
    List (Scalar × Tree) → List (Scalar × Except Misfit String)
  | [] => []
  | (key, value) :: rest => (key, writeAt style level value) :: writeEntries style level rest

end

/-- The JSON text of a tree. -/
def write (style : Style) (t : Tree) : Except Misfit String := writeAt style 0 t

end DeviceApi.Json
