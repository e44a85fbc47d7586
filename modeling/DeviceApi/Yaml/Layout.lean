import DeviceApi.Text.Encoding
import DeviceApi.Text.Lines
import DeviceApi.Yaml.ScalarStyle

/-!
# Laying out YAML text

A layout is the text written so far with the position at its end. Long scalars are folded at
their spaces.
-/

namespace DeviceApi.Yaml

/-- A text that is being written. -/
structure Layout where
  text : String := ""
  column : Nat := 0
  /-- Whether something may follow without a space in between. -/
  spaced : Bool := true
  /-- Whether nothing but indicators of blocks stands in the line. -/
  atIndent : Bool := true

namespace Layout

/-- The column behind which a scalar is folded. -/
def width : Nat := 80

/-- Writes characters. -/
def put (l : Layout) (cs : List Char) : Layout :=
  { l with text := l.text ++ String.ofList cs, column := l.column + cs.length }

/-- Writes an indicator, behind a space if one is needed. -/
def indicator (l : Layout) (s : String) (needsSpace spaced block : Bool) : Layout :=
  let l := if l.spaced || !needsSpace then l else l.put [' ']
  { l.put s.toList with spaced, atIndent := l.atIndent && block }

/-- Ends the line with a character. -/
def breakLine (l : Layout) (c : Char) : Layout :=
  { text := l.text.push c, column := 0, spaced := true, atIndent := true }

/-- Goes to a column, in a new line if the position is behind it or text stands in front. -/
def toIndent (l : Layout) (indent : Nat) : Layout :=
  let l :=
    if !l.atIndent || indent < l.column || (l.column == indent && !l.spaced) then
      l.breakLine '\n' else l
  if l.column < indent then { l.put (List.replicate (indent - l.column) ' ') with spaced := true }
  else l

/-- The kinds of characters in a scalar that are written together. -/
inductive RunKind where
  | space | lineBreak | other
  deriving DecidableEq

/-- The kind of a character. -/
def RunKind.of (c : Char) : RunKind :=
  if c == ' ' then .space else if ScalarStyle.isBreakChar c then .lineBreak else .other

/-- The longest runs of characters of one kind, with their kinds. -/
def runs : List Char → List (RunKind × List Char)
  | [] => []
  | c :: rest =>
    match runs rest with
    | (kind, run) :: more =>
      if RunKind.of c == kind then (kind, c :: run) :: more
      else (RunKind.of c, [c]) :: (kind, run) :: more
    | [] => [(RunKind.of c, [c])]

/-- Writes a plain scalar. It is folded at single spaces if `folds` holds. -/
def plain (l : Layout) (indent : Nat) (folds : Bool) (text : String) : Layout :=
  let l := if l.spaced || text.isEmpty then l else l.put [' ']
  let l := { l with spaced := false, atIndent := false }
  (runs text.toList).foldl
    (fun l (_, run) =>
      if run == [' '] && width < l.column && folds then
        { l.toIndent indent with spaced := false, atIndent := false }
      else l.put run) l

/-- Writes line breaks inside of a single quoted scalar; a line feed counts only if another one
is in front of it. -/
def quotedBreaks (l : Layout) (indent : Nat) (run : List Char) : Layout :=
  let l := if run.head? == some '\n' then l.breakLine '\n' else l
  (run.foldl breakLine l).toIndent indent

/-- Writes the runs of a single quoted scalar. A fold takes the place of a single space that is
neither the first nor the last run. -/
def quotedRuns (indent : Nat) (folds : Bool) :
    (first : Bool) → Layout → List (RunKind × List Char) → Layout
  | _, l, [] => l
  | first, l, (kind, run) :: more =>
    let l :=
      match kind with
      | .space =>
        if run.length == 1 && width < l.column && folds && !first && !more.isEmpty then
          l.toIndent indent
        else l.put run
      | .lineBreak => l.quotedBreaks indent run
      | .other => l.put (run.flatMap fun c => if c == '\'' then ['\'', '\''] else [c])
    quotedRuns indent folds false l more

/-- Writes a scalar between single quotes. -/
def single (l : Layout) (indent : Nat) (folds : Bool) (text : String) : Layout :=
  let l := l.indicator "'" true false false
  (quotedRuns indent folds true l (runs text.toList)).indicator "'" false false false

/-- The letter of a character that has an escape of one letter. -/
def escapeLetter? : Char → Option Char
  | '\x00' => some '0'
  | '\x07' => some 'a'
  | '\x08' => some 'b'
  | '\t' => some 't'
  | '\n' => some 'n'
  | '\x0b' => some 'v'
  | '\x0c' => some 'f'
  | '\r' => some 'r'
  | '\x1b' => some 'e'
  | '"' => some '"'
  | '\\' => some '\\'
  | '\u0085' => some 'N'
  | '\u00a0' => some '_'
  | '\u2028' => some 'L'
  | '\u2029' => some 'P'
  | _ => none

/-- Hexadecimal digits in upper case. -/
def upperHex (digits n : Nat) : List Char := (Text.hexDigits digits n).map Char.toUpper

/-- The escape of a character. -/
def escape (c : Char) : List Char :=
  let n := Text.codeOf c
  match escapeLetter? c with
  | some letter => ['\\', letter]
  | none =>
    if n ≤ 0xFF then '\\' :: 'x' :: upperHex 2 n
    else if n ≤ 0xFFFF then '\\' :: 'u' :: upperHex 4 n
    else '\\' :: 'U' :: upperHex 8 n

/-- Whether a character is escaped between double quotes. -/
def needsEscape (c : Char) : Bool :=
  let n := Text.codeOf c
  c == '"' || c == '\\' || c == '\u2028' || c == '\u2029' || c == '\ufeff' ||
    !((0x20 ≤ n && n ≤ 0x7E) || (0xA0 ≤ n && n ≤ 0xFFFD && !Text.isHalf n))

/-- Ends a line inside of a double quoted scalar in front of a character. A space there is
escaped. -/
def fold (l : Layout) (indent : Nat) (following : Option Char) : Layout :=
  let l := { (l.put ['\\']).toIndent indent with spaced := false, atIndent := false }
  if following == some ' ' then l.put ['\\'] else l

/-- Writes the characters of a double quoted scalar behind those that are still to be
written. -/
def escapedChars (indent : Nat) (folds : Bool) :
    (first : Bool) → (waiting : List Char) → Layout → List Char → Layout
  | _, waiting, l, [] => l.put waiting
  | first, waiting, l, c :: rest =>
    let mayFold := folds && !first && !rest.isEmpty
    if needsEscape c then
      let l := (l.put waiting).put (escape c)
      let l := if mayFold && width + 1 < l.column then l.fold indent rest.head? else l
      escapedChars indent folds false [] l rest
    else if mayFold && (c == ' ' || waiting.isEmpty) && width < l.column + waiting.length then
      escapedChars indent folds false [c] ((l.put waiting).fold indent (some c)) rest
    else escapedChars indent folds false (waiting ++ [c]) l rest

/-- Writes a scalar between double quotes. -/
def double (l : Layout) (indent : Nat) (folds : Bool) (text : String) : Layout :=
  let l := l.indicator "\"" true false false
  (escapedChars indent folds true [] l text.toList).indicator "\"" false false false

/-- Writes the lines of a text, each of which ends with a line feed. -/
def literal (l : Layout) (indent : Nat) (text : String) : Layout :=
  (Text.splitAtChar '\n' text.toList).dropLast.foldl
    (fun l line => ((l.toIndent indent).put line).breakLine '\n')
    ((l.indicator "|" true false false).breakLine '\n')

/-- Writes a scalar with a tag. Further lines begin at a column. -/
def scalar (l : Layout) (indent : Nat) (folds : Bool) (tag : Tag) (text : String) : Layout :=
  match ScalarStyle.choose tag text with
  | .plain => l.plain indent folds text
  | .single => l.single indent folds text
  | .double => l.double indent folds text
  | .literal => l.literal indent text

end Layout

end DeviceApi.Yaml
