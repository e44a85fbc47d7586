import DeviceApi.Text.Code
import DeviceApi.Text.Encoding
import DeviceApi.Yaml.Cursor

/-!
# Scalars in YAML text

A scalar is written plainly, between quotes of one of two kinds, or as a block of lines that
are kept or folded.
-/

namespace DeviceApi.Yaml

namespace Cursor

/-- The line breaks of a quoted scalar that follow each other, blanks around them skipped. A
separator of documents must not stand there. -/
def quotedBreaks : (fuel : Nat) → Cursor → Except Failure (List Char × Cursor)
  | 0, _ => .error .malformed
  | fuel + 1, cur =>
    if cur.atSeparator then .error .malformed
    else
      let cur := cur.dropWhile fun c => c == ' ' || c == '\t'
      if isBreak cur.head then do
        let (lineBreak, cur) := cur.lineBreak
        let (more, cur) ← quotedBreaks fuel cur
        return (lineBreak ++ more, cur)
      else .ok ([], cur)

/-- The blanks between the words of a quoted scalar: a single line break becomes a space, of
several the first is dropped. -/
def quotedGap (cur : Cursor) : Except Failure (List Char × Cursor) :=
  let (blanks, cur) := cur.takeWhile fun c => c == ' ' || c == '\t'
  if cur.head == endMark then .error .malformed
  else if isBreak cur.head then do
    let (lineBreak, cur) := cur.lineBreak
    let (breaks, cur) ← cur.quotedBreaks (cur.rest.length + 1)
    let first := if lineBreak != ['\n'] then lineBreak else if breaks.isEmpty then [' '] else []
    return (first ++ breaks, cur)
  else .ok (blanks, cur)

/-- The character that an escape of one letter stands for. -/
def escapedChar? : Char → Option Char
  | '0' => some '\x00'
  | 'a' => some '\x07'
  | 'b' => some '\x08'
  | 't' | '\t' => some '\t'
  | 'n' => some '\n'
  | 'v' => some '\x0b'
  | 'f' => some '\x0c'
  | 'r' => some '\r'
  | 'e' => some '\x1b'
  | ' ' => some ' '
  | '"' => some '"'
  | '\\' => some '\\'
  | '/' => some '/'
  | 'N' => some '\u0085'
  | '_' => some '\u00a0'
  | 'L' => some '\u2028'
  | 'P' => some '\u2029'
  | _ => none

/-- How many hexadecimal digits follow an escape letter. -/
def escapeWidth? : Char → Option Nat
  | 'x' => some 2
  | 'u' => some 4
  | 'U' => some 8
  | _ => none

/-- The number written by hexadecimal digits. -/
def hexNumber? (digits : List Char) : Option Nat :=
  digits.foldlM (fun n c => (Text.hexValue? c).map fun d => 16 * n + d) 0

/-- The greatest number that may be meant as a code at all. -/
def maxMeantCode : Nat := 0x7FFFFFFF

/-- The character of a code. What is beyond the last code is refused. -/
def charOfCode (n : Nat) : Except Failure Char :=
  if maxMeantCode < n then .error (.unfit .tooLarge)
  else if Text.maxCode < n then .error (.unfit .badContent)
  else .ok (Text.charOfCode n)

/-- An escape in a scalar between double quotes, behind its backslash. -/
def escape (cur : Cursor) : Except Failure (List Char × Cursor) :=
  match escapedChar? cur.head with
  | some c => if cur.rest.isEmpty then .error .malformed else .ok ([c], cur.next)
  | none =>
    match escapeWidth? cur.head with
    | some width => do
      let cur := cur.next
      let digits := cur.rest.take width
      if digits.length < width then throw .malformed
      let some code := hexNumber? digits | throw .malformed
      return ([← charOfCode code], cur.skip width)
    | none =>
      if isBreak cur.head then
        let cur := cur.lineBreak.2
        cur.quotedBreaks (cur.rest.length + 1)
      else .error .malformed

/-- Whether a character may begin something other than itself in a quoted scalar. -/
def isQuotedSpecial (c : Char) : Bool := isGap c || c == '\'' || c == '"' || c == '\\'

/-- The characters of a quoted scalar up to the next blank or to its end. -/
def quotedWord (double : Bool) : (fuel : Nat) → Cursor → Except Failure (List Char × Cursor)
  | 0, _ => .error .malformed
  | fuel + 1, cur => do
    let (run, cur) := cur.takeWhile fun c => !isQuotedSpecial c
    let c := cur.head
    if !double && c == '\'' && cur.peek 1 == '\'' then
      let (more, cur) ← quotedWord double fuel (cur.skip 2)
      return (run ++ '\'' :: more, cur)
    else if (double && c == '\'') || (!double && (c == '"' || c == '\\')) then
      let (more, cur) ← quotedWord double fuel cur.next
      return (run ++ c :: more, cur)
    else if double && c == '\\' then
      let (escaped, cur) ← cur.next.escape
      let (more, cur) ← quotedWord double fuel cur
      return (run ++ escaped ++ more, cur)
    else return (run, cur)

/-- The rest of a quoted scalar behind a word, up to the closing quote. -/
def quotedRest (double : Bool) : (fuel : Nat) → Cursor → Except Failure (List Char × Cursor)
  | 0, _ => .error .malformed
  | fuel + 1, cur => do
    if cur.head == (if double then '"' else '\'') then return ([], cur.next)
    let (gap, cur) ← cur.quotedGap
    let (word, cur) ← quotedWord double (cur.rest.length + 1) cur
    let (more, cur) ← quotedRest double fuel cur
    return (gap ++ word ++ more, cur)

/-- A quoted scalar at its opening quote. -/
def quotedScalar (double : Bool) (cur : Cursor) : Except Failure (List Char × Cursor) := do
  let cur := cur.next
  let (word, cur) ← quotedWord double (cur.rest.length + 1) cur
  let (more, cur) ← quotedRest double (cur.rest.length + 1) cur
  return (word ++ more, cur)

/-- The characters at the front that belong to a plain scalar without a gap. A colon ends it in
front of a gap, and inside of brackets also the characters that structure their content. -/
def plainRun (inFlow : Bool) : List Char → List Char
  | [] => []
  | c :: rest =>
    let following := rest.headD endMark
    let endsAtColon := c == ':' && (isGap following ||
      (inFlow && [',', '[', ']', '\x7b', '\x7d'].contains following))
    if isGap c || endsAtColon ||
        (inFlow && [',', '?', '[', ']', '\x7b', '\x7d'].contains c) then []
    else c :: plainRun inFlow rest

/-- The line breaks behind the first one in a plain scalar, or nothing in front of a separator
of documents. -/
def plainBreaks : (fuel : Nat) → Cursor → Option (List Char) × Cursor
  | 0, cur => (some [], cur)
  | fuel + 1, cur =>
    if cur.head == ' ' then plainBreaks fuel cur.next
    else if isBreak cur.head then
      let (lineBreak, cur) := cur.lineBreak
      if cur.atSeparator then (none, cur)
      else
        let (more, cur) := plainBreaks fuel cur
        (more.map fun more => lineBreak ++ more, cur)
    else (some [], cur)

/-- What stands between two words of a plain scalar. Nothing ends the scalar; the last component
says whether a line was ended. -/
def plainGap (cur : Cursor) : List Char × Cursor × Bool :=
  let (blanks, cur) := cur.takeWhile (· == ' ')
  if isBreak cur.head then
    let (lineBreak, cur) := cur.lineBreak
    if cur.atSeparator then ([], cur, true)
    else
      match cur.plainBreaks (cur.rest.length + 1) with
      | (none, cur) => ([], cur, true)
      | (some breaks, cur) =>
        let first :=
          if lineBreak != ['\n'] then lineBreak else if breaks.isEmpty then [' '] else []
        (first ++ breaks, cur, true)
  else (blanks, cur, false)

/-- A plain scalar, given the least column of its further lines and what stands in front of the
next word. The last component says whether a line was ended behind the last word. -/
def plainScalar (inFlow : Bool) (indent : Int) :
    (fuel : Nat) → (gap : List Char) → (lineEnded : Bool) → Cursor →
      List Char × Cursor × Bool
  | 0, _, lineEnded, cur => ([], cur, lineEnded)
  | fuel + 1, gap, lineEnded, cur =>
    if cur.head == '#' then ([], cur, lineEnded)
    else
      let run := plainRun inFlow cur.rest
      if run.isEmpty then ([], cur, lineEnded)
      else
        let (following, cur, ended) := (cur.skip run.length).plainGap
        if following.isEmpty || cur.head == '#' || (!inFlow && cur.column < indent) then
          (gap ++ run, cur, ended)
        else
          let (more, cur, ended) := plainScalar inFlow indent fuel following ended cur
          (gap ++ run ++ more, cur, ended)

/-- How the line breaks at the end of a block scalar are treated. -/
inductive Chomping where
  | clip | strip | keep
  deriving DecidableEq

/-- The chomping and the relative indentation that a block scalar states. -/
def blockHeader (cur : Cursor) : Except Failure (Chomping × Option Nat × Cursor) := do
  let chomping? (c : Char) : Option Chomping :=
    if c == '+' then some .keep else if c == '-' then some .strip else none
  let indent? (c : Char) : Option Nat :=
    if c.isDigit then some (c.toNat - '0'.toNat) else none
  let (chomping, indent, cur) :=
    match chomping? cur.head with
    | some chomping =>
      match indent? cur.next.head with
      | some n => (chomping, some n, cur.skip 2)
      | none => (chomping, none, cur.next)
    | none =>
      match indent? cur.head with
      | some n =>
        match chomping? cur.next.head with
        | some chomping => (chomping, some n, cur.skip 2)
        | none => (Chomping.clip, some n, cur.next)
      | none => (Chomping.clip, none, cur)
  if indent == some 0 then throw .malformed
  if isSpaceBreakOrEnd cur.head then return (chomping, indent, cur) else throw .malformed

/-- The empty lines at the beginning of a block scalar and the greatest column in them. -/
def blockIndentation : (fuel greatest : Nat) → Cursor → List Char × Nat × Cursor
  | 0, greatest, cur => ([], greatest, cur)
  | fuel + 1, greatest, cur =>
    if cur.head == ' ' then
      let cur := cur.next
      blockIndentation fuel (max greatest cur.column) cur
    else if isBreak cur.head then
      let (lineBreak, cur) := cur.lineBreak
      let (more, greatest, cur) := blockIndentation fuel greatest cur
      (lineBreak ++ more, greatest, cur)
    else ([], greatest, cur)

/-- The position behind blanks in front of a column. -/
def skipIndent (indent : Nat) (cur : Cursor) : Cursor :=
  cur.skip ((cur.rest.take (indent - cur.column)).takeWhile (· == ' ')).length

/-- The line breaks in front of the next line of a block scalar. -/
def blockBreaks (indent : Nat) : (fuel : Nat) → Cursor → List Char × Cursor
  | 0, cur => ([], cur)
  | fuel + 1, cur =>
    let cur := cur.skipIndent indent
    if isBreak cur.head then
      let (lineBreak, cur) := cur.lineBreak
      let (more, cur) := blockBreaks indent fuel cur
      (lineBreak ++ more, cur)
    else ([], cur)

/-- The lines of a block scalar behind the given line breaks, with the line break of the last
line and those behind it. -/
def blockLines (folded : Bool) (indent : Nat) :
    (fuel : Nat) → (lastBreak breaks : List Char) → Cursor →
      List Char × List Char × List Char × Cursor
  | 0, lastBreak, breaks, cur => ([], lastBreak, breaks, cur)
  | fuel + 1, lastBreak, breaks, cur =>
    if cur.column == indent && cur.head != endMark then
      let flush := cur.head != ' ' && cur.head != '\t'
      let (text, cur) := cur.takeWhile fun c => !isBreakOrEnd c
      let (lineBreak, cur) := cur.lineBreak
      let (following, cur) := cur.blockBreaks indent (cur.rest.length + 1)
      if cur.column == indent && cur.head != endMark then
        let joint :=
          if folded && lineBreak == ['\n'] && flush && cur.head != ' ' && cur.head != '\t' then
            if following.isEmpty then [' '] else []
          else lineBreak
        let (more, lastBreak, last, cur) := blockLines folded indent fuel lineBreak following cur
        (breaks ++ text ++ joint ++ more, lastBreak, last, cur)
      else (breaks ++ text, lineBreak, following, cur)
    else ([], lastBreak, breaks, cur)

/-- A block scalar at its indicator, given the column of the block around it. -/
def blockScalar (folded : Bool) (indent : Int) (cur : Cursor) :
    Except Failure (List Char × Cursor) := do
  let (chomping, increment, cur) ← cur.next.blockHeader
  let cur ← cur.ignoredLine
  let least := (max (indent + 1) 1).toNat
  let (breaks, column, cur) :=
    match increment with
    | none =>
      let (breaks, greatest, cur) := cur.blockIndentation (cur.rest.length + 1) 0
      (breaks, max least greatest, cur)
    | some n =>
      let column := least + n - 1
      let (breaks, cur) := cur.blockBreaks column (cur.rest.length + 1)
      (breaks, column, cur)
  let (text, lastBreak, last, cur) :=
    cur.blockLines folded column (cur.rest.length + 1) [] breaks
  match chomping with
  | .strip => return (text, cur)
  | .clip => return (text ++ lastBreak, cur)
  | .keep => return (text ++ lastBreak ++ last, cur)

end Cursor

end DeviceApi.Yaml
