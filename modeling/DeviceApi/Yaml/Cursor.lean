import DeviceApi.Fault

/-!
# Positions in YAML text

A cursor stands in a text and knows its line and column. Behind the last character it sees the
character with code point zero, which does not occur in a text.
-/

namespace DeviceApi.Yaml

/-- Why a text is not read: it is not well-formed, or one of its values is refused. -/
inductive Failure where
  | malformed
  | unfit (m : Misfit)
  deriving DecidableEq, Repr

/-- The character seen behind the end. -/
def endMark : Char := '\x00'

/-- Whether a character ends a line. -/
def isBreak (c : Char) : Bool :=
  c == '\n' || c == '\r' || c == '\u0085' || c == '\u2028' || c == '\u2029'

/-- Whether a character ends a line or is behind the end. -/
def isBreakOrEnd (c : Char) : Bool := isBreak c || c == endMark

/-- Whether a character is a blank, ends a line or is behind the end. -/
def isGap (c : Char) : Bool := c == ' ' || c == '\t' || isBreakOrEnd c

/-- Whether a character ends a line, is behind the end or is a blank other than a tab. -/
def isSpaceBreakOrEnd (c : Char) : Bool := c == ' ' || isBreakOrEnd c

/-- Whether a character may stand in an anchor or in the name of a directive. -/
def isNameChar (c : Char) : Bool := c.isAlphanum || c == '-' || c == '_'

/-- Whether a character may stand in a text. -/
def isAllowed (c : Char) : Bool :=
  let n := c.toNat
  n == 0x09 || n == 0x0A || n == 0x0D || n == 0x85 || (0x20 ≤ n && n ≤ 0x7E) ||
    (0xA0 ≤ n && n ≤ 0xFFFD) || 0x10000 ≤ n

/-- A position in a text. -/
structure Cursor where
  rest : List Char
  index : Nat := 0
  line : Nat := 0
  column : Nat := 0

namespace Cursor

/-- The character at a distance. -/
def peek (cur : Cursor) (distance : Nat) : Char := cur.rest[distance]?.getD endMark

/-- The character at the position. -/
def head (cur : Cursor) : Char := cur.rest.headD endMark

/-- The position behind the next character. -/
def next (cur : Cursor) : Cursor :=
  match cur.rest with
  | [] => cur
  | c :: rest =>
    let ends := (isBreak c && c != '\r') || (c == '\r' && rest.headD endMark != '\n')
    if ends then { rest, index := cur.index + 1, line := cur.line + 1, column := 0 }
    else
      { rest, index := cur.index + 1, line := cur.line
        column := if c == '\ufeff' then cur.column else cur.column + 1 }

/-- The position a number of characters further. -/
def skip (cur : Cursor) : Nat → Cursor
  | 0 => cur
  | n + 1 => cur.next.skip n

/-- The characters up to the first one without a property, and the position behind them. -/
def takeWhile (cur : Cursor) (p : Char → Bool) : List Char × Cursor :=
  let run := cur.rest.takeWhile p
  (run, cur.skip run.length)

/-- The position behind all characters with a property. -/
def dropWhile (cur : Cursor) (p : Char → Bool) : Cursor := (cur.takeWhile p).2

/-- The line break at the position as it counts in a text, and the position behind it. -/
def lineBreak (cur : Cursor) : List Char × Cursor :=
  match cur.rest with
  | '\r' :: '\n' :: _ => (['\n'], cur.skip 2)
  | c :: _ =>
    if c == '\u2028' || c == '\u2029' then ([c], cur.next)
    else if isBreak c then (['\n'], cur.next)
    else ([], cur)
  | [] => ([], cur)

/-- Whether three dashes or three points stand alone at the position. -/
def atSeparator (cur : Cursor) : Bool :=
  match cur.rest with
  | '-' :: '-' :: '-' :: _ => isGap (cur.peek 3)
  | '.' :: '.' :: '.' :: _ => isGap (cur.peek 3)
  | _ => false

/-- The position behind blanks, a comment and the end of a line. Anything else is refused. -/
def ignoredLine (cur : Cursor) : Except Failure Cursor :=
  let cur := cur.dropWhile (· == ' ')
  let cur := if cur.head == '#' then cur.dropWhile fun c => !isBreakOrEnd c else cur
  if isBreakOrEnd cur.head then .ok cur.lineBreak.2 else .error .malformed

end Cursor

end DeviceApi.Yaml
