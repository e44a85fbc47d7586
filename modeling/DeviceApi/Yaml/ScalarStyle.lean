import DeviceApi.Text.Code
import DeviceApi.Yaml.Cursor
import DeviceApi.Yaml.PlainScalar

/-!
# Styles of scalars

A scalar is written plainly if it is read back as the same value, between single quotes if
these keep its characters, and between double quotes with escapes otherwise.
-/

namespace DeviceApi.Yaml

/-- The ways in which a scalar is written. -/
inductive ScalarStyle where
  | plain | single | double | literal
  deriving DecidableEq, Repr

namespace ScalarStyle

/-- Whether a character is written as a line break. -/
def isBreakChar (c : Char) : Bool :=
  c == '\n' || c == '\u0085' || c == '\u2028' || c == '\u2029'

/-- Whether a character is written only as an escape. -/
def isSpecial (c : Char) : Bool :=
  let n := Text.codeOf c
  let isPlainAscii := c == '\n' || (0x20 ≤ n && n ≤ 0x7E)
  let isShown := n == 0x85 || (0xA0 ≤ n && n ≤ 0xFFFD && !Text.isHalf n) ||
    (0x10000 ≤ n && n < 0x10FFFF)
  !isPlainAscii && (!isShown || c == '\ufeff')

/-- Whether a text has a line break. -/
def isMultiline (cs : List Char) : Bool := cs.any isBreakChar

/-- Whether a space stands next to a line break. -/
def hasSpaceAtBreak (cs : List Char) : Bool :=
  (cs.zip (cs.drop 1)).any fun (c, d) => (c == ' ' && isBreakChar d) || (isBreakChar c && d == ' ')

/-- Whether a character that begins a text is taken for something else, given what follows. -/
def startsOther (c : Char) (rest : List Char) : Bool :=
  "#,[]&*!|>'\"%@".toList.contains c || ['\x7b', '\x7d', '\x60'].contains c ||
    ((c == '?' || c == ':' || c == '-') && isGap (rest.headD endMark))

/-- Whether a colon in front of a gap or a number sign behind one stands inside of a text, given
the character in front. -/
def hasIndicator (previous : Char) : List Char → Bool
  | [] => false
  | c :: rest =>
    (c == ':' && isGap (rest.headD endMark)) || (c == '#' && isGap previous) ||
      hasIndicator c rest

/-- Whether a text would not be read back as one plain scalar. -/
def looksLikeOther (cs : List Char) : Bool :=
  cs.take 3 == ['-', '-', '-'] || cs.take 3 == ['.', '.', '.'] ||
    match cs with
    | [] => false
    | c :: rest => startsOther c rest || hasIndicator c rest

/-- Whether the characters of a text may stand plainly. -/
def allowsPlain (cs : List Char) : Bool :=
  !cs.any (fun c => isBreakChar c || isSpecial c) && cs.head? != some ' ' &&
    cs.getLast? != some ' ' && !looksLikeOther cs

/-- Whether single quotes keep a text. -/
def allowsSingle (cs : List Char) : Bool := !cs.any isSpecial && !hasSpaceAtBreak cs

/-- The style of a scalar with a tag. The lines that octets are written as are kept. -/
def choose (tag : Tag) (text : String) : ScalarStyle :=
  let cs := text.toList
  if tag == .octets then if cs.isEmpty then .double else .literal
  else if Tag.ofPlain text == tag && allowsPlain cs then .plain
  else if allowsSingle cs then .single
  else .double

end ScalarStyle

end DeviceApi.Yaml
