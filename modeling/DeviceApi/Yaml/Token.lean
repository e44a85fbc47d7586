import DeviceApi.Text.Encoding
import DeviceApi.Yaml.ScalarText

/-!
# Tokens of YAML text

The parts that a text consists of, and how those that have a name or a tag are read. Scalars
are read in `DeviceApi.Yaml.ScalarText`.
-/

namespace DeviceApi.Yaml

/-- A part of a text. -/
inductive Token where
  | version (major : Nat)
  | handle (handle expansion : String)
  | otherDirective
  | documentStart
  | documentEnd
  | blockSequence
  | blockMapping
  | blockEnd
  | flowSequence
  | flowSequenceEnd
  | flowMapping
  | flowMappingEnd
  | blockEntry
  | flowEntry
  | key
  | value
  | alias (name : String)
  | anchor (name : String)
  | tag (handle : Option String) (suffix : String)
  | scalar (text : String) (plain : Bool)
  | streamEnd
  deriving DecidableEq, Repr

namespace Cursor

/-- Whether a character may stand directly behind an anchor or an alias. -/
def endsName (c : Char) : Bool :=
  isGap c || ['?', ':', ',', ']', '\x7d', '%', '@', '\x60'].contains c

/-- The name of an anchor or alias at its indicator. -/
def anchorName (cur : Cursor) : Except Failure (String × Cursor) :=
  let (name, cur) := cur.next.takeWhile isNameChar
  if name.isEmpty || !endsName cur.head then .error .malformed else .ok (.ofList name, cur)

/-- Whether a character may stand in the text of a tag. -/
def isTagChar (c : Char) : Bool :=
  c.isAlphanum || ("-;/?:@&=+$,_.!~*'()[]%".toList.contains c)

/-- The octets of a run of percent escapes. -/
def tagOctets : (fuel : Nat) → Cursor → Except Failure (List UInt8 × Cursor)
  | 0, _ => .error .malformed
  | fuel + 1, cur =>
    if cur.head == '%' then
      match Text.hexValue? (cur.peek 1), Text.hexValue? (cur.peek 2) with
      | some high, some low => do
        let (more, cur) ← tagOctets fuel (cur.skip 3)
        return (UInt8.ofNat (16 * high + low) :: more, cur)
      | _, _ => .error .malformed
    else .ok ([], cur)

/-- The text of a tag with its escapes resolved. -/
def tagChars : (fuel : Nat) → Cursor → Except Failure (List Char × Cursor)
  | 0, _ => .error .malformed
  | fuel + 1, cur => do
    let (run, cur) := cur.takeWhile fun c => isTagChar c && c != '%'
    if cur.head == '%' then
      let (octets, cur) ← cur.tagOctets (cur.rest.length + 1)
      let some escaped := Text.Utf8.decode? octets | throw .malformed
      let (more, cur) ← tagChars fuel cur
      return (run ++ escaped.toList ++ more, cur)
    else return (run, cur)

/-- The text of a tag, which is not empty. -/
def tagText (cur : Cursor) : Except Failure (String × Cursor) := do
  if !isTagChar cur.head then throw .malformed
  let (text, cur) ← cur.tagChars (cur.rest.length + 1)
  return (.ofList text, cur)

/-- The handle of a tag: an exclamation mark alone, or a name between two of them. -/
def tagHandle (cur : Cursor) : Except Failure (String × Cursor) :=
  if cur.head != '!' then .error .malformed
  else if cur.peek 1 == ' ' then .ok ("!", cur.next)
  else
    let (name, cur) := cur.next.takeWhile isNameChar
    if cur.head == '!' then .ok ("!" ++ .ofList name ++ "!", cur.next) else .error .malformed

/-- A tag at its indicator. -/
def tag (cur : Cursor) : Except Failure (Token × Cursor) := do
  let (token, cur) ←
    if cur.peek 1 == '<' then do
      let (suffix, cur) ← (cur.skip 2).tagText
      if cur.head != '>' then throw .malformed
      pure (Token.tag none suffix, cur.next)
    else if isGap (cur.peek 1) then pure (Token.tag none "!", cur.next)
    else do
      let word := cur.next.rest.takeWhile fun c => !isSpaceBreakOrEnd c
      let (handle, cur) ← if word.contains '!' then cur.tagHandle else pure ("!", cur.next)
      let (suffix, cur) ← cur.tagText
      pure (Token.tag (some handle) suffix, cur)
  if isSpaceBreakOrEnd cur.head then return (token, cur) else throw .malformed

/-- The digits of a version. -/
def versionNumber (cur : Cursor) : Except Failure (Nat × Cursor) :=
  let (digits, cur) := cur.takeWhile Char.isDigit
  if digits.isEmpty then .error .malformed
  else .ok (digits.foldl (fun n c => 10 * n + (c.toNat - '0'.toNat)) 0, cur)

/-- The position behind spaces. -/
def skipSpaces (cur : Cursor) : Cursor := cur.dropWhile (· == ' ')

/-- A directive at its indicator. -/
def directive (cur : Cursor) : Except Failure (Token × Cursor) := do
  let (name, cur) := cur.next.takeWhile isNameChar
  if name.isEmpty || !isSpaceBreakOrEnd cur.head then throw .malformed
  let (token, cur) ←
    match String.ofList name with
    | "YAML" => do
      let (major, cur) ← cur.skipSpaces.versionNumber
      if cur.head != '.' then throw .malformed
      let (_, cur) ← cur.next.versionNumber
      if !isSpaceBreakOrEnd cur.head then throw .malformed
      pure (Token.version major, cur)
    | "TAG" => do
      let (handle, cur) ← cur.skipSpaces.tagHandle
      if cur.head != ' ' then throw .malformed
      let (expansion, cur) ← cur.skipSpaces.tagText
      if !isSpaceBreakOrEnd cur.head then throw .malformed
      pure (Token.handle handle expansion, cur)
    | _ => pure (Token.otherDirective, cur.dropWhile fun c => !isBreakOrEnd c)
  return (token, ← cur.ignoredLine)

end Cursor

end DeviceApi.Yaml
