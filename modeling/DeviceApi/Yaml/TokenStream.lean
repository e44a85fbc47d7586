import DeviceApi.Yaml.Token

/-!
# The tokens of a text

Blocks are delimited by indentation, and a key is known as one only by the colon behind it.
So each place that may turn out to be a key is kept in mind, and the token that announces a
key is put in front of it when the colon is met. A place is given up at the end of its line;
if nothing but a key may stand there, the text is malformed.
-/

namespace DeviceApi.Yaml

/-- A place where a key may begin. -/
structure KeyPlace where
  /-- The number of the token that begins at the place. -/
  token : Nat
  /-- Whether nothing but a key may stand there. -/
  required : Bool
  index : Nat
  line : Nat
  column : Nat

/-- The state of reading tokens. -/
structure Scan where
  cursor : Cursor
  tokens : Array Token := #[]
  /-- The columns of the open blocks, the innermost one first. -/
  indents : List Nat := []
  /-- The number of open brackets. -/
  flowLevel : Nat := 0
  /-- Whether a key may begin at the position. -/
  keyAllowed : Bool := true
  /-- The places that may turn out to be keys, with the number of brackets around them. -/
  places : List (Nat × KeyPlace) := []

namespace Scan

/-- Whether a bracket is open. -/
def inFlow (s : Scan) : Bool := s.flowLevel != 0

/-- The column of the innermost block, or `-1` outside of blocks. -/
def indent (s : Scan) : Int :=
  match s.indents with
  | [] => -1
  | column :: _ => column

/-- The state after a token up to a position. -/
def emit (s : Scan) (token : Token) (cursor : Cursor) : Scan :=
  { s with tokens := s.tokens.push token, cursor }

/-- The state after the ends of the blocks behind a column. -/
def closeBlocks (s : Scan) (column : Int) : Scan :=
  if s.inFlow then s
  else
    let (closed, indents) := s.indents.span fun (indent : Nat) => decide (column < (indent : Int))
    { s with indents, tokens := s.tokens ++ Array.replicate closed.length .blockEnd }

/-- The state inside of a block at a column. If no block is open there, its start is put in
front of the token with a number. -/
def openBlock (s : Scan) (column : Nat) (start : Token) (number : Nat) : Scan :=
  if s.indent < column then
    { s with indents := column :: s.indents, tokens := s.tokens.insertIdxIfInBounds number start }
  else s

/-- The place of a key at the current number of brackets. -/
def place? (s : Scan) : Option KeyPlace := s.places.lookup s.flowLevel

/-- The state in which the place at the current number of brackets is no key. -/
def dropPlace (s : Scan) : Except Failure Scan :=
  match s.place? with
  | some place =>
    if place.required then .error .malformed
    else .ok { s with places := s.places.filter fun p => p.1 != s.flowLevel }
  | none => .ok s

/-- The state in which the position is kept in mind as the place of a key. -/
def markPlace (s : Scan) : Except Failure Scan := do
  if !s.keyAllowed then return s
  let s ← s.dropPlace
  let place : KeyPlace :=
    { token := s.tokens.size, required := !s.inFlow && s.indent == s.cursor.column
      index := s.cursor.index, line := s.cursor.line, column := s.cursor.column }
  return { s with places := (s.flowLevel, place) :: s.places }

/-- The greatest distance between the beginning of a key and its colon. -/
def maxKeyLength : Nat := 1024

/-- The state without the places that cannot be keys any more. -/
def dropStalePlaces (s : Scan) : Except Failure Scan :=
  let isStale (p : Nat × KeyPlace) : Bool :=
    p.2.line != s.cursor.line || maxKeyLength < s.cursor.index - p.2.index
  if s.places.any fun p => isStale p && p.2.required then .error .malformed
  else .ok { s with places := s.places.filter fun p => !isStale p }

/-- The state in front of the next token. A new line outside of brackets may begin with a
key. -/
def skipToToken : (fuel : Nat) → Scan → Scan
  | 0, s => s
  | fuel + 1, s =>
    let cur := s.cursor.skipSpaces
    let cur := if cur.head == '#' then cur.dropWhile fun c => !isBreakOrEnd c else cur
    if isBreak cur.head then
      skipToToken fuel
        { s with cursor := cur.lineBreak.2, keyAllowed := s.keyAllowed || !s.inFlow }
    else { s with cursor := cur }

/-- Reads something that ends all blocks. -/
def outsideBlocks (s : Scan) (read : Cursor → Except Failure (Token × Cursor)) :
    Except Failure Scan := do
  let s ← (s.closeBlocks (-1)).dropPlace
  let (token, cur) ← read s.cursor
  return { s with keyAllowed := false }.emit token cur

/-- Reads something that may be a key or the beginning of one. -/
def keyPart (s : Scan) (read : Cursor → Except Failure (Token × Cursor)) :
    Except Failure Scan := do
  let s ← s.markPlace
  let (token, cur) ← read s.cursor
  return { s with keyAllowed := false }.emit token cur

/-- Reads an opening bracket. -/
def openFlow (s : Scan) (token : Token) : Except Failure Scan := do
  let s ← s.markPlace
  return { s with flowLevel := s.flowLevel + 1, keyAllowed := true }.emit token s.cursor.next

/-- Reads a closing bracket. -/
def closeFlow (s : Scan) (token : Token) : Except Failure Scan := do
  if !s.inFlow then throw .malformed
  let s ← s.dropPlace
  return { s with flowLevel := s.flowLevel - 1, keyAllowed := false }.emit token s.cursor.next

/-- The state inside of a block at the position, where an indicator of its parts stands. -/
def atIndicator (s : Scan) (start : Token) : Except Failure Scan :=
  if s.inFlow then .ok s
  else if !s.keyAllowed then .error .malformed
  else .ok (s.openBlock s.cursor.column start s.tokens.size)

/-- Reads the indicator of an item. -/
def blockEntry (s : Scan) : Except Failure Scan := do
  let s ← { (← s.atIndicator .blockSequence) with keyAllowed := true }.dropPlace
  return s.emit .blockEntry s.cursor.next

/-- Reads the indicator of a key. -/
def key (s : Scan) : Except Failure Scan := do
  let s ← { (← s.atIndicator .blockMapping) with keyAllowed := !s.inFlow }.dropPlace
  return s.emit .key s.cursor.next

/-- Reads the indicator of a value. What stands in front of it becomes a key. -/
def value (s : Scan) : Except Failure Scan := do
  match s.place? with
  | some place =>
    let s := { s with
      places := s.places.filter fun p => p.1 != s.flowLevel
      tokens := s.tokens.insertIdxIfInBounds place.token .key
      keyAllowed := false }
    let s := if s.inFlow then s else s.openBlock place.column .blockMapping place.token
    return s.emit .value s.cursor.next
  | none =>
    let s ← { (← s.atIndicator .blockMapping) with keyAllowed := !s.inFlow }.dropPlace
    return s.emit .value s.cursor.next

/-- Reads a block scalar. -/
def blockScalar (s : Scan) (folded : Bool) : Except Failure Scan := do
  let s ← { s with keyAllowed := true }.dropPlace
  let (text, cur) ← s.cursor.blockScalar folded s.indent
  return s.emit (.scalar (.ofList text) false) cur

/-- Reads a plain scalar. -/
def plainScalar (s : Scan) : Except Failure Scan := do
  let s ← s.markPlace
  let (text, cur, lineEnded) :=
    s.cursor.plainScalar s.inFlow (s.indent + 1) (s.cursor.rest.length + 1) [] false
  return { s with keyAllowed := lineEnded }.emit (.scalar (.ofList text) true) cur

/-- Whether a plain scalar may begin at the position. -/
def atPlain (s : Scan) : Bool :=
  let c := s.cursor.head
  if c == '-' || (!s.inFlow && (c == '?' || c == ':')) then !isGap (s.cursor.peek 1)
  else !isGap c && !("-?:,[]#&*!|>'\"%@".toList ++ ['\x7b', '\x7d', '\x60']).contains c

/-- Reads the next token. The answer is nothing at the end of the text. -/
def step (s : Scan) : Except Failure (Option Scan) := do
  let s ← (s.skipToToken (s.cursor.rest.length + 1)).dropStalePlaces
  let s := s.closeBlocks s.cursor.column
  let cur := s.cursor
  let beforeGap := s.inFlow || isGap (cur.peek 1)
  let named (make : String → Token) (cur : Cursor) : Except Failure (Token × Cursor) := do
    let (name, cur) ← cur.anchorName
    return (make name, cur)
  let quoted (double : Bool) (cur : Cursor) : Except Failure (Token × Cursor) := do
    let (text, cur) ← cur.quotedScalar double
    return (.scalar (.ofList text) false, cur)
  let separator := cur.column == 0 && cur.atSeparator
  match cur.head with
  | '\x00' => return none
  | '%' =>
    if cur.column == 0 then some <$> s.outsideBlocks Cursor.directive else throw .malformed
  | '[' => some <$> s.openFlow .flowSequence
  | ']' => some <$> s.closeFlow .flowSequenceEnd
  | '\x7b' => some <$> s.openFlow .flowMapping
  | '\x7d' => some <$> s.closeFlow .flowMappingEnd
  | ',' =>
    let s ← { s with keyAllowed := true }.dropPlace
    return s.emit .flowEntry cur.next
  | '*' => some <$> s.keyPart (named .alias)
  | '&' => some <$> s.keyPart (named .anchor)
  | '!' => some <$> s.keyPart Cursor.tag
  | '\'' => some <$> s.keyPart (quoted false)
  | '"' => some <$> s.keyPart (quoted true)
  | c =>
    if separator then
      let token := if c == '-' then Token.documentStart else .documentEnd
      some <$> s.outsideBlocks fun cur => .ok (token, cur.skip 3)
    else if c == '-' && isGap (cur.peek 1) then some <$> s.blockEntry
    else if c == '?' && beforeGap then some <$> s.key
    else if c == ':' && beforeGap then some <$> s.value
    else if c == '|' && !s.inFlow then some <$> s.blockScalar false
    else if c == '>' && !s.inFlow then some <$> s.blockScalar true
    else if s.atPlain then some <$> s.plainScalar
    else throw .malformed

/-- The state behind the last token. -/
def finish (s : Scan) : Except Failure Scan := do
  let s ← (s.closeBlocks (-1)).dropPlace
  return s.emit .streamEnd s.cursor

/-- Reads the remaining tokens, up to the first failure. -/
def run : (fuel : Nat) → Scan → Array Token × Option Failure
  | 0, s => (s.tokens, some .malformed)
  | fuel + 1, s =>
    match s.step with
    | .error f => (s.tokens, some f)
    | .ok (some s) => run fuel s
    | .ok none =>
      match s.finish with
      | .error f => (s.tokens, some f)
      | .ok s => (s.tokens, none)

end Scan

/-- Tokens, and why there are no more of them if the text is not read to its end. -/
structure TokenStream where
  tokens : List Token
  failure : Option Failure

/-- The tokens of a text. A mark of the byte order at its beginning is skipped. -/
def TokenStream.ofChars (cs : List Char) : TokenStream :=
  if !cs.all isAllowed then ⟨[], some .malformed⟩
  else
    let start : Cursor := { rest := cs }
    let start := if start.head == '\ufeff' then start.next else start
    let (tokens, failure) := Scan.run (cs.length + 1) { cursor := start }
    ⟨tokens.toList, failure⟩

end DeviceApi.Yaml
