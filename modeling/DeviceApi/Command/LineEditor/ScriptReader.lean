import DeviceApi.Command.LineEditor.Instruction
import DeviceApi.Text.Encoding

/-!
# The notation of scripts of the line editor

A fault of a script is reported with the number of octets that have been read when it is found.
-/

namespace DeviceApi.Command.LineEditor

/-- What is wrong with a script, and what of it has not been read. -/
structure ScriptFault where
  message : String
  rest : List Char
  /-- The files that are written to by what has been read. -/
  targets : List String := []

variable {α : Type}

/-- Fails in front of a rest. -/
def fault (message : String) (rest : List Char) : Except ScriptFault α := .error { message, rest }

/-- Whether a character is a blank inside of a line. -/
def isBlank (c : Char) : Bool := c == ' ' || c == '\t'

/-- The number at the front, and what follows it. -/
def numberAt (cs : List Char) : Nat × List Char :=
  let digits := cs.takeWhile Char.isDigit
  (PatternText.number digits, cs.drop digits.length)

/-! ## Escapes -/

/-- The character of an escape by number, and what follows its digits. -/
def numbered? (base most : Nat) (cs : List Char) : Option (Char × List Char) :=
  let digits := (cs.take most).takeWhile fun c => (Text.hexValue? c).any (· < base)
  if digits.isEmpty then none
  else
    let n := digits.foldl (fun n c => base * n + (Text.hexValue? c).getD 0) 0
    some (charOfValue n, cs.drop digits.length)

/-- The character of the escape behind a backslash, and what follows it. -/
def escapedChar? : List Char → Option (Char × List Char)
  | 'a' :: rest => some ('\x07', rest)
  | 'f' :: rest => some ('\x0c', rest)
  | 'n' :: rest => some ('\n', rest)
  | 'r' :: rest => some ('\r', rest)
  | 't' :: rest => some ('\t', rest)
  | 'v' :: rest => some ('\x0b', rest)
  | 'c' :: c :: rest => some (Char.ofNat (c.toUpper.toNat ^^^ 0x40), rest)
  | 'd' :: rest => numbered? 10 3 rest
  | 'o' :: rest => numbered? 8 3 rest
  | 'x' :: rest => numbered? 16 2 rest
  | _ => none

/-- A pattern in which escapes of characters have been undone. A character keeps the meaning that
it has in a pattern. -/
def plainPattern : (fuel : Nat) → List Char → List Char
  | 0, cs => cs
  | fuel + 1, cs =>
    match cs with
    | '\\' :: rest =>
      match rest.head?, escapedChar? rest with
      | some 'n', _ => '\\' :: 'n' :: plainPattern fuel (rest.drop 1)
      | _, some (c, rest) => c :: plainPattern fuel rest
      | some c, none => '\\' :: c :: plainPattern fuel (rest.drop 1)
      | none, none => ['\\']
    | c :: rest => c :: plainPattern fuel rest
    | [] => []

/-- A text in which every escape has been undone. -/
def plainText : (fuel : Nat) → List Char → List Char
  | 0, cs => cs
  | fuel + 1, cs =>
    match cs with
    | '\\' :: rest =>
      match escapedChar? rest, rest with
      | some (c, rest), _ => c :: plainText fuel rest
      | none, c :: rest => c :: plainText fuel rest
      | none, [] => ['\\']
    | c :: rest => c :: plainText fuel rest
    | [] => []

/-! ## Delimited texts -/

/-- A set of characters up to its closing bracket, and what follows it. The first characters are
those behind the opening bracket. -/
def bracketed (cs : List Char) : List Char × List Char :=
  let (sign, cs) := if cs.head? == some '^' then (['^'], cs.drop 1) else ([], cs)
  let (bracket, cs) := if cs.head? == some ']' then ([']'], cs.drop 1) else ([], cs)
  let (inside, rest) := items cs.length cs
  (sign ++ bracket ++ inside, rest)
where
  /-- The members up to the closing bracket. -/
  items : (fuel : Nat) → List Char → List Char × List Char
    | 0, cs => ([], cs)
    | fuel + 1, cs =>
      match cs with
      | [] => ([], [])
      | ']' :: rest => ([']'], rest)
      | '\n' :: _ => ([], cs)
      | '\\' :: 'n' :: rest =>
        let (more, rest) := items fuel rest
        ('\n' :: more, rest)
      | '[' :: ':' :: rest =>
        let name := rest.takeWhile fun c => c.isAlpha
        if (rest.drop name.length).take 2 == [':', ']'] then
          let (more, rest) := items fuel (rest.drop (name.length + 2))
          ('[' :: ':' :: name ++ ':' :: ']' :: more, rest)
        else
          let (more, rest) := items fuel (':' :: rest)
          ('[' :: more, rest)
      | c :: rest =>
        let (more, rest) := items fuel rest
        (c :: more, rest)

/-- A pattern up to a delimiter that is neither escaped nor in a set, and what follows the
delimiter. What cannot be read ends in front of a line feed. -/
def patternUpTo (delimiter : Char) : (fuel : Nat) → List Char →
    Except (List Char) (List Char × List Char)
  | 0, cs => .error cs
  | fuel + 1, cs => do
    match cs with
    | [] => throw []
    | '\n' :: _ => throw cs
    | ['\\'] => throw []
    | '\\' :: c :: rest =>
      let (text, rest) ← patternUpTo delimiter fuel rest
      let here := if c == delimiter then [c] else if c == '\n' then ['\n'] else ['\\', c]
      return (here ++ text, rest)
    | c :: rest =>
      if c == delimiter then return ([], rest)
      else if c == '[' then
        let (set, rest) := bracketed rest
        let (text, rest) ← patternUpTo delimiter fuel rest
        return ('[' :: set ++ text, rest)
      else
        let (text, rest) ← patternUpTo delimiter fuel rest
        return (c :: text, rest)

/-- A text up to a delimiter that is not escaped, and what follows the delimiter. -/
def textUpTo (delimiter : Char) : (fuel : Nat) → List Char →
    Except (List Char) (List Char × List Char)
  | 0, cs => .error cs
  | fuel + 1, cs => do
    match cs with
    | [] => throw []
    | '\n' :: _ => throw cs
    | ['\\'] => throw []
    | '\\' :: c :: rest =>
      let (text, rest) ← textUpTo delimiter fuel rest
      let here := if c == '\n' then ['\n']
        else if c == delimiter && c != '&' then [c] else ['\\', c]
      return (here ++ text, rest)
    | c :: rest =>
      if c == delimiter then return ([], rest)
      else
        let (text, rest) ← textUpTo delimiter fuel rest
        return (c :: text, rest)

/-- The search for a pattern; an empty pattern is the last one. -/
def searchFor (extended : Bool) (text : List Char) (manner : Pattern.Manner)
    (rest : List Char) : Except ScriptFault Search := do
  if text.isEmpty then
    if manner != {} then fault "cannot specify modifiers on empty regexp" rest
    return { pattern := none, manner }
  match PatternText.read extended (rejoined (plainPattern text.length text)) with
  | .ok p => return { pattern := some p, manner }
  | .error f => fault f.message rest

/-! ## Addresses -/

/-- The flags behind a pattern in an address. -/
def addressFlags : Pattern.Manner → List Char → Pattern.Manner × List Char
  | w, [] => (w, [])
  | w, c :: rest =>
    if isBlank c then addressFlags w rest
    else if c == 'I' then addressFlags { w with ignoreCase := true } rest
    else if c == 'M' then addressFlags { w with byLine := true } rest
    else (w, c :: rest)

/-- The address at the front, if there is one. -/
def address? (extended : Bool) (cs : List Char) : Except ScriptFault (Option RangeEnd × List Char) := do
  let pattern (delimiter : Char) (rest : List Char) : Except ScriptFault (Option RangeEnd × List Char) := do
    match patternUpTo delimiter (rest.length + 1) rest with
    | .error rest => fault "unterminated address regex" rest
    | .ok (text, rest) =>
      let (manner, rest) := addressFlags {} rest
      return (some (.at (.matching (← searchFor extended text manner rest))), rest)
  match cs with
  | '/' :: rest => pattern '/' rest
  | '\\' :: c :: rest => pattern c rest
  | '$' :: rest => return (some (.at .last), rest)
  | '+' :: rest =>
    let (n, rest) := numberAt (rest.dropWhile isBlank)
    return (some (.after n), rest)
  | '~' :: rest =>
    let (n, rest) := numberAt (rest.dropWhile isBlank)
    return (some (.multiple n), rest)
  | c :: _ =>
    if !c.isDigit then return (none, cs)
    let (n, rest) := numberAt cs
    match rest.dropWhile isBlank with
    | '~' :: behind =>
      let (step, rest) := numberAt (behind.dropWhile isBlank)
      return (some (.at (if step = 0 then .line n else .every n step)), rest)
    | rest => return (some (.at (.line n)), rest)
  | [] => return (none, [])

/-- The addresses in front of an instruction. -/
def addresses (extended : Bool) (cs : List Char) :
    Except ScriptFault ((Option Address × Option RangeEnd) × List Char) := do
  let (start, rest) ← address? extended cs
  match start with
  | none => return ((none, none), rest)
  | some (.at start) =>
    let rest := rest.dropWhile isBlank
    let (stop, rest) ← match rest with
      | ',' :: rest =>
        let rest := rest.dropWhile isBlank
        let (stop, behind) ← address? extended rest
        if stop.isNone then fault "unexpected `,'" (rest.drop 1)
        pure (stop, behind.dropWhile isBlank)
      | rest => pure (none, rest)
    match start, stop with
    | .line 0, some (.at (.matching _)) => return ((some start, stop), rest)
    | .line 0, _ => fault "invalid usage of line address 0" (rest.drop 1)
    | _, _ => return ((some start, stop), rest)
  | some _ => fault "invalid usage of +N or ~N as first address" rest

/-! ## Actions -/

/-- Goes behind the end of an instruction. -/
def endOfInstruction (cs : List Char) : Except ScriptFault (List Char) :=
  match cs.dropWhile isBlank with
  | [] => .ok []
  | c :: rest =>
    if c == '\n' || c == ';' then .ok rest
    else if c == '\x7d' || c == '#' then .ok (c :: rest)
    else fault "extra characters after command" rest

/-- The pieces of a replacement. -/
def pieces : (fuel : Nat) → List Char → List Piece
  | 0, _ => []
  | fuel + 1, cs =>
    match cs with
    | [] => []
    | '&' :: rest => .whole :: pieces fuel rest
    | '\\' :: 'U' :: rest => .change .upper :: pieces fuel rest
    | '\\' :: 'L' :: rest => .change .lower :: pieces fuel rest
    | '\\' :: 'E' :: rest => .change .none :: pieces fuel rest
    | '\\' :: 'u' :: rest => .change .nextUpper :: pieces fuel rest
    | '\\' :: 'l' :: rest => .change .nextLower :: pieces fuel rest
    | '\\' :: c :: rest =>
      if c == '0' then .whole :: pieces fuel rest
      else if c.isDigit then .group (c.toNat - '0'.toNat) :: pieces fuel rest
      else
        match escapedChar? (c :: rest) with
        | some (c, rest) => .char c :: pieces fuel rest
        | none => .char c :: pieces fuel rest
    | c :: rest => .char c :: pieces fuel rest

/-- The flags behind a substitution. -/
structure Flags where
  every : Bool := false
  print : Bool := false
  manner : Pattern.Manner := {}
  first : Option Nat := none
  file : Option String := none

/-- The name of a file up to the end of the line. -/
def fileAt (cs : List Char) : Except ScriptFault (String × List Char) := do
  let cs := cs.dropWhile isBlank
  let name := cs.takeWhile (· != '\n')
  let rest := cs.drop name.length
  if name.isEmpty then fault "missing filename in r/R/w/W commands" (rest.drop 1)
  return (String.ofList name, rest.drop 1)

/-- Reads the flags behind a substitution. -/
def flags : (fuel : Nat) → Flags → List Char → Except ScriptFault (Flags × List Char)
  | 0, f, cs => .ok (f, cs)
  | fuel + 1, f, cs => do
    match cs with
    | [] => return (f, [])
    | 'g' :: rest =>
      if f.every then fault "multiple `g' options to `s' command" rest
      flags fuel { f with every := true } rest
    | 'p' :: rest =>
      if f.print then fault "multiple `p' options to `s' command" rest
      flags fuel { f with print := true } rest
    | 'w' :: rest =>
      let (name, rest) ← fileAt rest
      return ({ f with file := some name }, rest)
    | c :: rest =>
      if c == 'i' || c == 'I' then
        flags fuel { f with manner := { f.manner with ignoreCase := true } } rest
      else if c == 'm' || c == 'M' then
        flags fuel { f with manner := { f.manner with byLine := true } } rest
      else if isBlank c then flags fuel f rest
      else if c == ';' || c == '\n' then return (f, rest)
      else if c == '\x7d' || c == '#' then return (f, cs)
      else if c.isDigit then
        if f.first.isSome then fault "multiple number options to `s' command" rest
        let (n, rest) := numberAt cs
        if n = 0 then fault "number option to `s' command may not be zero" rest
        flags fuel { f with first := some n } rest
      else fault "unknown option to `s'" rest

/-- A substitution behind its letter. -/
def substitution (extended : Bool) (cs : List Char) : Except ScriptFault (Action × List Char) := do
  let message := "unterminated `s' command"
  match cs with
  | [] => fault message []
  | delimiter :: rest =>
    match patternUpTo delimiter (rest.length + 1) rest with
    | .error rest => fault message rest
    | .ok (pattern, rest) =>
      match textUpTo delimiter (rest.length + 1) rest with
      | .error rest => fault message rest
      | .ok (replacement, rest) =>
        let (f, rest) ← flags (rest.length + 1) {} rest
        let opened (f : Flags) (e : ScriptFault) : ScriptFault :=
          { e with targets := f.file.toList }
        let search ← (searchFor extended pattern f.manner rest).mapError (opened f)
        let replacement := pieces replacement.length replacement
        let groups := search.pattern.map Pattern.groupCount
        let used := replacement.foldl (fun n piece =>
          match piece with
          | .group k => max n k
          | _ => n) 0
        if groups.any (· < used) then
          (fault s!"invalid reference \\{used} on `s' command's RHS" rest).mapError (opened f)
        return (.substitute { search, replacement, every := f.every, print := f.print
                              first := f.first.getD 1, file := f.file }, rest)

/-- A translation behind its letter. -/
def translation (cs : List Char) : Except ScriptFault (Action × List Char) := do
  let message := "unterminated `y' command"
  match cs with
  | [] => fault message []
  | delimiter :: rest =>
    match textUpTo delimiter (rest.length + 1) rest with
    | .error rest => fault message rest
    | .ok (source, rest) =>
      match textUpTo delimiter (rest.length + 1) rest with
      | .error rest => fault message rest
      | .ok (target, rest) =>
        let source := rejoined (plainText source.length source)
        let target := rejoined (plainText target.length target)
        if source.length ≠ target.length then
          fault "strings for `y' command are different lengths" rest
        return (.translate (source.zip target), ← endOfInstruction rest)

/-- The text of lines that are added, up to a line feed that is not escaped. -/
def addedLines : (fuel : Nat) → List Char → List Char × List Char
  | 0, cs => ([], cs)
  | fuel + 1, cs =>
    match cs with
    | [] => ([], [])
    | ['\\'] => ([], [])
    | '\n' :: rest => ([], rest)
    | '\\' :: rest =>
      match (if rest.head? == some '\n' then none else escapedChar? rest), rest with
      | some (c, rest), _ =>
        let (text, rest) := addedLines fuel rest
        (c :: text, rest)
      | none, c :: rest =>
        let (text, rest) := addedLines fuel rest
        (c :: text, rest)
      | none, [] => ([], [])
    | c :: rest =>
      let (text, rest) := addedLines fuel rest
      (c :: text, rest)

/-- The text of lines that are added if it ends with a backslash at the end of the script. Then
its escapes stand as they are. -/
def openLines? : List Char → Option (List Char)
  | [] => none
  | ['\\'] => some []
  | '\\' :: c :: rest => (openLines? rest).map fun text => '\\' :: c :: text
  | '\n' :: _ => none
  | c :: rest => (openLines? rest).map (c :: ·)

/-- The text behind an instruction that adds lines. It begins in the next line behind a
backslash, or else at once. -/
def addedText (cs : List Char) : Except ScriptFault (String × List Char) := do
  let lines (cs : List Char) : Except ScriptFault (String × List Char) :=
    let (text, rest) := match openLines? cs with
      | some text => (text, [])
      | none => addedLines cs.length cs
    .ok (String.ofList (text ++ ['\n']), rest)
  match cs.dropWhile isBlank with
  | [] => fault "expected \\ after `a', `c' or `i'" []
  | '\\' :: rest =>
    match rest.dropWhile isBlank with
    | [] => return ("", [])
    | '\n' :: rest => lines rest
    | _ => lines rest
  | cs => lines cs

/-- A label, which ends at a blank, a semicolon or a brace. -/
def labelAt (cs : List Char) : String × List Char :=
  let cs := cs.dropWhile isBlank
  let name := cs.takeWhile fun c => !isBlank c && c != '\n' && c != ';' && c != '\x7d'
  (String.ofList name, cs.drop name.length)

/-- Actions of one letter without arguments. -/
def simpleActions : List (Char × Action) :=
  [('d', .delete), ('D', .deleteFirst), ('p', .print), ('P', .printFirst), ('=', .number),
   ('F', .fileName), ('z', .clear), ('h', .hold), ('H', .holdMore), ('g', .get), ('G', .getMore),
   ('x', .exchange), ('n', .next), ('N', .nextMore)]

/-- The action of a letter. -/
def actionOf (extended : Bool) (letter : Char) (rest : List Char) : Except ScriptFault (Action × List Char) := do
  let ofText (make : String → Action) : Except ScriptFault (Action × List Char) := do
    let (text, rest) ← addedText rest
    return (make text, rest)
  let ofFile (make : String → Action) : Except ScriptFault (Action × List Char) := do
    let (name, rest) ← fileAt rest
    return (make name, rest)
  let ofLabel (make : String → Action) : Except ScriptFault (Action × List Char) :=
    let (name, rest) := labelAt rest
    .ok (make name, rest)
  let ofNumber (make : Option Nat → Action) : Except ScriptFault (Action × List Char) := do
    let rest := rest.dropWhile isBlank
    let (n, behind) := numberAt rest
    let given := rest.head?.any Char.isDigit
    return (make (if given then some n else none), ← endOfInstruction behind)
  match simpleActions.lookup letter with
  | some action => return (action, ← endOfInstruction rest)
  | none =>
    match letter with
    | 's' => substitution extended rest
    | 'y' => translation rest
    | 'a' => ofText .append
    | 'i' => ofText .insert
    | 'c' => ofText .change
    | 'r' => ofFile .readFile
    | 'R' => ofFile .readLine
    | 'w' => ofFile .writeFile
    | 'W' => ofFile .writeFirst
    | 'b' => ofLabel .jump
    | 't' => ofLabel .jumpIfChanged
    | 'T' => ofLabel .jumpUnlessChanged
    | 'q' => ofNumber fun n => .quit (n.getD 0)
    | 'Q' => ofNumber fun n => .quitSilently (n.getD 0)
    | 'l' => ofNumber .list
    | 'v' => ofLabel fun _ => .nothing
    | letter => fault s!"unknown command: `{letter}'" rest

/-- Reads instructions behind others. `opened` are the places of the blocks that are open, given
that of a block in front of a rest. -/
def instructions (extended : Bool) (place : List Char → String) : (fuel : Nat) →
    (opened : List String) → List Char → Except ScriptFault (List Instruction × List String)
  | 0, opened, _ => .ok ([], opened)
  | fuel + 1, opened, cs => do
    let cs := cs.dropWhile fun c => isBlank c || c == '\n' || c == ';'
    if cs.isEmpty then return ([], opened)
    let ((start, stop), cs) ← addresses extended cs
    let (others, cs) ← match cs with
      | '!' :: rest =>
        let rest := rest.dropWhile isBlank
        if rest.head? == some '!' then fault "multiple `!'s" (rest.drop 1)
        pure (true, rest)
      | cs => pure (false, cs)
    match cs with
    | [] => fault "missing command" []
    | '#' :: rest =>
      if start.isSome then fault "comments don't accept any addresses" rest
      instructions extended place fuel opened (rest.dropWhile (· != '\n'))
    | '\x7b' :: rest =>
      let (more, opened) ← instructions extended place fuel (place rest :: opened) rest
      return ({ start, stop, others, action := .block } :: more, opened)
    | '\x7d' :: rest =>
      if opened.isEmpty then fault "unexpected `\x7d'" rest
      if start.isSome then fault "`\x7d' doesn't want any addresses" rest
      let rest ← endOfInstruction rest
      let (more, opened) ← instructions extended place fuel (opened.drop 1) rest
      return ({ action := .blockEnd } :: more, opened)
    | ':' :: rest =>
      if start.isSome then fault ": doesn't want any addresses" rest
      let (name, rest) := labelAt rest
      if name == "" then fault "\":\" lacks a label" rest
      let (more, opened) ← instructions extended place fuel opened rest
      return ({ action := .label name } :: more, opened)
    | letter :: rest =>
      if (letter == 'q' || letter == 'Q') && stop.isSome then
        fault "command only uses one address" rest
      let (action, rest) ← actionOf extended letter rest
      let i : Instruction := { start, stop, others, action }
      let (more, opened) ← (instructions extended place fuel opened rest).mapError fun f =>
        { f with targets := i.target?.toList ++ f.targets }
      return (i :: more, opened)

/-- A script of a command line. -/
structure ScriptText where
  text : String
  /-- The file that the script is from, if it is not an argument itself. -/
  file : Option String := none
  deriving Repr

/-- Scripts of which each that ends with a backslash goes on in the next one. -/
def joinedScripts : List ScriptText → List ScriptText
  | a :: b :: rest =>
    let slashes := (a.text.toList.reverse.takeWhile (· == '\\')).length
    if slashes % 2 = 1 then joinedScripts ({ a with text := a.text ++ "\n" ++ b.text } :: rest)
    else a :: joinedScripts (b :: rest)
  | scripts => scripts
  termination_by scripts => scripts.length

/-- The place in a script in front of a rest, where `number` scripts have been given as
arguments. -/
def ScriptText.place (s : ScriptText) (number : Nat) (rest : List Char) : String :=
  let cs := s.text.toList
  let read := cs.take (cs.length - rest.length)
  match s.file with
  | some file =>
    let line := read.count '\n' + 1
    s!"file {file} line {line}"
  | none => s!"-e expression #{number}, char {(String.ofList read).utf8ByteSize}"

/-- The place of a block in front of a rest. -/
def ScriptText.blockPlace (s : ScriptText) (number : Nat) (rest : List Char) : String :=
  if s.file.isSome then s.place number rest else s!"-e expression #{number}, char 0"

/-- The instructions of scripts, in front of which others have been given as arguments, with the
places of the blocks that remain open. -/
def readScripts (extended : Bool) : (number : Nat) → (opened : List String) → List ScriptText →
    Except (String × List String) (List Instruction × List String)
  | _, opened, [] => .ok ([], opened)
  | number, opened, script :: rest =>
    let cs := script.text.toList
    let number := if script.file.isSome then number else number + 1
    match instructions extended (script.blockPlace number) (cs.length + 1) opened cs with
    | .error f => .error (script.place number f.rest ++ ": " ++ f.message, f.targets)
    | .ok (here, opened) => do
      let (more, opened) ← (readScripts extended number opened rest).mapError fun f =>
        (f.1, here.filterMap Instruction.target? ++ f.2)
      return (here ++ more, opened)

/-- The labels of instructions. -/
def labels (instructions : List Instruction) : List String :=
  instructions.filterMap fun i =>
    match i.action with
    | .label name => some name
    | _ => none

/-- The label that is jumped to but does not exist. -/
def missingLabel? (instructions : List Instruction) : Option String :=
  instructions.findSome? fun i =>
    match i.action with
    | .jump name | .jumpIfChanged name | .jumpUnlessChanged name =>
      if name != "" && !(labels instructions).contains name then some name else none
    | _ => none

/-- The number of scripts that have been given as arguments. -/
def argumentCount (scripts : List ScriptText) : Nat :=
  (scripts.filter fun s => s.file.isNone).length

/-- The instructions of scripts, or a complaint and the files that are written to by what has
been read. -/
def read (extended : Bool) (scripts : List ScriptText) :
    Except (String × List String) (List Instruction) := do
  let (instructions, opened) ← readScripts extended 0 [] (joinedScripts scripts)
  match opened with
  | [] => return instructions
  | place :: _ => throw (place ++ ": unmatched `\x7b'", instructions.filterMap Instruction.target?)

end DeviceApi.Command.LineEditor
