import DeviceApi.Command.Shell.Script

/-!
# Reading scripts

A script is read line by line, so that what is in front of a fault is still run. What is between
the parentheses of a substitution is read as a script of its own.
-/

namespace DeviceApi.Command.Shell

/-- Why a script is not read, and in which line. -/
structure ScriptFault where
  line : Nat
  message : String
  deriving DecidableEq, Repr

/-- A position in the text of a script. -/
structure Position where
  rest : List Char
  line : Nat := 1
  /-- The lines of documents that follow the present line. -/
  passed : Nat := 0
  /-- A token that has been looked at. -/
  ahead : Option Token := none
  /-- The texts that names stand for at the front of a command. -/
  aliases : List (String × String) := []
  /-- The names in place of which their texts are being read, with the number of characters
  behind such a text, and whether the next word is to be looked up as well. -/
  inUse : List (String × Nat × Bool) := []

/-- A computation that reads the text of a script. -/
abbrev Reading := StateT Position (Except ScriptFault)

namespace Reading

variable {α : Type}

/-- Fails at the present line. -/
def fail (message : String) : Reading α := do
  throw { line := (← get).line, message := "Syntax error: " ++ message }

/-- Fails at a token, in place of which something else may have been expected. -/
def unexpected (t : Token) (expected : Option String := none) : Reading α :=
  match expected with
  | some other => fail s!"{t.name} unexpected (expecting {other})"
  | none => fail s!"{t.name} unexpected"

/-- Passes over characters of a line. -/
def pass (count : Nat) : Reading Unit := modify fun p => { p with rest := p.rest.drop count }

/-- Passes over the end of a line. -/
def passBreak : Reading Unit :=
  modify fun p =>
    { p with rest := p.rest.drop 1, line := p.line + 1 + p.passed, passed := 0 }

/-- Passes over a character. -/
def passChar (c : Char) : Reading Unit := if c == '\n' then passBreak else pass 1

/-- Puts a token back. -/
def putBack (t : Token) : Reading Unit := modify fun p => { p with ahead := some t }

/-- Reads another text. -/
def within (text : List Char) (body : Reading α) : Reading α := do
  let outside ← get
  set { outside with rest := text, passed := 0, ahead := none }
  let answer ← body
  set outside
  return answer

end Reading

/-- Puts the text in place of a word that it stands for, and tells whether there is one. Inside
of its own text a name stands for itself. -/
def Reading.replaceAlias (t : Token) : Reading Bool := do
  let .word w := t | return false
  let some cs := bare? w | return false
  let name := String.ofList cs
  let p ← get
  match p.aliases.lookup name with
  | none => return false
  | some text =>
    if p.inUse.any fun a => a.1 == name && a.2.1 ≤ p.rest.length then return false
    let endsBlank := text.endsWith " " || text.endsWith "\t"
    let inUse := (name, p.rest.length, endsBlank) :: p.inUse
    set { p with rest := text.toList ++ p.rest, inUse }
    return true

/-- Whether the word that follows is looked up because the text in front of it ends with a
blank. -/
def Reading.passesBlank (before after : Position) : Bool :=
  before.inUse.any fun (_, behind, endsBlank) =>
    endsBlank && behind ≤ before.rest.length && after.rest.length < behind

/-- What a part of a script is enclosed in. -/
inductive Region where
  | plain
  | quotes
  /-- The braces of a parameter. -/
  | braces (quoted : Bool)
  | arithmetic (depth : Nat)
  | document
  deriving DecidableEq, Repr

namespace Region

/-- Whether the parts are quoted. -/
def quoted : Region → Bool
  | plain | braces false => false
  | _ => true

/-- Whether a backslash takes a character its meaning. -/
def escapes (r : Region) (c : Char) : Bool :=
  match r with
  | plain | braces false => true
  | quotes => "$\x60\"\\".toList.contains c
  | braces true => "$\x60\"\\\x7d".toList.contains c
  | arithmetic _ | document => "$\x60\\".toList.contains c

/-- The complaint about a region that is not closed. -/
def openMessage : Region → Option String
  | plain | document => none
  | quotes | braces true => some "Unterminated quoted string"
  | braces false => some "Missing '\x7d'"
  | arithmetic _ => some "Missing '))'"

end Region

/-- Whether a character ends a word. -/
def endsWord (c : Char) : Bool := " \t\n;&|()<>".toList.contains c

/-- Parts behind a character. -/
def consChar (c : Char) (quoted : Bool) : Word → Word
  | .text cs q :: rest =>
    if q == quoted then .text (c :: cs) q :: rest else .text [c] quoted :: .text cs q :: rest
  | rest => .text [c] quoted :: rest

/-- The text between backquotes with its escapes undone, and what follows it. -/
def betweenBackquotes (quoted : Bool) : List Char → Option (List Char × List Char)
  | [] => none
  | '\x60' :: rest => some ([], rest)
  | '\\' :: c :: rest =>
    (betweenBackquotes quoted rest).map fun (text, rest) =>
      if c == '\n' then (text, rest)
      else if "\\\x60$".toList.contains c || (quoted && c == '"') then (c :: text, rest)
      else ('\\' :: c :: text, rest)
  | c :: rest => (betweenBackquotes quoted rest).map fun (text, rest) => (c :: text, rest)

/-- What is done with a parameter, given the characters behind its name, how many of them say
so, and whether an empty value counts as a missing one. -/
def parameterUse (cs : List Char) : ParameterUse × Nat × Bool :=
  let plain? : Char → Option ParameterUse
    | '-' => some .default
    | '=' => some .assign
    | '?' => some .demand
    | '+' => some .replace
    | _ => none
  match cs with
  | '\x7d' :: _ => (.value, 0, false)
  | '%' :: '%' :: _ => (.cutEnd true, 2, false)
  | '%' :: _ => (.cutEnd false, 1, false)
  | '#' :: '#' :: _ => (.cutStart true, 2, false)
  | '#' :: _ => (.cutStart false, 1, false)
  | ':' :: c :: _ =>
    match plain? c with
    | some use => (use, 2, true)
    | none => (.unknown, 0, false)
  | c :: _ =>
    match plain? c with
    | some use => (use, 1, false)
    | none => (.unknown, 0, false)
  | [] => (.value, 0, false)

/-- Whether a character names a parameter by itself. -/
def isSpecial (c : Char) : Bool := c.isDigit || "#?$@*!-".toList.contains c

/-- The name at the front. -/
def nameAt (cs : List Char) : List Char :=
  match cs with
  | c :: _ => if c.isDigit then [] else cs.takeWhile isNameChar
  | [] => []

/-- The delimiter of a document, what follows it, and whether it is quoted. -/
def delimiterAt : (fuel : Nat) → List Char → List Char × List Char × Bool
  | 0, cs => ([], cs, false)
  | fuel + 1, cs =>
    let more (front rest : List Char) (quoted : Bool) : List Char × List Char × Bool :=
      let (text, rest, q) := delimiterAt fuel rest
      (front ++ text, rest, quoted || q)
    match cs with
    | [] => ([], [], false)
    | '\\' :: c :: rest => more [c] rest true
    | c :: rest =>
      if c == '\'' || c == '"' then
        let text := rest.takeWhile (· != c)
        more text (rest.drop (text.length + 1)) true
      else if endsWord c then ([], cs, false)
      else more [c] rest false

/-- The lines of a document up to its delimiter, what follows them, and how many they are. -/
def documentAt (delimiter : List Char) (withoutTabs : Bool) : (fuel : Nat) → List Char →
    List Char × List Char × Nat
  | 0, cs => ([], cs, 0)
  | fuel + 1, cs =>
    if cs.isEmpty then ([], [], 0)
    else
      let line := cs.takeWhile (· != '\n')
      let rest := cs.drop (line.length + 1)
      let ended := line.length < cs.length
      let shown := if withoutTabs then line.dropWhile (· == '\t') else line
      if shown == delimiter then ([], rest, 1)
      else
        let (text, rest, count) := documentAt delimiter withoutTabs fuel rest
        (shown ++ (if ended then '\n' :: text else text), rest, count + 1)

/-- What a redirection by a given operator does. -/
def redirectionKind : String → RedirectionKind
  | "<" => .read
  | ">>" => .append
  | "<>" => .readWrite
  | "<&" | ">&" => .copy
  | _ => .write

/-- How the commands of a list are separated. -/
inductive ListMode where
  /-- The list ends with the line. -/
  | line
  | block
  /-- The list may be empty. -/
  | emptyBlock
  deriving DecidableEq, Repr

/-- A command in front of another one. -/
def joined (before : Option Script) (s : Script) : Option Script :=
  match before with
  | some b => some (.sequence b s)
  | none => some s

mutual

/-- Reads the parts of a word up to the end of the region they are in, which is passed over
unless it is the end of a plain word. -/
def parts : (fuel : Nat) → Region → Reading Word
  | 0, _ => Reading.fail "end of file unexpected"
  | fuel + 1, region => do
    let quoted := region.quoted
    match (← get).rest with
    | [] =>
      match region.openMessage with
      | some message => Reading.fail message
      | none => return []
    | '\\' :: '\n' :: _ =>
      Reading.pass 1
      Reading.passBreak
      parts fuel region
    | ['\\'] =>
      Reading.pass 1
      return consChar '\\' true (← parts fuel region)
    | '\\' :: c :: _ =>
      Reading.pass 2
      let more ← parts fuel region
      return if region.escapes c then consChar c true more
        else consChar '\\' quoted (consChar c quoted more)
    | '$' :: rest =>
      if region == .document && rest.head?.isNone then
        Reading.pass 1
        return consChar '$' quoted (← parts fuel region)
      Reading.pass 1
      let here ← dollar fuel quoted
      let more ← parts fuel region
      return match here with
        | [.text [c] _] => consChar c quoted more
        | here => here ++ more
    | '\x60' :: rest =>
      match betweenBackquotes (region == .quotes) rest with
      | none => Reading.fail "EOF in backquote substitution"
      | some (text, rest) =>
        let script ← Reading.within text (list fuel .emptyBlock false none)
        modify fun p => { p with rest }
        return .output script quoted :: (← parts fuel region)
    | '\'' :: rest =>
      if quoted then
        Reading.pass 1
        return consChar '\'' quoted (← parts fuel region)
      let text := rest.takeWhile (· != '\'')
      if text.length = rest.length then Reading.fail "Unterminated quoted string"
      text.forM Reading.passChar
      Reading.pass 2
      return .quotes [.text text true] :: (← parts fuel region)
    | '"' :: _ =>
      Reading.pass 1
      match region with
      | .quotes => return []
      | .document => return consChar '"' true (← parts fuel region)
      | .arithmetic _ => return consChar '"' true (← parts fuel region)
      | region =>
        let inside ← parts fuel .quotes
        return .quotes inside :: (← parts fuel region)
    | c :: rest =>
      match region with
      | .plain =>
        if endsWord c then return []
        Reading.pass 1
        return consChar c false (← parts fuel region)
      | .braces _ =>
        Reading.passChar c
        if c == '\x7d' then return []
        return consChar c quoted (← parts fuel region)
      | .arithmetic depth =>
        Reading.passChar c
        if c == '(' then return consChar c true (← parts fuel (.arithmetic (depth + 1)))
        else if c == ')' && depth ≠ 0 then
          return consChar c true (← parts fuel (.arithmetic (depth - 1)))
        else if c == ')' && rest.head? == some ')' then
          Reading.pass 1
          return []
        else return consChar c true (← parts fuel region)
      | region =>
        Reading.passChar c
        return consChar c true (← parts fuel region)

/-- Reads what is behind a dollar sign. -/
def dollar : (fuel : Nat) → (quoted : Bool) → Reading Word
  | 0, _ => Reading.fail "end of file unexpected"
  | fuel + 1, quoted => do
    let rest := (← get).rest
    match rest with
    | '(' :: '(' :: _ =>
      Reading.pass 2
      return [.arithmetic (← parts fuel (.arithmetic 0)) quoted]
    | '(' :: _ =>
      Reading.pass 1
      let script ← list fuel .emptyBlock false none
      let t ← next fuel false false
      if t.isOperator ")" then return [.output script quoted]
      else Reading.unexpected t (some "\")\"")
    | '\x7b' :: _ =>
      Reading.pass 1
      return [← braced fuel quoted]
    | c :: _ =>
      let name := nameAt rest
      if !name.isEmpty then
        Reading.pass name.length
        return [.parameter (String.ofList name) .value false [] quoted]
      else if isSpecial c then
        Reading.pass 1
        return [.parameter (.singleton c) .value false [] quoted]
      else return [.text ['$'] quoted]
    | [] => return [.text ['$'] quoted]

/-- Reads a parameter behind its opening brace. -/
def braced : (fuel : Nat) → (quoted : Bool) → Reading WordPart
  | 0, _ => Reading.fail "end of file unexpected"
  | fuel + 1, quoted => do
    let cs := (← get).rest
    let lengthOf? : Option (List Char) := match cs with
      | '#' :: c :: rest =>
        let name := nameAt (c :: rest)
        let name := if name.isEmpty then
            if c.isDigit then (c :: rest).takeWhile Char.isDigit
            else if isSpecial c then [c] else []
          else name
        if !name.isEmpty && (cs.drop (name.length + 1)).head? == some '\x7d' then some name
        else none
      | _ => none
    match lengthOf? with
    | some name =>
      Reading.pass (name.length + 2)
      return .parameter (String.ofList name) .length false [] quoted
    | none =>
      let digits := cs.takeWhile Char.isDigit
      let name := if digits.isEmpty then nameAt cs else digits
      let name := if name.isEmpty then (cs.take 1).filter isSpecial else name
      let (use, count, emptyToo) := if name.isEmpty then (.unknown, 0, false)
        else parameterUse (cs.drop name.length)
      Reading.pass (name.length + count)
      let inside := match use with
        | .cutStart _ | .cutEnd _ => false
        | _ => quoted
      let word ← parts fuel (.braces inside)
      return .parameter (String.ofList name) use emptyToo word quoted

/-- Reads a token. -/
def token : (fuel : Nat) → Reading Token
  | 0 => Reading.fail "end of file unexpected"
  | fuel + 1 => do
    let operator (text : String) : Reading Token := do
      Reading.pass text.length
      return .operator text
    let redirection (stream : Option Nat) (cs : List Char) : Reading (Option Token) := do
      match ["<<-", "<<", "<&", "<>", "<", ">>", ">&", ">|", ">"].find? fun o =>
          o.toList.isPrefixOf cs with
      | some text =>
        Reading.pass (text.length + (if stream.isSome then 1 else 0))
        return some (.redirection stream text)
      | none => return none
    let cs := (← get).rest
    match cs with
    | [] => return .finish
    | ' ' :: _ | '\t' :: _ =>
      Reading.pass 1
      token fuel
    | '\\' :: '\n' :: _ =>
      Reading.pass 1
      Reading.passBreak
      token fuel
    | '#' :: rest =>
      Reading.pass (1 + (rest.takeWhile (· != '\n')).length)
      token fuel
    | '\n' :: _ =>
      Reading.passBreak
      return .operator "\n"
    | '&' :: '&' :: _ => operator "&&"
    | '|' :: '|' :: _ => operator "||"
    | ';' :: ';' :: _ => operator ";;"
    | c :: rest =>
      if "&|;()".toList.contains c then operator (.singleton c)
      else
        let stream := if c.isDigit then some (c.toNat - '0'.toNat) else none
        match ← redirection stream (if stream.isSome then rest else cs) with
        | some t => return t
        | none => return .word (← parts fuel .plain)

/-- Reads a token, before which ends of lines may be passed over. -/
def next : (fuel : Nat) → (breaks reserved : Bool) → Reading Token
  | 0, _, _ => Reading.fail "end of file unexpected"
  | fuel + 1, breaks, reserved => do
    let before ← get
    match before.ahead with
    | some t =>
      modify fun p => { p with ahead := none }
      if breaks && t.isOperator "\n" then next fuel breaks reserved
      else return if reserved then t.withReserved else t
    | none =>
      let t ← token fuel
      let looksUp := reserved || Reading.passesBlank before (← get)
      let t := if reserved then t.withReserved else t
      if breaks && t.isOperator "\n" then next fuel breaks reserved
      else if looksUp then
        if ← Reading.replaceAlias t then next fuel breaks reserved else return t
      else return t

/-- Reads the target of a redirection. -/
def redirectionBehind : (fuel : Nat) → (stream : Option Nat) → (operator : String) →
    Reading Redirection
  | 0, _, _ => Reading.fail "end of file unexpected"
  | fuel + 1, stream, operator => do
    if operator == "<<" || operator == "<<-" then
      let cs := (← get).rest.dropWhile fun c => c == ' ' || c == '\t'
      if cs.head?.all endsWord then Reading.unexpected (← token fuel)
      let (delimiter, rest, quoted) := delimiterAt (cs.length + 1) cs
      let line := rest.takeWhile (· != '\n')
      let behind := rest.drop (line.length + 1)
      let ended := if line.length < rest.length then ['\n'] else []
      let (text, behind, count) :=
        documentAt delimiter (operator == "<<-") (behind.length + 1) behind
      let target ←
        if quoted then pure [.text text true] else Reading.within text (parts fuel .document)
      modify fun p =>
        { p with rest := line ++ ended ++ behind, passed := p.passed + count }
      return .lead (stream.getD 0) .document target
    else
      let kind := redirectionKind operator
      match ← next fuel false false with
      | .word w =>
        return .lead (stream.getD (if operator.startsWith "<" then 0 else 1)) kind w
      | t => Reading.unexpected t

/-- Reads the redirections behind a command. -/
def redirectionsBehind : (fuel : Nat) → Reading (List Redirection)
  | 0 => Reading.fail "end of file unexpected"
  | fuel + 1 => do
    match ← next fuel false true with
    | .redirection stream operator =>
      let r ← redirectionBehind fuel stream operator
      return r :: (← redirectionsBehind fuel)
    | t =>
      Reading.putBack t
      return []

/-- Reads a simple command, given what has been read of it. -/
def simple : (fuel : Nat) → (line : Nat) → (settings : List (String × Word)) →
    (words : List Word) → (redirections : List Redirection) → Reading Script
  | 0, _, _, _, _ => Reading.fail "end of file unexpected"
  | fuel + 1, line, settings, words, redirections => do
    let isBehind := words.isEmpty && !(settings.isEmpty && redirections.isEmpty)
    match ← next fuel false false with
    | .word w =>
      match if words.isEmpty then setting? w else none with
      | some s => simple fuel line (settings ++ [s]) words redirections
      | none =>
        let replaced ← if isBehind then Reading.replaceAlias (.word w) else pure false
        simple fuel line settings (if replaced then words else words ++ [w]) redirections
    | .redirection stream operator =>
      let r ← redirectionBehind fuel stream operator
      simple fuel line settings words (redirections ++ [r])
    | t =>
      match words with
      | [name] =>
        if t.isOperator "(" && settings.isEmpty && redirections.isEmpty then
          let t ← next fuel false false
          if !t.isOperator ")" then Reading.unexpected t (some "\")\"")
          let name := ((bare? name).getD [])
          if !isName name || specialCommands.contains (String.ofList name) then
            Reading.fail "Bad function name"
          return .definition (String.ofList name) (← command fuel true true)
      | _ => pure ()
      Reading.putBack t
      return .simple line settings words redirections

/-- Reads a command. -/
def command : (fuel : Nat) → (breaks reserved : Bool) → Reading Script
  | 0, _, _ => Reading.fail "end of file unexpected"
  | fuel + 1, breaks, reserved => do
    let line := (← get).line
    let t ← next fuel breaks reserved
    let closed (name : String) (body : Script) : Reading Script := do
      let t ← next fuel false true
      if !t.isReserved name && !t.isOperator name then
        Reading.unexpected t (some ("\"" ++ name ++ "\""))
      match ← redirectionsBehind fuel with
      | [] => return body
      | rs => return .redirected line body rs
    let block : Reading (Option Script) := list fuel .block false none
    match t with
    | .word _ | .redirection .. =>
      Reading.putBack t
      simple fuel (← get).line [] [] []
    | .operator "(" => closed ")" (.subshell line (← block))
    | .reserved "\x7b" =>
      let body := (← block).getD (.simple line [] [] [])
      closed "\x7d" body
    | .reserved "if" => closed "fi" (← branches fuel)
    | .reserved "while" | .reserved "until" =>
      let condition ← block
      let behind ← next fuel false true
      if !behind.isReserved "do" then Reading.unexpected behind (some "\"do\"")
      closed "done" (.loop (t.isReserved "while") condition (← block))
    | .reserved "for" =>
      let variableName ← next fuel false false
      let name := match variableName with
        | .word w => ((bare? w).getD [])
        | _ => []
      if !isName name then Reading.fail "Bad for loop variable"
      let words ← eachWords fuel
      let behind ← next fuel true true
      if !behind.isReserved "do" then Reading.unexpected behind (some "\"do\"")
      closed "done" (.each line (String.ofList name) words (← block))
    | .reserved "case" =>
      match ← next fuel false false with
      | .word w =>
        match ← next fuel true true with
        | .word inside =>
          if bare? inside != some ['i', 'n'] then
            Reading.unexpected (.word inside) (some "\"in\"")
          let cases ← choices fuel
          let body : Script := .choice line w cases
          match ← redirectionsBehind fuel with
          | [] => return body
          | rs => return .redirected line body rs
        | t => Reading.unexpected t (some "\"in\"")
      | t => Reading.unexpected t (some "word")
    | t => Reading.unexpected t

/-- Reads a conditional behind its first word. -/
def branches : (fuel : Nat) → Reading Script
  | 0 => Reading.fail "end of file unexpected"
  | fuel + 1 => do
    let condition ← list fuel .block false none
    let t ← next fuel false true
    if !t.isReserved "then" then Reading.unexpected t (some "\"then\"")
    let yes ← list fuel .block false none
    let t ← next fuel false true
    if t.isReserved "elif" then return .branch condition yes (some (← branches fuel))
    else if t.isReserved "else" then
      return .branch condition yes (← list fuel .block false none)
    else
      Reading.putBack t
      return .branch condition yes none

/-- Reads the words that a loop goes through. -/
def eachWords : (fuel : Nat) → Reading (List Word)
  | 0 => Reading.fail "end of file unexpected"
  | fuel + 1 => do
    let all : List Word := [[.quotes [.parameter "@" .value false [] true]]]
    match ← next fuel true true with
    | .word w =>
      if bare? w == some ['i', 'n'] then wordsBehind fuel
      else
        Reading.putBack (.word w)
        return all
    | t =>
      if !t.isOperator ";" then Reading.putBack t
      return all

/-- Reads words up to the end of a command. -/
def wordsBehind : (fuel : Nat) → Reading (List Word)
  | 0 => Reading.fail "end of file unexpected"
  | fuel + 1 => do
    match ← next fuel false false with
    | .word w => return w :: (← wordsBehind fuel)
    | t => if t.isOperator ";" || t.isOperator "\n" then return [] else Reading.unexpected t

/-- Reads the cases of a choice. -/
def choices : (fuel : Nat) → Reading (List (List Word × Option Script))
  | 0 => Reading.fail "end of file unexpected"
  | fuel + 1 => do
    let t := (← next fuel true false).withReserved
    if t.isReserved "esac" then return []
    let t ← if t.isOperator "(" then next fuel false false else pure t
    let patterns ← patternsBehind fuel t
    let body ← list fuel .emptyBlock false none
    let t ← next fuel true true
    if t.isReserved "esac" then return [(patterns, body)]
    else if t.isOperator ";;" then return (patterns, body) :: (← choices fuel)
    else Reading.unexpected t (some "\";;\"")

/-- Reads the patterns of a case, of which the first one has been read. -/
def patternsBehind : (fuel : Nat) → Token → Reading (List Word)
  | 0, _ => Reading.fail "end of file unexpected"
  | fuel + 1, t => do
    let pattern : Word := match t with
      | .word w => w
      | .reserved name => [.text name.toList false]
      | _ => []
    let t ← next fuel false false
    if t.isOperator "|" then return pattern :: (← patternsBehind fuel (← next fuel false false))
    else if t.isOperator ")" then return [pattern]
    else Reading.unexpected t (some "\")\"")

/-- Reads commands that are joined by pipes. -/
def pipeline : (fuel : Nat) → (breaks reserved : Bool) → Reading Script
  | 0, _, _ => Reading.fail "end of file unexpected"
  | fuel + 1, breaks, reserved => do
    let t ← next fuel breaks reserved
    let body ←
      if t.isReserved "!" then command fuel false true
      else
        Reading.putBack t
        command fuel false false
    let more ← pipedCommands fuel
    let whole : Script := if more.isEmpty then body else .pipe (body :: more)
    return if t.isReserved "!" then .negated whole else whole

/-- Reads the commands behind pipes. -/
def pipedCommands : (fuel : Nat) → Reading (List Script)
  | 0 => Reading.fail "end of file unexpected"
  | fuel + 1 => do
    let t ← next fuel false false
    if t.isOperator "|" then
      let body ← command fuel true true
      return body :: (← pipedCommands fuel)
    else
      Reading.putBack t
      return []

/-- Reads pipelines that depend on the one in front. -/
def conditional : (fuel : Nat) → Script → Reading Script
  | 0, _ => Reading.fail "end of file unexpected"
  | fuel + 1, before => do
    let t ← next fuel false false
    if t.isOperator "&&" then conditional fuel (.both before (← pipeline fuel true true))
    else if t.isOperator "||" then conditional fuel (.either before (← pipeline fuel true true))
    else
      Reading.putBack t
      return before

/-- Reads a list of commands behind those that have been read. -/
def list : (fuel : Nat) → ListMode → (started : Bool) → Option Script →
    Reading (Option Script)
  | 0, _, _, _ => Reading.fail "end of file unexpected"
  | fuel + 1, mode, started, before => do
    let t ← next fuel (mode != .line) true
    if t.isOperator "\n" then return before
    Reading.putBack t
    if t matches .finish then return before
    if mode != .line && (started || mode == .emptyBlock) && t.endsList then return before
    let body ← conditional fuel (← pipeline fuel false false)
    let t ← next fuel false false
    let whole := joined before (if t.isOperator "&" then .background body else body)
    if t.isOperator "&" || t.isOperator ";" then list fuel mode true whole
    else
      Reading.putBack t
      if t.isOperator "\n" || t matches .finish then list fuel mode true whole
      else if mode == .line then Reading.unexpected t
      else return whole

end

/-- The commands of the next line, which may have none, unless the text is at its end. -/
def nextLine : Reading (Option (Option Script)) := do
  let p ← get
  let longest := (p.aliases.map fun a => a.2.length).foldl max 0
  let fuel := 4 * (p.rest.length + 16) * (longest + 1)
  match ← list fuel .line false none, (← get).ahead with
  | none, some .finish => return none
  | some s, _ => return some (some s)
  | none, _ => return some none

end DeviceApi.Command.Shell
