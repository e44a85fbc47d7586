import DeviceApi.Command.LineEditor.Instruction
import DeviceApi.Text.Lines

/-!
# Running scripts of the line editor

For each line of the input the instructions of a script are run in order. The line is then
written, unless the script is quiet, together with what has been added to it. A line that is not
ended stays so in the output as long as nothing is written behind it.
-/

namespace DeviceApi.Command.LineEditor

/-- A line of the input. -/
structure InputLine where
  text : List Char
  ended : Bool
  file : String
  deriving Repr

/-- A line that is worked on or held back. -/
structure Space where
  text : List Char := []
  ended : Bool := true
  deriving Repr

/-- What is written to a file. -/
structure Output where
  /-- The parts of the text, the last one first. -/
  parts : List (List Char) := []
  /-- Whether the last line has to be ended before another one is written. -/
  owesEnd : Bool := false
  deriving Repr

/-- The text of an output. -/
def Output.text (o : Output) : List Char := o.parts.reverse.flatten

/-- The output with more characters behind the end of the last line. -/
def Output.append (o : Output) (delimiter : Char) (cs : List Char) : Output :=
  { parts := cs :: (if o.owesEnd then [delimiter] :: o.parts else o.parts) }

/-- The output with its last line ended. -/
def Output.endLine (o : Output) (delimiter : Char) : Output :=
  if o.owesEnd then { parts := [delimiter] :: o.parts } else o

/-- The output with another line. -/
def Output.addLine (o : Output) (delimiter : Char) (line : Space) : Output :=
  let o := o.append delimiter (if line.ended then line.text ++ [delimiter] else line.text)
  { o with owesEnd := !line.ended }

/-- Why a script comes to its end before its input does. -/
inductive Ending where
  | quit (code : Nat)
  | noPattern
  deriving DecidableEq, Repr

/-- A script with the manner in which it is run. -/
structure Program where
  /-- The instructions with their numbers. -/
  instructions : List (Nat × Instruction)
  quiet : Bool := false
  width : Nat := 70
  delimiter : Char := '\n'
  deriving Repr

/-- The name of the output that nothing else is known about. -/
def standardOutput : String := "/dev/stdout"

/-- How far a range of lines has got. -/
inductive RangeCourse where
  | waiting
  /-- Until a given line, which is selected if it is met. -/
  | upTo (last : Nat)
  /-- Through the first line that is met at or behind a given one. -/
  | through (last : Nat)
  /-- Until an address selects a line. -/
  | untilSelected
  | over
  deriving DecidableEq, Repr

/-- What a script is run on. -/
structure Machine where
  /-- The lines that have not been read. -/
  feed : List InputLine := []
  present : Space := {}
  held : Space := {}
  number : Nat := 0
  file : String := "-"
  /-- What is written before the next line is read. -/
  added : List (List Char) := []
  /-- Whether there has been a substitution in the present line. -/
  changed : Bool := false
  lastSearch : Option (Pattern × Pattern.Manner) := none
  /-- How far the ranges of the instructions have got. -/
  ranges : List (Nat × RangeCourse) := []
  /-- The contents of the files that the script reads. -/
  texts : List (String × List Char) := []
  /-- The same of which lines are read one by one. -/
  rests : List (String × List Char) := []
  /-- The output that lines are written to. -/
  main : String := standardOutput
  outputs : List (String × Output) := []
  deriving Repr

/-- A step of a script, which may bring it to an end. -/
abbrev Step := ExceptT Ending (StateM Machine)

namespace Machine

/-- Changes an output. -/
def write (m : Machine) (path : String) (f : Output → Output) : Machine :=
  let o := f ((m.outputs.lookup path).getD {})
  if (m.outputs.lookup path).isSome then
    { m with outputs := m.outputs.map fun e => if e.1 == path then (path, o) else e }
  else { m with outputs := m.outputs ++ [(path, o)] }

/-- The text of an output. -/
def outputText (m : Machine) (path : String) : List Char :=
  ((m.outputs.lookup path).getD {}).text

/-- Whether the present line is the last one. -/
def isLast (m : Machine) : Bool := m.feed.isEmpty

end Machine

namespace Program

/-- Writes characters. -/
def append (p : Program) (cs : List Char) : Step Unit :=
  modify fun m => m.write m.main (·.append p.delimiter cs)

/-- Writes a line. -/
def addLine (p : Program) (line : Space) : Step Unit :=
  modify fun m => m.write m.main (·.addLine p.delimiter line)

/-- Writes what has been added to the present line. -/
def flush (p : Program) : Step Unit := do
  let m ← get
  m.added.forM p.append
  modify fun m => { m with added := [] }

/-- Writes the present line at the end of its cycle. -/
def printPresent (p : Program) : Step Unit := do
  if !p.quiet then p.addLine (← get).present

/-- Reads a line, unless there is none. -/
def nextLine? (p : Program) : Step (Option Space) := do
  p.flush
  match (← get).feed with
  | [] => return none
  | line :: rest =>
    modify fun m =>
      { m with feed := rest, number := m.number + 1, file := line.file, changed := false }
    return some { text := line.text, ended := line.ended }

/-! ## Selecting lines -/

/-- The pattern of a search, which becomes the last one that was used. -/
def pattern (p : Program) (s : Search) : Step (Pattern × Pattern.Manner) := do
  match s.pattern, (← get).lastSearch with
  | some q, _ =>
    let w := { s.manner with delimiter := p.delimiter }
    modify fun m => { m with lastSearch := some (q, w) }
    return (q, w)
  | none, some last => return last
  | none, none => throw .noPattern

/-- Whether an address selects the present line. -/
def holds (p : Program) : Address → Step Bool
  | .line n => return n == (← get).number
  | .every first step => do
    let n := (← get).number
    return first ≤ n && (n - first) % step == 0
  | .last => return (← get).isLast
  | .matching s => do
    let (q, w) ← p.pattern s
    return q.occurs w [] (← get).present.text

/-- Notes how far the range of an instruction has got. -/
def setRange (id : Nat) (course : RangeCourse) : Step Unit :=
  modify fun m => { m with ranges := (id, course) :: m.ranges.filter (·.1 != id) }

/-- Begins a range at the present line. A range up to a line that has been reached ends at once;
then the answer is whether that line is the present one. -/
def beginRange (id : Nat) (start : Address) (stop : RangeEnd) : Step Bool := do
  let n := (← get).number
  let first? : Option Nat := match start with
    | .line first => some first
    | _ => none
  let ended : RangeCourse := if first?.isSome then .over else .waiting
  let behind (last : Nat) : RangeCourse := if n < last then .through last else ended
  match stop with
  | .at (.line last) =>
    setRange id (if n < last then .upTo last else ended)
    return n ≤ last || first?.all (· == n)
  | .at (.every first step) =>
    let ends := first ≤ n && (n - first) % step == 0
    setRange id (if ends then ended else .untilSelected)
  | .at .last => setRange id (if (← get).isLast then ended else .untilSelected)
  | .at _ => setRange id .untilSelected
  | .after count => setRange id (behind (n + count))
  | .multiple k => setRange id (if k = 0 then ended else behind (n + (k - n % k) % k))
  return true

/-- Whether an instruction is for the present line. A range that begins with a given line may
also begin behind it. -/
def selects (p : Program) (id : Nat) (i : Instruction) : Step Bool := do
  match i.start, i.stop with
  | none, _ => return true
  | some a, none => p.holds a
  | some a, some stop =>
    let n := (← get).number
    let ended : RangeCourse := if a matches .line _ then .over else .waiting
    match ((← get).ranges.lookup id).getD .waiting with
    | .over => return false
    | .waiting =>
      let begins : Bool ← match a with
        | .line first => pure (decide (first ≤ n))
        | a => p.holds a
      if begins then beginRange id a stop else return false
    | .upTo last =>
      if last ≤ n then setRange id ended
      return n ≤ last
    | .through last =>
      if last ≤ n then setRange id ended
      return true
    | .untilSelected =>
      let ends ← match stop with
        | .at b => p.holds b
        | _ => pure true
      if ends then setRange id ended
      return true

/-! ## Actions -/

/-- Octets of a line in a form in which all of them can be seen. -/
def visible (b : UInt8) : List Char :=
  match ([(92, '\\'), (7, 'a'), (8, 'b'), (12, 'f'), (10, 'n'), (13, 'r'), (9, 't'), (11, 'v')] :
      List (UInt8 × Char)).lookup b with
  | some c => ['\\', c]
  | none =>
    if 32 ≤ b && b < 127 then [Char.ofNat b.toNat]
    else
      let digit (n : Nat) : Char := Char.ofNat ('0'.toNat + n % 8)
      ['\\', digit (b.toNat / 64), digit (b.toNat / 8), digit b.toNat]

/-- Texts one after the other, broken where a line would become too wide. -/
def wrapped (delimiter : Char) (width : Nat) : (used : Nat) → List (List Char) → List Char
  | _, [] => []
  | used, piece :: rest =>
    if width ≠ 0 && used + piece.length > width - 1 then
      '\\' :: delimiter :: piece ++ wrapped delimiter width piece.length rest
    else piece ++ wrapped delimiter width (used + piece.length) rest

/-- A line in a form in which all of it can be seen. -/
def listing (p : Program) (width : Nat) (line : List Char) : List Char :=
  wrapped p.delimiter width 0 ((octets (String.ofList line)).map visible) ++ ['$', p.delimiter]

/-- How a script goes on. -/
inductive Course where
  | on (rest : List (Nat × Instruction))
  /-- With the next line. -/
  | drop
  /-- From the start with what is left of the present line. -/
  | again
  deriving Repr

/-- The instructions behind the last label of a name, or none if the name is empty. -/
def behindLabel (p : Program) (name : String) : List (Nat × Instruction) :=
  if name == "" then []
  else
    (p.instructions.reverse.takeWhile fun i =>
      match i.2.action with
      | .label other => other != name
      | _ => true).reverse

/-- The instructions behind the block that is open. -/
def behindBlock : (depth : Nat) → List (Nat × Instruction) → List (Nat × Instruction)
  | _, [] => []
  | depth, (_, i) :: rest =>
    match i.action, depth with
    | .block, depth => behindBlock (depth + 1) rest
    | .blockEnd, 0 => rest
    | .blockEnd, depth + 1 => behindBlock depth rest
    | _, depth => behindBlock depth rest

/-- Replaces matches in the present line. -/
def substitute (p : Program) (s : Substitution) : Step Unit := do
  let (q, w) ← p.pattern s.search
  match s.replace? q w (← get).present.text with
  | none => return
  | some text =>
    modify fun m => { m with present := { m.present with text }, changed := true }
    let line := (← get).present
    if s.print then p.addLine line
    match s.file with
    | some path => modify (·.write path (·.addLine p.delimiter line))
    | none => return

/-- The first line of a text. -/
def firstLine (p : Program) (text : List Char) : List Char := text.takeWhile (· != p.delimiter)

/-- The first line of what is worked on, which is ended if more lines follow. -/
def firstSpace (p : Program) (s : Space) : Space :=
  if s.text.contains p.delimiter then { text := p.firstLine s.text } else s

/-- Reads a line behind the present one, unless there is none. -/
def extend (p : Program) : Step Course := do
  if (← get).isLast then
    p.printPresent
    return .drop
  match ← p.nextLine? with
  | none => return .drop
  | some line =>
    modify fun m =>
      { m with present := { line with text := m.present.text ++ p.delimiter :: line.text } }
    return .on []

/-- Reads a line in place of the present one, unless there is none. -/
def advance (p : Program) : Step Course := do
  p.printPresent
  if (← get).isLast then return .drop
  match ← p.nextLine? with
  | none => return .drop
  | some line =>
    modify fun m => { m with present := line }
    return .on []

/-- Writes lines in front of the present one or in place of it. -/
def addText (p : Program) (text : String) : Step Unit := do
  let cs := text.toList
  if !cs.isEmpty then p.append (if cs.getLast? == some '\n' then cs.dropLast ++ [p.delimiter] else cs)

/-- Adds a line of a file. -/
def addLineOf (p : Program) (path : String) : Step Unit := do
  let rest := ((← get).rests.lookup path).getD []
  if rest.isEmpty then return
  let line := rest.takeWhile (· != p.delimiter)
  let ended := line.length < rest.length
  modify fun m =>
    { m with
      added := m.added ++ [if ended then line ++ [p.delimiter] else line]
      rests := (path, rest.drop (line.length + 1)) :: m.rests }

/-- Does what an action says, given the instructions behind it. -/
def act (p : Program) (id : Nat) (a : Action) (rest : List (Nat × Instruction)) :
    Step Course := do
  let m ← get
  let jump (name : String) : Course := .on (p.behindLabel name)
  let behind : Course → Course
    | .on _ => .on rest
    | c => c
  match a with
  | .block | .blockEnd | .label _ | .nothing => return .on rest
  | .jump name => return jump name
  | .jumpIfChanged name =>
    set { m with changed := false }
    return if m.changed then jump name else .on rest
  | .jumpUnlessChanged name =>
    set { m with changed := false }
    return if m.changed then .on rest else jump name
  | .substitute s => p.substitute s
  | .translate pairs =>
    let text := m.present.text.map fun c => (pairs.lookup c).getD c
    set { m with present := { m.present with text } }
  | .append text => set { m with added := m.added ++ [text.toList] }
  | .insert text => p.addText text
  | .change text =>
    let ended := match (m.ranges.lookup id).getD .waiting with
      | .waiting | .over => true
      | _ => false
    if ended then p.addText text
    return .drop
  | .delete => return .drop
  | .deleteFirst =>
    let text := m.present.text
    let line := p.firstLine text
    if line.length = text.length then return .drop
    set { m with present := { m.present with text := text.drop (line.length + 1) } }
    return .again
  | .print => p.addLine m.present
  | .printFirst => p.addLine (p.firstSpace m.present)
  | .list width => p.append (p.listing (width.getD p.width) m.present.text)
  | .number => p.append ((toString m.number).toList ++ [p.delimiter])
  | .fileName => p.append (m.file.toList ++ [p.delimiter])
  | .clear => set { m with present := { m.present with text := [] } }
  | .hold => set { m with held := m.present }
  | .holdMore =>
    set { m with
      held := { m.present with text := m.held.text ++ p.delimiter :: m.present.text } }
  | .get => set { m with present := m.held }
  | .getMore =>
    set { m with
      present := { m.held with text := m.present.text ++ p.delimiter :: m.held.text } }
  | .exchange => set { m with present := m.held, held := m.present }
  | .next => return behind (← p.advance)
  | .nextMore => return behind (← p.extend)
  | .readFile path => set { m with added := m.added ++ [(m.texts.lookup path).getD []] }
  | .readLine path => p.addLineOf path
  | .writeFile path => set (m.write path (·.addLine p.delimiter m.present))
  | .writeFirst path =>
    set (m.write path (·.addLine p.delimiter (p.firstSpace m.present)))
  | .quit code =>
    p.printPresent
    modify fun m => m.write m.main (·.endLine p.delimiter)
    p.flush
    throw (.quit code)
  | .quitSilently code => throw (.quit code)
  return .on rest

/-- Runs the instruction in front, or goes on to the next line if there is none. The answer is
the instructions to go on with, if there is a line. -/
def step (p : Program) : List (Nat × Instruction) → Step (Option (List (Nat × Instruction)))
  | [] => do
    p.printPresent
    begin
  | (id, i) :: rest => do
    let chosen ← p.selects id i
    if chosen != i.others then
      match ← p.act id i.action rest with
      | .on rest => return some rest
      | .again => return some p.instructions
      | .drop => begin
    else
      match i.action with
      | .block => return some (behindBlock 0 rest)
      | _ => return some rest
where
  /-- Reads a line to run the script on. -/
  begin : Step (Option (List (Nat × Instruction))) := do
    match ← p.nextLine? with
    | none => return none
    | some line =>
      modify fun m => { m with present := line }
      return some p.instructions

/-- Runs instructions and then the script on all lines that follow. -/
def runFrom (p : Program) : (fuel : Nat) → List (Nat × Instruction) → Step Unit
  | 0, _ => return
  | fuel + 1, rest => do
    match ← p.step rest with
    | some rest => runFrom p fuel rest
    | none => return

/-- The most instructions that are run for an input. -/
def stepLimit : Nat := 100000000

/-- Runs a script on the lines of an input. The ranges that begin in front of the first line
have begun. -/
def run (p : Program) (feed : List InputLine) : Step Unit := do
  let ranges := p.instructions.filterMap fun (id, i) =>
    match i.start with
    | some (.line 0) => some (id, RangeCourse.untilSelected)
    | _ => none
  modify fun m => { m with feed, ranges, held := {}, number := 0, rests := m.texts }
  match ← step.begin p with
  | some rest => p.runFrom stepLimit rest
  | none => return

end Program

/-- The lines of a text. -/
def linesOf (delimiter : Char) (file : String) (text : List Char) : List InputLine :=
  let pieces := Text.splitAtChar delimiter text
  let ended := pieces.dropLast.map fun text => { text, ended := true, file }
  match pieces.getLast? with
  | none | some [] => ended
  | some text => ended ++ [{ text, ended := false, file }]

end DeviceApi.Command.LineEditor
