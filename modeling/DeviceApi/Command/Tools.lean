import DeviceApi.Command.Arguments
import DeviceApi.Command.Condition
import DeviceApi.Command.LineEditor
import DeviceApi.Command.Printing
import DeviceApi.Command.Translation

/-!
# Text tools

The commands that a formatter may consist of, apart from the shell.
-/

namespace DeviceApi.Command

variable {m : Type → Type} [Monad m] [Files m]

/-! ## Concatenation -/

/-- Which lines are numbered. -/
inductive Numbering where
  | none | filled | all
  deriving DecidableEq, Repr

/-- How `cat` shows lines. -/
structure LineStyle where
  numbering : Numbering := .none
  squeeze : Bool := false
  showEnds : Bool := false
  showTabs : Bool := false
  showControls : Bool := false
  deriving DecidableEq, Repr

/-- The style with the option of a letter. -/
def LineStyle.withOption (s : LineStyle) : Char → LineStyle
  | 'A' => { s with showControls := true, showEnds := true, showTabs := true }
  | 'b' => { s with numbering := .filled }
  | 'e' => { s with showControls := true, showEnds := true }
  | 'E' => { s with showEnds := true }
  | 'n' => if s.numbering = .filled then s else { s with numbering := .all }
  | 's' => { s with squeeze := true }
  | 't' => { s with showControls := true, showTabs := true }
  | 'T' => { s with showTabs := true }
  | 'v' => { s with showControls := true }
  | _ => s

/-- An octet as it is shown: with a caret for a control character, and with `M-` for an octet
whose highest bit is set. -/
def LineStyle.shown (s : LineStyle) (b : UInt8) : Octets :=
  if b == 9 then if s.showTabs then [94, 73] else [9]
  else if !s.showControls then [b]
  else
    let lead : Octets := if b < 128 then [] else [77, 45]
    let low := b &&& 127
    lead ++ (if low < 32 then [94, low + 64] else if low == 127 then [94, 63] else [low])

/-- The lines of octets, each with its end if it has one. -/
def linesWithEnds (bytes : Octets) : List Octets :=
  bytes.foldr
    (fun b lines =>
      match b == 10, lines with
      | true, lines => [b] :: lines
      | false, [] => [[b]]
      | false, line :: more => (b :: line) :: more) []

/-- The number in front of a line. -/
def numberColumn (n : Nat) : Octets :=
  octets (String.ofList (({ width := 6 } : Directive).padText (toString n).toList) ++ "\t")

/-- A line without its number. -/
def LineStyle.body (s : LineStyle) (line : Octets) : Octets :=
  let content := line.filter (· != 10)
  let ended := content.length < line.length
  let shown := content.flatMap s.shown
  let shown :=
    if s.showEnds && ended && !s.showControls && content.getLast? == some 13 then
      (content.dropLast.flatMap s.shown) ++ [94, 77]
    else shown
  shown ++ (if ended then (if s.showEnds then [36, 10] else [10]) else [])

/-- The lines as they are shown, given the number of the first one and whether an empty line
stands in front. -/
def LineStyle.show (s : LineStyle) : (number : Nat) → (afterEmpty : Bool) → List Octets → Octets
  | _, _, [] => []
  | number, afterEmpty, line :: rest =>
    let isEmpty := line == [10]
    if s.squeeze && isEmpty && afterEmpty then s.show number true rest
    else
      let numbered := match s.numbering with
        | .none => false
        | .filled => !isEmpty
        | .all => true
      if numbered then numberColumn number ++ s.body line ++ s.show (number + 1) isEmpty rest
      else s.body line ++ s.show number isEmpty rest

/-- The octets of files one after the other, with complaints about those that are not read. -/
def concatenate (self : String) (input : Octets) : List String → m Outcome
  | [] => return {}
  | file :: rest => do
    let here : Outcome ←
      if file == "-" then pure { Outcome.writes input with readsInput := true }
      else
        match ← Files.read file with
        | .ok bytes => pure (.writes bytes)
        | .error f => pure (.complains 1 s!"{self}: {quotedFile file}: {reason f}")
    let input := if here.readsInput then [] else input
    return here.andThen (← concatenate self input rest)

/-- The options of `cat`. -/
def catOptions : OptionTable where
  letters := "AbeEnstTuv".toList.map fun c => (c, .none)
  names := [("number-nonblank", 'b', .none), ("number", 'n', .none), ("squeeze-blank", 's', .none),
    ("show-nonprinting", 'v', .none), ("show-ends", 'E', .none), ("show-tabs", 'T', .none),
    ("show-all", 'A', .none)]

/-- Runs `cat`. -/
def cat (self : String) (args : List String) (input : Octets) : m Outcome := do
  match catOptions.parse args with
  | .error f => return refuseArguments self 1 f
  | .ok a =>
    let style := a.options.foldl (fun s o => s.withOption o.1) ({} : LineStyle)
    let o ← concatenate self input (if a.operands.isEmpty then ["-"] else a.operands)
    if style = {} then return o
    else
      let shown := style.show 1 false (linesWithEnds (o.on .out))
      return { o with written := [(.err, o.on .err), (.out, shown)] }

/-! ## Counting -/

/-- The counts of a text: lines, words, characters, octets and the width of the longest line. -/
structure Counts where
  lines : Nat := 0
  words : Nat := 0
  chars : Nat := 0
  octets : Nat := 0
  width : Nat := 0

/-- The width of a line: a tab reaches to the next multiple of eight. -/
def lineWidth (line : List Char) : Nat :=
  line.foldl (fun w c =>
    if c == '\t' then (w / 8 + 1) * 8 else if c.toNat < 32 then w else w + 1) 0

/-- Counts octets. -/
def Counts.of (bytes : Octets) : Counts :=
  let blank (b : UInt8) : Bool := Translation.isSpace b
  let starts := ((32 :: bytes).zip bytes).filter fun (a, b) => blank a && !blank b
  let widths := (linesWithEnds bytes).map fun line => lineWidth (textOf line |>.toList)
  { lines := (bytes.filter (· == 10)).length
    words := starts.length
    chars := (bytes.filter fun b => b.toNat / 64 ≠ 2).length
    octets := bytes.length
    width := widths.foldl max 0 }

/-- The sum of counts. -/
def Counts.add (a b : Counts) : Counts :=
  { lines := a.lines + b.lines, words := a.words + b.words, chars := a.chars + b.chars
    octets := a.octets + b.octets, width := max a.width b.width }

/-- The counts that are asked for, in their order. -/
def Counts.chosen (c : Counts) (letters : List Char) : List Nat :=
  let picked (letter : Char) (n : Nat) : List Nat := if letters.contains letter then [n] else []
  picked 'l' c.lines ++ picked 'w' c.words ++ picked 'm' c.chars ++ picked 'c' c.octets ++
    picked 'L' c.width

/-- A line of counts, each with a least width. -/
def countLine (width : Nat) (counts : List Nat) (file : Option String) : String :=
  let cells := counts.map fun n =>
    String.ofList (({ width } : Directive).padText (toString n).toList)
  " ".intercalate (cells ++ file.toList)

/-- The counts of the files, or complaints. Only the first dash stands for the input. -/
def countFiles (self : String) (input : Octets) : List String → m (List (String × Except String Counts))
  | [] => return []
  | file :: rest => do
    if file == "-" then return (file, .ok (.of input)) :: (← countFiles self [] rest)
    let counts ← if file == "" then pure (.error (self ++ ": invalid zero-length file name")) else
      match ← Files.read file with
      | .ok bytes => pure (.ok (.of bytes))
      | .error f => pure (.error s!"{self}: {quotedFile file}: {reason f}")
    return (file, counts) :: (← countFiles self input rest)

/-- The options of `wc`. -/
def countOptions : OptionTable where
  letters := "clLmw".toList.map fun c => (c, .none)
  names := [("bytes", 'c', .none), ("chars", 'm', .none), ("lines", 'l', .none),
    ("words", 'w', .none), ("max-line-length", 'L', .none)]

/-- The lines that `wc` writes about files. -/
def countReport (width : Nat) (letters : List Char) (folders : List String) :
    List (String × Except String Counts) → Outcome
  | [] => {}
  | (file, .ok c) :: rest =>
    (Outcome.writes (octets (countLine width (c.chosen letters) file ++ "\n"))).andThen
      (countReport width letters folders rest)
  | (file, .error line) :: rest =>
    let zeros :=
      if folders.contains file then
        Outcome.writes (octets (countLine width (Counts.chosen {} letters) file ++ "\n"))
      else {}
    ((Outcome.complains 1 line).andThen zeros).andThen (countReport width letters folders rest)

/-- Runs `wc`. -/
def wordCount (self : String) (args : List String) (input : Octets) : m Outcome := do
  match countOptions.parse args with
  | .error f => return refuseArguments self 1 f
  | .ok a =>
    let letters := if a.options.isEmpty then ['l', 'w', 'c'] else a.options.map Prod.fst
    match a.operands with
    | [] =>
      let counts := (Counts.of input).chosen letters
      let line := countLine (if counts.length = 1 then 1 else 7) counts none
      return { Outcome.writes (octets (line ++ "\n")) with readsInput := true }
    | files =>
      let results ← countFiles self input files
      let folders ← files.filterM fun file => return (← Files.look file) == .folder
      let total := results.foldl
        (fun sum (_, r) => match r with
          | .ok c => sum.add c
          | .error _ => sum) ({} : Counts)
      let single := files.length = 1 && (total.chosen letters).length = 1
      let width :=
        if single then 1
        else if files.contains "-" || !folders.isEmpty then 7
        else (Nat.toDigits 10 total.octets).length
      let report := countReport width letters folders results
      let sums :=
        if files.length < 2 then {}
        else Outcome.writes (octets (countLine width (total.chosen letters) "total" ++ "\n"))
      return { (report.andThen sums).delayed with readsInput := files.contains "-" }

/-! ## Names of files -/

/-- The options of `ls`. -/
def listOptions : OptionTable where
  letters := "aAbBcCdfFgGhHiklLmnNopqQrRsStuUvxXZ1".toList.map fun c => (c, .none)
  names := [("all", 'a', .none), ("almost-all", 'A', .none), ("directory", 'd', .none),
    ("reverse", 'r', .none)]

/-- Runs `ls`: files come first, then the names in folders. -/
def listNames (self : String) (args : List String) : m Outcome := do
  match listOptions.parse args with
  | .error f => return refuseArguments self 2 f
  | .ok a =>
    let ordered (names : List String) : List String :=
      if a.has 'r' then names.mergeSort.reverse else names.mergeSort
    let paths := if a.operands.isEmpty then ["."] else ordered a.operands
    let hidden := a.has 'a' || a.has 'A'
    let suffix (presence : Presence) : String :=
      if (a.has 'p' || a.has 'F') && presence == .folder then "/" else ""
    let mut missing : Outcome := {}
    let mut files : List String := []
    let mut folders : List String := []
    for path in paths do
      match ← Files.look (m := m) path with
      | .missing =>
        missing := missing.andThen
          (.complains 2 s!"{self}: cannot access {quotedName path}: No such file or directory")
      | .file => files := files ++ [path]
      | .folder =>
        if a.has 'd' then files := files ++ [path ++ suffix .folder]
        else folders := folders ++ [path]
    let mut blocks : List String := []
    if !files.isEmpty then blocks := [String.join (files.map (· ++ "\n"))]
    for folder in folders do
      let names := (← Files.list folder).filter fun n => hidden || !n.startsWith "."
      let names ← names.mapM fun name => do
        return name ++ suffix (← Files.look (m := m) (folder ++ "/" ++ name))
      let names := ordered (if a.has 'a' then "." :: ".." :: names else names)
      let body := String.join (names.map (· ++ "\n"))
      blocks := blocks ++ [if paths.length = 1 then body else folder ++ ":\n" ++ body]
    return missing.andThen (.writes (octets ("\n".intercalate blocks)))

/-! ## All tools -/

/-- Folders in which the commands are found. -/
def commandFolders : List String := ["/bin/", "/usr/bin/"]

/-- The name of a command without the folder in which it is found. -/
def bareName (name : String) : String :=
  match commandFolders.findSome? fun folder => (name.dropPrefix? folder).map (·.copy) with
  | some bare => bare
  | none => name

/-- Runs one of the tools under the name it is called by, if that is the name of one. -/
def tool? (self : String) (args : List String) (input : Octets) : Option (m Outcome) :=
  match bareName self with
  | "cat" => some (cat self args input)
  | "tr" => some (pure (Translation.run self args input))
  | "sed" => some (LineEditor.run self args input)
  | "true" => some (pure {})
  | "false" => some (pure (.answers false))
  | "printf" => some (pure (Printing.command self args))
  | "echo" => some (pure (Printing.echoCommand args))
  | "ls" => some (listNames self args)
  | "test" => some (Condition.command self args)
  | "[" => some (if args.getLast? == some "]" then Condition.command self args.dropLast
      else pure (.complains 2 (self ++ ": missing " ++ quote "]")))
  | "wc" => some (wordCount self args input)
  | _ => none

/-- The names of the tools, and of the shell. -/
def toolNames : List String :=
  ["cat", "tr", "sed", "true", "false", "printf", "echo", "ls", "test", "[", "wc", "sh", "dash"]

/-- Whether a name is that of a tool. -/
def isTool (name : String) : Bool := toolNames.contains name

end DeviceApi.Command
