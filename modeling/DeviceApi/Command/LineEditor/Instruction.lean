import DeviceApi.Command.PatternText
import DeviceApi.Text.LowerCase

/-!
# Instructions of the line editor

A script of the line editor is a list of instructions. An instruction has an action and up to two
addresses, which select the lines that it is for.
-/

namespace DeviceApi.Command.LineEditor

/-- A pattern that lines are searched for; without one the last pattern that was used is meant. -/
structure Search where
  pattern : Option Pattern
  manner : Pattern.Manner := {}
  deriving Repr

/-- What selects a line. -/
inductive Address where
  | line (number : Nat)
  /-- Every line at a given distance from the first one. -/
  | every (first step : Nat)
  | last
  | matching (s : Search)
  deriving Repr

/-- What ends a range of lines. -/
inductive RangeEnd where
  | at (a : Address)
  /-- So many lines behind the first one. -/
  | after (count : Nat)
  /-- The next line whose number is a multiple. -/
  | multiple (n : Nat)
  deriving Repr

/-- A change of case in a replacement. -/
inductive CaseChange where
  | upper | lower | none | nextUpper | nextLower
  deriving DecidableEq, Repr

/-- A part of what a match is replaced by. -/
inductive Piece where
  | char (c : Char)
  | whole
  | group (number : Nat)
  | change (c : CaseChange)
  deriving Repr

/-- How matches are replaced. -/
structure Substitution where
  search : Search
  replacement : List Piece
  /-- Whether all matches from the first one on are replaced. -/
  every : Bool
  print : Bool
  /-- The number of the first match that is replaced. -/
  first : Nat
  /-- A file that changed lines are written to. -/
  file : Option String
  deriving Repr

/-- What is done with a selected line. -/
inductive Action where
  | block
  | blockEnd
  | label (name : String)
  /-- Goes on at a label, or at the end of the script if the name is empty. -/
  | jump (name : String)
  | jumpIfChanged (name : String)
  | jumpUnlessChanged (name : String)
  | substitute (s : Substitution)
  | translate (pairs : List (Char × Char))
  | append (text : String)
  | insert (text : String)
  | change (text : String)
  | delete
  | deleteFirst
  | print
  | printFirst
  | list (width : Option Nat)
  | number
  | fileName
  | clear
  | hold
  | holdMore
  | get
  | getMore
  | exchange
  | next
  | nextMore
  | readFile (path : String)
  | readLine (path : String)
  | writeFile (path : String)
  | writeFirst (path : String)
  | quit (code : Nat)
  | quitSilently (code : Nat)
  | nothing
  deriving Repr

/-- An action for the lines between two addresses, or for all others. -/
structure Instruction where
  start : Option Address := none
  stop : Option RangeEnd := none
  others : Bool := false
  action : Action
  deriving Repr

/-- The file that an instruction writes to. -/
def Instruction.target? (i : Instruction) : Option String :=
  match i.action with
  | .writeFile path | .writeFirst path => some path
  | .substitute s => s.file
  | _ => none

/-!
## Replacements

Matches in a line are replaced from left to right. An empty match directly behind another match
does not count. Behind an empty match the search goes on at the next octet, even if that is
inside of a character, unless the pattern is one that looks at whole characters.
-/

/-- A text that is put together while changes of case are in force. -/
structure CasedText where
  /-- The characters so far, the last one first. -/
  written : List Char := []
  /-- The change for all characters. -/
  all : CaseChange := .none
  /-- The change for the next character alone. -/
  next : CaseChange := .none

namespace CasedText

/-- The text with another character. -/
def push (t : CasedText) (c : Char) : CasedText :=
  let d := match t.next, t.all with
    | .nextUpper, _ => Text.capitalChar c
    | .nextLower, _ => Text.lowerChar c
    | _, .upper => Text.capitalChar c
    | _, .lower => Text.lowerChar c
    | _, _ => c
  { t with written := d :: t.written, next := .none }

/-- The text with more characters. -/
def append (t : CasedText) (cs : List Char) : CasedText := cs.foldl push t

/-- The text behind a change of case. -/
def change (t : CasedText) (c : CaseChange) : CasedText :=
  match c with
  | .nextUpper | .nextLower => { t with next := c }
  | c => { t with all := c }

end CasedText

/-- The text that a match is replaced by. -/
def replacementText (whole : List Char) (m : Pattern.Match) (pieces : List Piece) : List Char :=
  let put (t : CasedText) : Piece → CasedText
    | .char c => t.push c
    | .whole => t.append whole
    | .group n => t.append ((m.groups.lookup n).getD [])
    | .change c => t.change c
  (pieces.foldl put {}).written.reverse

/-- The characters in front of the position behind a character, the nearest one first. -/
def passed (c : Char) (before : List Char) : List Char :=
  if isKeptOctet c then (rejoined (c :: before).reverse).reverse else c :: before

/-- What is behind a position with matches replaced, and whether there are any. `skipped` counts
the matches that are left as they are; `afterMatch` tells whether a match ends at the position. -/
def Substitution.replaceFrom (s : Substitution) (p : Pattern) (w : Pattern.Manner) :
    (fuel skipped : Nat) → (afterMatch : Bool) → (before rest : List Char) → List Char × Bool
  | 0, _, _, _, rest => (rest, false)
  | fuel + 1, skipped, afterMatch, before, rest =>
    let onFrom (rest : List Char) (skipped : Nat) : List Char × Bool :=
      match rest with
      | [] => ([], false)
      | c :: more =>
        let (text, found) := s.replaceFrom p w fuel skipped false (passed c before) more
        (c :: text, found)
    let onwards := onFrom (if p.isBytewise && !w.ignoreCase then splitFirst rest else rest)
    match p.matchHere? w { before, rest } with
    | none => onFrom rest skipped
    | some m =>
      let length := rest.length - m.rest.length
      let whole := rest.take length
      if length = 0 && afterMatch then onwards skipped
      else if skipped ≠ 0 then
        if length = 0 then onwards (skipped - 1)
        else
          let (text, found) := s.replaceFrom p w fuel (skipped - 1) true m.before m.rest
          (whole ++ text, found)
      else
        let put := replacementText whole m s.replacement
        if !s.every then (put ++ m.rest, true)
        else if length = 0 then (put ++ (onwards 0).1, true)
        else (put ++ (s.replaceFrom p w fuel 0 true m.before m.rest).1, true)

/-- A line with matches of a pattern replaced, if there are any. -/
def Substitution.replace? (s : Substitution) (p : Pattern) (w : Pattern.Manner)
    (line : List Char) : Option (List Char) :=
  match s.replaceFrom p w (8 * line.length + 2) (s.first - 1) false [] line with
  | (text, true) => some (rejoined text)
  | (_, false) => none

end DeviceApi.Command.LineEditor
