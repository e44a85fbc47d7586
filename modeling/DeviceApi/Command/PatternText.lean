import DeviceApi.Command.Pattern

/-!
# The notation of patterns

Patterns have two spellings: in the basic one groups, intervals and alternatives are written with
backslashes, in the extended one without.
-/

namespace DeviceApi.Command

/-- Why a text is no pattern. -/
inductive PatternFault where
  | openGroup
  | closedGroup
  | nothingToRepeat
  | openInterval
  | badInterval
  | bigInterval
  | openSet
  | emptySet
  | badClass
  | badRange
  | badReference
  | trailingBackslash
  deriving DecidableEq, Repr

/-- The message about a text that is no pattern. -/
def PatternFault.message : PatternFault → String
  | openGroup => "Unmatched ( or \\("
  | closedGroup => "Unmatched ) or \\)"
  | nothingToRepeat => "Invalid preceding regular expression"
  | openInterval => "Unmatched \\\x7b"
  | badInterval => "Invalid content of \\\x7b\\\x7d"
  | bigInterval => "Regular expression too big"
  | openSet => "Unmatched [, [^, [:, [., or [="
  | emptySet => "Invalid regular expression"
  | badClass => "Invalid character class name"
  | badRange => "Invalid range end"
  | badReference => "Invalid back reference"
  | trailingBackslash => "Trailing backslash"

namespace PatternText

/-- The text up to a mark of two characters, and what follows it. -/
def upTo? (a b : Char) : List Char → Option (List Char × List Char)
  | c :: d :: rest =>
    if c == a && d == b then some ([], rest)
    else (upTo? a b (d :: rest)).map fun (text, rest) => (c :: text, rest)
  | _ => none

/-- The end of a range, which may be written in brackets, and what follows it. -/
def rangeEnd (cs : List Char) : Option (Char × List Char) :=
  match cs with
  | '[' :: '.' :: c :: '.' :: ']' :: rest => some (c, rest)
  | c :: rest => some (c, rest)
  | [] => none

/-- The parts of a set up to its closing bracket, and what follows it. A bracket at the front
does not close the set. -/
def setItems : (fuel : Nat) → (first : Bool) → List Char →
    Except PatternFault (List SetItem × List Char)
  | 0, _, _ => .error .openSet
  | fuel + 1, first, cs => do
    let more (item : SetItem) (rest : List Char) :
        Except PatternFault (List SetItem × List Char) := do
      let (items, rest) ← setItems fuel false rest
      return (item :: items, rest)
    match cs with
    | [] => throw .openSet
    | '[' :: ':' :: rest =>
      let some (name, rest) := upTo? ':' ']' rest | throw .openSet
      let some c := CharClass.ofName? (String.ofList name) | throw .badClass
      more (.named c) rest
    | '[' :: '=' :: c :: '=' :: ']' :: rest => more (.range c c) rest
    | c :: rest =>
      if c == ']' && !first then return ([], rest)
      let (start, behind) := (rangeEnd cs).getD (c, rest)
      match behind with
      | '-' :: ']' :: _ => more (.range start start) behind
      | '-' :: behind =>
        let some (stop, behind) := rangeEnd behind | throw .openSet
        if stop < start then throw .badRange
        more (.range start stop) behind
      | behind => more (.range start start) behind

/-- The parts of the notation. -/
inductive Mark where
  | atom (p : Pattern)
  | condition (p : Pattern)
  | opening
  | closing
  | bar
  | repeated (least : Nat) (most : Option Nat) (counted : Bool)

/-- The greatest number in an interval. -/
def maxCount : Nat := 32767

/-- The number that digits stand for. -/
def number (cs : List Char) : Nat := cs.foldl (fun n c => 10 * n + (c.toNat - '0'.toNat)) 0

/-- The bounds of an interval up to what closes it, and what follows it. -/
def interval (extended : Bool) (cs : List Char) : Except PatternFault (Mark × List Char) := do
  let closed := if extended then
      let text := cs.takeWhile (· != '\x7d')
      (cs.drop text.length).tail?.map fun rest => (text, rest)
    else upTo? '\\' '\x7d' cs
  let some (text, rest) := closed | throw .openInterval
  let low := text.takeWhile Char.isDigit
  let (least, most) ← match text.drop low.length with
    | [] => if low.isEmpty then throw .badInterval else pure (number low, some (number low))
    | ',' :: high =>
      if !high.all Char.isDigit then throw .badInterval
      pure (number low, if high.isEmpty then none else some (number high))
    | _ => throw .badInterval
  if most.any (· < least) then throw .badInterval
  if maxCount < most.getD least then throw .bigInterval
  return (.repeated least most true, rest)

/-- What a character behind a backslash means in both spellings. -/
def escaped (c : Char) : Mark :=
  match c with
  | 'w' => .atom (.set false [.named .word])
  | 'W' => .atom (.set true [.named .word])
  | 's' => .atom (.set false [.named .space])
  | 'S' => .atom (.set true [.named .space])
  | 'b' => .condition (.wordEdge false)
  | 'B' => .condition (.wordEdge true)
  | '<' => .condition .wordStart
  | '>' => .condition .wordEnd
  | '\x60' => .condition .textStart
  | '\'' => .condition .textEnd
  | 'n' => .atom (.char '\n')
  | c => if '1' ≤ c && c ≤ '9' then .atom (.back (c.toNat - '0'.toNat)) else .atom (.char c)

/-- What a character means that is written with a backslash in the basic spelling and without in
the extended one. Where nothing can be repeated, the signs of the basic spelling stand for
themselves. -/
def operator? (extended start : Bool) (c : Char) (rest : List Char) :
    Option (Except PatternFault (Mark × List Char)) :=
  let repetition (mark : Mark) : Except PatternFault (Mark × List Char) :=
    if !start then .ok (mark, rest)
    else if extended then .error .nothingToRepeat
    else .ok (.atom (.char c), rest)
  match c with
  | '(' => some (.ok (.opening, rest))
  | ')' => some (.ok (.closing, rest))
  | '|' => some (.ok (.bar, rest))
  | '+' => some (repetition (.repeated 1 none false))
  | '?' => some (repetition (.repeated 0 (some 1) false))
  | '\x7b' => some (if start then .error .nothingToRepeat else interval extended rest)
  | _ => none

/-- The next part of the notation. `start` says that there is nothing in front that could be
repeated, and `begins` that the part begins an alternative. -/
def mark (extended start begins : Bool) (cs : List Char) :
    Except PatternFault (Mark × List Char) :=
  match cs with
  | [] => .error .trailingBackslash
  | ['\\'] => .error .trailingBackslash
  | '\\' :: c :: rest =>
    match if extended then none else operator? false start c rest with
    | some answer => answer
    | none => .ok (escaped c, rest)
  | '.' :: rest => .ok (.atom .any, rest)
  | '*' :: rest =>
    if !start then .ok (.repeated 0 none true, rest)
    else if extended then .error .nothingToRepeat
    else .ok (.atom (.char '*'), rest)
  | ['['] | ['[', '^'] => .error .emptySet
  | '[' :: '^' :: rest =>
    (setItems (rest.length + 1) true rest).map fun (items, rest) =>
      (.atom (.set true items), rest)
  | '[' :: rest =>
    (setItems (rest.length + 1) true rest).map fun (items, rest) =>
      (.atom (.set false items), rest)
  | '^' :: rest =>
    if extended || begins then .ok (.condition .lineStart, rest)
    else .ok (.atom (.char '^'), rest)
  | '$' :: rest =>
    let closes := rest.isEmpty || extended || rest.take 2 == ['\\', ')'] ||
      rest.take 2 == ['\\', '|']
    .ok (if closes then .condition .lineEnd else .atom (.char '$'), rest)
  | c :: rest =>
    match if extended then operator? true start c rest else none with
    | some answer => answer
    | none => .ok (.atom (.char c), rest)

/-- A pattern that is being read: the alternatives in front, what is complete of the present
one, and its last part if that may yet be repeated. -/
structure Unfinished where
  alternatives : Option Pattern := none
  done : Pattern := .empty
  last : Option Pattern := none
  /-- Whether nothing of the present alternative has been read. -/
  begins : Bool := true
  /-- Whether the last part has been repeated already. -/
  isRepeated : Bool := false

namespace Unfinished

/-- The present alternative. -/
def sequence (p : Unfinished) : Pattern :=
  match p.last with
  | some last => .seq p.done last
  | none => p.done

/-- The whole pattern. -/
def whole (p : Unfinished) : Pattern :=
  match p.alternatives with
  | some q => .alt q p.sequence
  | none => p.sequence

/-- Adds a part that may be repeated. -/
def add (p : Unfinished) (part : Pattern) : Unfinished :=
  { p with done := p.sequence, last := some part, begins := false, isRepeated := false }

/-- Adds a condition, which is not repeated. -/
def require (p : Unfinished) (condition : Pattern) : Unfinished :=
  { p with done := .seq p.sequence condition, last := none, begins := false }

end Unfinished

/-- Whether a back reference is to a group that is complete. -/
def refersTo (complete : List Nat) : Pattern → Bool
  | .back n => complete.contains n
  | _ => true

/-- Reads a pattern. The open groups are kept with what stands in front of them, and the groups
that are complete with their numbers. -/
def readFrom (extended : Bool) : (fuel : Nat) → (groups : Nat) → (complete : List Nat) →
    (opened : List (Nat × Unfinished)) → Unfinished → List Char → Except PatternFault Pattern
  | 0, _, _, _, _, _ => .error .trailingBackslash
  | _, _, _, [], present, [] => .ok present.whole
  | _, _, _, _ :: _, _, [] => .error .openGroup
  | fuel + 1, groups, complete, opened, present, cs => do
    let (part, rest) ← mark extended present.last.isNone present.begins cs
    match part with
    | .atom p =>
      if !refersTo complete p then throw .badReference
      readFrom extended fuel groups complete opened (present.add p) rest
    | .condition p => readFrom extended fuel groups complete opened (present.require p) rest
    | .repeated least most counted =>
      let some last := present.last | throw .nothingToRepeat
      if counted && present.isRepeated && !extended then throw .nothingToRepeat
      let present := { present with last := some (.rep least most last), isRepeated := true }
      readFrom extended fuel groups complete opened present rest
    | .bar =>
      readFrom extended fuel groups complete opened { alternatives := some present.whole } rest
    | .opening =>
      readFrom extended fuel (groups + 1) complete ((groups + 1, present) :: opened) {} rest
    | .closing =>
      match opened with
      | (number, outer) :: opened =>
        readFrom extended fuel groups (number :: complete) opened
          (outer.add (.group number present.whole)) rest
      | [] => throw .closedGroup

/-- The pattern that a text writes. -/
def read (extended : Bool) (cs : List Char) : Except PatternFault Pattern :=
  readFrom extended (cs.length + 1) 0 [] [] {} cs

end PatternText

end DeviceApi.Command
