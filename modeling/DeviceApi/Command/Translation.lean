import DeviceApi.Command.Arguments
import DeviceApi.Command.Translation.SetReader

/-!
# Translation of octets

The command `tr` replaces, deletes and squeezes octets. What replaces an octet is told by two
sets whose members are paired in order.
-/

namespace DeviceApi.Command.Translation

/-! ## Runs -/

/-- The two classes whose members are paired by letter. -/
inductive LetterCase where
  | upper | lower
  deriving DecidableEq, Repr

/-- The letters of a class. -/
def LetterCase.letters : LetterCase → Octets
  | upper => range (code 'A') (code 'Z')
  | lower => range (code 'a') (code 'z')

/-- An octet that a set holds a number of times in a row. -/
structure Run where
  octet : UInt8
  count : Nat := 1
  /-- The class of letters that begins with this octet. -/
  opens : Option LetterCase := none

/-- The class of letters that a part is. -/
def Item.letterCase? : Item → Option LetterCase
  | .named "upper" _ => some .upper
  | .named "lower" _ => some .lower
  | _ => none

/-- The runs of a part; `missing` is the length that a filling part is given. -/
def Item.runs (missing : Nat) (item : Item) : List Run :=
  match item with
  | .single b | .equivalent b => [{ octet := b }]
  | .span a b => (range a b).map fun b => { octet := b }
  | .named _ members =>
    match members with
    | [] => []
    | b :: rest =>
      { octet := b, opens := item.letterCase? } :: rest.map fun b => { octet := b }
  | .repeated b n => [{ octet := b, count := n }]
  | .fill b => if missing = 0 then [] else [{ octet := b, count := missing }]

/-- How many octets runs are. -/
def lengthOf (runs : List Run) : Nat := runs.foldl (fun n r => n + r.count) 0

/-- The different octets of runs. -/
def membersOf (runs : List Run) : Octets := runs.map (·.octet)

/-- Runs without what is known about classes of letters. -/
def withoutCases (runs : List Run) : List Run := runs.map fun r => { r with opens := none }

/-! ## Sets -/

/-- Whether a part fills the set up. -/
def Item.isFill : Item → Bool
  | .fill _ => true
  | _ => false

/-- Whether a part is a class. -/
def Item.isClass : Item → Bool
  | .named _ _ => true
  | _ => false

/-- Whether a part is an equivalence class. -/
def Item.isEquivalence : Item → Bool
  | .equivalent _ => true
  | _ => false

/-- The parts as runs, in which a filling part makes up the given length. -/
def runsOf (length : Nat) (items : List Item) : Except String (List Run) :=
  let known := lengthOf (items.flatMap (Item.runs 0))
  if Nat.pow 2 64 - 3 < known then .error "too many characters in set"
  else .ok (items.flatMap (Item.runs (length - known)))

/-- The octets that are replaced, deleted or squeezed. -/
def sourceOf (complement : Bool) (items : List Item) : Except String (List Run) := do
  let runs ← runsOf 0 items
  if items.any Item.isFill then throw "the [c*] repeat construct may not appear in string1"
  if complement then
    let members := membersOf runs
    return (all.filter fun b => !members.contains b).map fun b => { octet := b }
  else return runs

/-- The octets of a second set that only tells what is squeezed. -/
def squeezedBy (items : List Item) : Except String Octets := do
  let runs ← runsOf 0 items
  let fills := (items.filter Item.isFill).length
  if 1 < fills then throw "only one [c*] repeat construct may appear in string2"
  if fills = 1 then throw "the [c*] construct may appear in string2 only when translating"
  return membersOf runs

/-- What replaces what. A class of letters in the second set stands for the other class of
letters in the first one, and has to stand next to one. -/
def paired : (fuel : Nat) → List Run → List Run → Except String (List (UInt8 × UInt8))
  | 0, _, _ => .ok []
  | _, _, [] => .ok []
  | _, [], b :: _ => if b.opens.isSome then misaligned else .ok []
  | fuel + 1, a :: as, b :: bs => do
    match b.opens, a.opens with
    | some _, none => misaligned
    | some new, some old =>
      let here := if new = old then [(a.octet, b.octet)] else old.letters.zip new.letters
      let behind (runs : List Run) : List Run := runs.drop (old.letters.length - 1)
      return here ++ (← paired fuel (behind as) (behind bs))
    | none, _ =>
      let shared := min a.count b.count
      let left (r : Run) : List Run :=
        if r.count = shared then [] else [{ r with count := r.count - shared }]
      return (a.octet, b.octet) :: (← paired fuel (left a ++ as) (left b ++ bs))
where
  /-- The complaint about a class of letters that stands next to something else. -/
  misaligned := .error "misaligned [:upper:] and/or [:lower:] construct"

/-- What replaces what, and the octets of the second set. A second set that is too short goes on
with its last octet, unless the first set is cut short to its length. -/
def replacements (complement truncate : Bool) (source : List Run) (sourceItems items : List Item) :
    Except String (List (UInt8 × UInt8) × Octets) := do
  let runs ← runsOf (lengthOf source) items
  if 1 < (items.filter Item.isFill).length then
    throw "only one [c*] repeat construct may appear in string2"
  if items.any Item.isEquivalence then
    throw "[=c=] expressions may not appear in string2 when translating"
  if items.any fun item => item.isClass && item.letterCase?.isNone then
    throw ("when translating, the only character classes that may appear in\n" ++
      "string2 are 'upper' and 'lower'")
  let target := if complement then withoutCases runs else runs
  let count := source.length + target.length + 1
  let _ ← paired count source target
  let missing := lengthOf source - lengthOf target
  if missing = 0 || truncate then
    checkComplement target
    return (← paired count source target, membersOf target)
  else
    match target.getLast? with
    | none => throw "when not truncating set1, string2 must be non-empty"
    | some last =>
      if (items.getLast?.map Item.isClass).getD false then
        throw ("when translating with string1 longer than string2,\n" ++
          "the latter string must not end with a character class")
      let target := target ++ [{ octet := last.octet, count := missing }]
      checkComplement target
      return (← paired (count + 1) source target, membersOf target)
where
  /-- Refuses to replace what is in no class by different octets. -/
  checkComplement (target : List Run) : Except String Unit :=
    let isUniform := match membersOf target with
      | [] => false
      | b :: rest => rest.all (· == b)
    if complement && sourceItems.any Item.isClass &&
        !(lengthOf target = lengthOf source && isUniform) then
      throw ("when translating with complemented character classes,\n" ++
        "string2 must map all characters in the domain to one")
    else return ()

/-! ## The command -/

/-- What is to be done. -/
structure Options where
  complement : Bool := false
  delete : Bool := false
  squeeze : Bool := false
  truncate : Bool := false

/-- The options of `tr`. -/
def optionTable : OptionTable where
  letters := "AcCdst".toList.map fun c => (c, .none)
  names := [("complement", 'c', .none), ("delete", 'd', .none), ("squeeze-repeats", 's', .none),
    ("truncate-set1", 't', .none)]
  anywhere := false

/-- The options that arguments ask for. -/
def Options.of (a : Arguments) : Options where
  complement := a.has 'c' || a.has 'C'
  delete := a.has 'd'
  squeeze := a.has 's'
  truncate := a.has 't'

/-- The least and the greatest number of sets. -/
def Options.setCount (o : Options) : Nat × Nat :=
  match o.delete, o.squeeze with
  | false, false => (2, 2)
  | true, false => (1, 1)
  | false, true => (1, 2)
  | true, true => (2, 2)

/-- Octets in which runs of the same octet of a set are one octet. -/
def squeezeRuns (members : Octets) : Octets → Octets
  | [] => []
  | c :: rest =>
    match squeezeRuns members rest with
    | d :: more => if c == d && members.contains c then d :: more else c :: d :: more
    | [] => [c]

/-- Octets without those of a set. -/
def without (members input : Octets) : Octets := input.filter fun c => !members.contains c

/-- Octets of which some are replaced; the last replacement of an octet holds. -/
def translated (pairs : List (UInt8 × UInt8)) (input : Octets) : Octets :=
  let pairs := pairs.reverse
  input.map fun c => (pairs.lookup c).getD c

/-- What becomes of the input, or a complaint. -/
def Options.apply (o : Options) (sets : List (List Item)) (input : Octets) :
    Except String Octets := do
  match o.delete, sets with
  | true, [s] => return without (membersOf (← sourceOf o.complement s)) input
  | true, [s, t] =>
    let source ← sourceOf o.complement s
    return squeezeRuns (← squeezedBy t) (without (membersOf source) input)
  | false, [s] => return squeezeRuns (membersOf (← sourceOf o.complement s)) input
  | false, [s, t] =>
    let source ← sourceOf o.complement s
    let (pairs, target) ← replacements o.complement o.truncate source s t
    let changed := translated pairs input
    return if o.squeeze then squeezeRuns target changed else changed
  | _, _ => return input

/-- Why the number of sets is refused, if it is. -/
def Options.countFault? (o : Options) (args sets : List String) : Option String :=
  let (least, most) := o.setCount
  if sets.isEmpty then some "missing operand"
  else if sets.length < least then
    let purpose := if o.squeeze then "both deleting and squeezing repeats" else "translating"
    let last := args.getLastD ""
    some s!"missing operand after {quote last}\nTwo strings must be given when {purpose}."
  else if most < sets.length then
    let only := if sets.length = 2 then
      "\nOnly one string may be given when deleting without squeezing repeats." else ""
    let operand := sets.getD most ""
    some s!"extra operand {quote operand}{only}"
  else none

/-- The sets, up to one that is refused with a complaint, and what is doubtful about them. -/
def readSets : List String → List String × Except String (List (List Item))
  | [] => ([], .ok [])
  | s :: rest =>
    let here := doubts (octets s)
    match itemsOf s with
    | .error line => (here, .error line)
    | .ok items =>
      let (more, sets) := readSets rest
      (here ++ more, sets.map (items :: ·))

/-- Runs the command on its input under the name it is called by. -/
def run (self : String) (args : List String) (input : Octets) : Outcome :=
  match optionTable.parse args with
  | .error f => refuseArguments self 1 f
  | .ok a =>
    let o := Options.of a
    match o.countFault? args a.operands with
    | some fault => .complains 1 s!"{self}: {fault}\nTry '{self} --help' for more information."
    | none =>
      let (warnings, sets) := readSets a.operands
      let warned := warnings.map fun w => (Stream.err, octets s!"{self}: warning: {w}\n")
      match sets.bind fun sets => o.apply sets input with
      | .ok out => { written := warned ++ [(.out, out)], readsInput := true }
      | .error line => { code := 1, written := warned ++ [(.err, octets s!"{self}: {line}\n")] }

end DeviceApi.Command.Translation
