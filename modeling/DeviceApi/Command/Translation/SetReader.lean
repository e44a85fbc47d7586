import DeviceApi.Command.Outcome

/-!
# Sets of octets

The sets that octets are translated by are written with escapes, ranges, classes and repeats.
Reading a set gives its parts in order, and may be doubtful about an escape even if it succeeds.
-/

namespace DeviceApi.Command.Translation

/-- The octet of an ASCII character. -/
def code (c : Char) : UInt8 := UInt8.ofNat c.toNat

/-- Whether an octet is an octal digit. -/
def isOctal (c : UInt8) : Bool := code '0' ≤ c && c ≤ code '7'

/-- Whether an octet is a lower case letter. -/
def isLower (c : UInt8) : Bool := code 'a' ≤ c && c ≤ code 'z'

/-- Whether an octet is an upper case letter. -/
def isUpper (c : UInt8) : Bool := code 'A' ≤ c && c ≤ code 'Z'

/-- Whether an octet is a digit. -/
def isDigit (c : UInt8) : Bool := code '0' ≤ c && c ≤ code '9'

/-- Whether an octet is a blank or ends a line. -/
def isSpace (c : UInt8) : Bool := c == 32 || (9 ≤ c && c ≤ 13)

/-- Whether an octet is printed as a visible character. -/
def isGraphic (c : UInt8) : Bool := 33 ≤ c && c ≤ 126

/-- The octets from one to another. -/
def range (first last : UInt8) : Octets :=
  (List.range (last.toNat + 1 - first.toNat)).map fun n => UInt8.ofNat (first.toNat + n)

/-- All octets. -/
def all : Octets := range 0 255

/-- The property of a class. -/
def class? : String → Option (UInt8 → Bool)
  | "lower" => some isLower
  | "upper" => some isUpper
  | "alpha" => some fun c => isLower c || isUpper c
  | "digit" => some isDigit
  | "alnum" => some fun c => isLower c || isUpper c || isDigit c
  | "space" => some isSpace
  | "blank" => some fun c => c == 32 || c == 9
  | "punct" => some fun c => isGraphic c && !(isLower c || isUpper c || isDigit c)
  | "graph" => some isGraphic
  | "print" => some fun c => isGraphic c || c == 32
  | "cntrl" => some fun c => c < 32 || c == 127
  | "xdigit" => some fun c =>
    isDigit c || (code 'a' ≤ c && c ≤ code 'f') || (code 'A' ≤ c && c ≤ code 'F')
  | _ => none

/-- A part of a set. -/
inductive Item where
  | single (b : UInt8)
  | span (first last : UInt8)
  | named (name : String) (members : Octets)
  | equivalent (b : UInt8)
  /-- An octet that is repeated a number of times. -/
  | repeated (b : UInt8) (count : Nat)
  /-- An octet that fills the set up to the length of the other one. -/
  | fill (b : UInt8)

/-! ## Escapes -/

/-- An octet of a set, with whether it has been written by an escape. -/
structure SetOctet where
  octet : UInt8
  escaped : Bool := false

/-- The octet that an escape letter stands for. -/
def escapedOctet (c : UInt8) : UInt8 :=
  if c == code 'a' then 7
  else if c == code 'b' then 8
  else if c == code 'f' then 12
  else if c == code 'n' then 10
  else if c == code 'r' then 13
  else if c == code 't' then 9
  else if c == code 'v' then 11
  else c

/-- The octets of a set without escapes. -/
def setOctetsOf : (fuel : Nat) → Octets → List SetOctet
  | 0, _ => []
  | _, [] => []
  | fuel + 1, c :: rest =>
    if c == code '\\' then
      let value (digits : Octets) : Nat :=
        digits.foldl (fun n d => 8 * n + (d.toNat - '0'.toNat)) 0
      let digits := (rest.take 3).takeWhile isOctal
      let digits := if value digits < 256 then digits else digits.take 2
      if digits.isEmpty then
        match rest with
        | [] => [⟨c, false⟩]
        | d :: rest => ⟨escapedOctet d, true⟩ :: setOctetsOf fuel rest
      else
        ⟨UInt8.ofNat (value digits), true⟩ :: setOctetsOf fuel (rest.drop digits.length)
    else ⟨c, false⟩ :: setOctetsOf fuel rest

/-- What is doubtful about the escapes of a set. -/
def doubts : Octets → List String
  | [] => []
  | c :: rest =>
    if c != code '\\' then doubts rest
    else
      match rest with
      | [] => ["an unescaped backslash at end of string is not portable"]
      | a :: b :: d :: rest =>
        let digits := [a, b, d]
        if digits.all isOctal && code '3' < a then
          let shown (bytes : Octets) : String := textOf (c :: bytes)
          let read := shown [code '0', a, b]
          (s!"the ambiguous octal escape {shown digits} is being\n\tinterpreted as " ++
            s!"the 2-byte sequence {read}, {textOf [d]}") :: doubts rest
        else doubts (b :: d :: rest)
      | _ :: rest => doubts rest

/-! ## Parts -/

/-- Octets in a complaint. Those that are not printable are written by a letter, if they have
one, or in octal digits. -/
def shown (bytes : Octets) : String :=
  String.ofList (bytes.flatMap fun b =>
    match escapeLetter? b with
    | some letter => ['\\', letter]
    | none => if isGraphic b || b == 32 then [Char.ofNat b.toNat] else octalEscape b)

/-- An octet at the end of a range in a complaint. -/
def shownEnd (b : UInt8) : String :=
  if (escapeLetter? b).isSome then .ofList (octalEscape b) else shown [b]

/-- Whether a plain character is at the front. -/
def startsWith (c : Char) : List SetOctet → Bool
  | [] => false
  | u :: _ => !u.escaped && u.octet == code c

/-- What stands in front of a plain character and a closing bracket, and what follows them. -/
def untilClosed? (delimiter : Char) : List SetOctet → Option (Octets × List SetOctet)
  | [] => none
  | u :: rest =>
    if startsWith delimiter (u :: rest) && startsWith ']' rest then some ([], rest.drop 1)
    else (untilClosed? delimiter rest).map fun (name, rest) => (u.octet :: name, rest)

/-- Whether a star, digits and a closing bracket are at the front. -/
def isRepeatTail (us : List SetOctet) : Bool :=
  startsWith '*' us && startsWith ']' ((us.drop 1).dropWhile fun u => isDigit u.octet && !u.escaped)

/-- The number of times that an octet is repeated, if the text tells one. -/
def repeatCount? (text : Octets) : Option Nat :=
  let base := if text.head? == some (code '0') then 8 else 10
  let text := text.dropWhile isSpace
  let digits := if text.head? == some (code '+') then text.drop 1 else text
  let n := digits.foldl (fun n d => base * n + (d.toNat - '0'.toNat)) 0
  let holds (d : UInt8) : Bool := if base = 8 then isOctal d else isDigit d
  if digits.isEmpty || !digits.all holds || Nat.pow 2 64 - 3 < n then none else some n

/-- A repeat of which the opening bracket has been read, and what follows it. -/
def repeat? : List SetOctet → Option (Except String Item × List SetOctet)
  | c :: star :: rest =>
    let text := rest.takeWhile fun u => !u.escaped && u.octet != code ']'
    let rest := rest.drop text.length
    let text := text.map (·.octet)
    if !(startsWith '*' [star] && startsWith ']' rest) then none
    else
      match if text.isEmpty then some 0 else repeatCount? text with
      | some 0 => some (.ok (.fill c.octet), rest.drop 1)
      | some n => some (.ok (.repeated c.octet n), rest.drop 1)
      | none =>
        some (.error s!"invalid repeat count {quote (shown text)} in [c*n] construct", rest.drop 1)
  | _ => none

/-- The class that has a name. -/
def classOf (name : Octets) : Except String Item :=
  if name.isEmpty then .error "missing character class name '[::]'"
  else
    match class? (textOf name) with
    | some holds => .ok (.named (textOf name) (all.filter holds))
    | none => .error s!"invalid character class {quote (shown name)}"

/-- The octets that are equivalent to the only one of a name. -/
def equivalentOf : Octets → Except String Item
  | [] => .error "missing equivalence class character '[==]'"
  | [b] => .ok (.equivalent b)
  | name => .error s!"{shown name}: equivalence class operand must be a single character"

/-- A class of which the opening bracket has been read, and what follows it. A text that also
reads as a repeat is no class with an unknown name. -/
def bracketed? (us : List SetOctet) : Option (Except String Item × List SetOctet) :=
  let behind := us.drop 1
  let closed : Option (Octets × Except String Item × List SetOctet) :=
    if startsWith ':' us then (untilClosed? ':' behind).map fun (n, rest) => (n, classOf n, rest)
    else if startsWith '=' us then
      (untilClosed? '=' behind).map fun (n, rest) => (n, equivalentOf n, rest)
    else none
  match closed with
  | none => none
  | some (name, .error line, rest) =>
    if !name.isEmpty && isRepeatTail behind then none else some (.error line, rest)
  | some (_, item, rest) => some (item, rest)

/-- The octets from one to another, unless they are in the wrong order. -/
def spanOf (first last : UInt8) : Except String Item :=
  if first ≤ last then .ok (.span first last)
  else .error (s!"range-endpoints of '{shownEnd first}-{shownEnd last}' " ++
    "are in reverse collating sequence order")

/-- The parts of a set, or a complaint. Fewer than three octets are no construct. -/
def items : (fuel : Nat) → List SetOctet → Except String (List Item)
  | 0, _ => .ok []
  | _, [] => .ok []
  | fuel + 1, u :: rest => do
    let construct :=
      if startsWith '[' [u] && 2 ≤ rest.length then (bracketed? rest).or (repeat? rest) else none
    match construct, rest with
    | some (item, rest), _ => return (← item) :: (← items fuel rest)
    | none, dash :: last :: more =>
      if startsWith '-' [dash] then
        return (← spanOf u.octet last.octet) :: (← items fuel more)
      else return .single u.octet :: (← items fuel rest)
    | none, _ => return .single u.octet :: (← items fuel rest)

/-- The parts of a set as it is written on a command line. -/
def itemsOf (s : String) : Except String (List Item) :=
  let bytes := octets s
  items (bytes.length + 1) (setOctetsOf bytes.length bytes)

end DeviceApi.Command.Translation
