import DeviceApi.Command.Outcome
import DeviceApi.Number.BinaryFormat

/-!
# Escapes of printed texts

The command `printf` exists twice, as a command of its own and as a part of the shell; the two
know different escapes and have different complaints.
-/

namespace DeviceApi.Command.Printing

/-- The wording and the extent of one of the two commands. -/
structure Dialect where
  /-- What stands in front of a complaint. -/
  name : String
  /-- Whether the command is one of its own, which knows characters by their number in
  hexadecimal, sizes of numbers and quoted words, and which directives have no use for some flags. -/
  isSeparate : Bool
  /-- The number that a quoted character stands for. -/
  charNumber : Char → Nat
  noNumber : String → String
  trailing : String → String
  outOfRange : String → String
  /-- The format in which numbers with a point are computed. -/
  reals : BinaryFormat
  /-- What is said about a width or precision that is too large. -/
  tooWide : String
  unknownDirective : String → String
  /-- What is said about a format that ends inside of a directive. -/
  unfinished : String → String
  /-- The code with which a bad format ends the command. -/
  badFormatCode : Int
  /-- What is said about arguments for which the format has no place. -/
  excess : Option (String → String)

/-- The command of its own under the name it is called by. -/
def separate (name : String) : Dialect where
  name
  isSeparate := true
  charNumber c := if isKeptOctet c then Text.codeOf c - octetBase else c.toNat
  noNumber arg := s!"{quote arg}: expected a numeric value"
  trailing arg := s!"{quote arg}: value not completely converted"
  outOfRange arg := s!"{quote arg}: Numerical result out of range"
  reals := .extended
  tooWide := "write error"
  unknownDirective text := s!"%{text}: invalid conversion specification"
  unfinished text := s!"%{text}: invalid conversion specification"
  badFormatCode := 1
  excess := some fun arg =>
    s!"warning: ignoring excess arguments, starting with {quote arg}"

/-- The part of a shell that complains under a given name. -/
def builtin (name : String) : Dialect where
  name
  isSeparate := false
  charNumber c := ((Command.octets (.singleton c)).headD 0).toNat
  noNumber arg := s!"{arg}: expected numeric value"
  trailing arg := s!"{arg}: not completely converted"
  outOfRange arg := s!"{arg}: Numerical result out of range"
  reals := .double
  tooWide := "xvsnprintf failed"
  unknownDirective text := s!"%{text}: invalid directive"
  unfinished _ := "missing format character"
  badFormatCode := 2
  excess := none

/-! ## Escapes -/

/-- Whether a character is an octal digit. -/
def isOctal (c : Char) : Bool := '0' ≤ c && c ≤ '7'

/-- The octet of an escape of one letter. -/
def letterOctet? : Char → Option UInt8
  | '\\' => some 92
  | '"' => some 34
  | 'a' => some 7
  | 'b' => some 8
  | 'e' => some 27
  | 'f' => some 12
  | 'n' => some 10
  | 'r' => some 13
  | 't' => some 9
  | 'v' => some 11
  | _ => none

/-- What an escape stands for. -/
inductive Escape where
  | octets (bytes : Octets)
  /-- The end of all output. -/
  | stop
  /-- An escape that is refused. -/
  | refused (message : String)

/-- The escape of a character by its number in hexadecimal, and what follows it. -/
def hexEscape (letter : Char) (cs : List Char) : Escape × List Char :=
  let most := if letter == 'x' then 2 else if letter == 'u' then 4 else 8
  let digits := (cs.take most).takeWhile fun c => (Text.hexValue? c).isSome
  let value := digits.foldl (fun n c => 16 * n + (Text.hexValue? c).getD 0) 0
  let complete := !digits.isEmpty && (letter == 'x' || digits.length = most)
  if !complete then (.refused "missing hexadecimal number in escape", cs)
  else if letter == 'x' then (.octets [UInt8.ofNat value], cs.drop digits.length)
  else if Text.isHalf value then
    (.refused ("invalid universal character name \\" ++ String.ofList (letter :: digits)), cs)
  else if Text.maxCode < value then
    (.octets (Command.octets (String.ofList ('\\' :: letter :: digits))), cs.drop digits.length)
  else (.octets (Command.octets (.singleton (Char.ofNat value))), cs.drop digits.length)

/-- The escape behind a backslash, and what follows it. In arguments a zero may stand in front of
the octal digits. -/
def escape (d : Dialect) (inArgument : Bool) (cs : List Char) : Escape × List Char :=
  match cs with
  | [] => (.octets [92], [])
  | c :: rest =>
    if c == 'c' && (inArgument || d.isSeparate) then (.stop, rest)
    else if d.isSeparate && (c == 'x' || c == 'u' || c == 'U') then hexEscape c rest
    else
      match letterOctet? c with
      | some octet => (.octets [octet], rest)
      | none =>
        let behindZero := inArgument && c == '0'
        let text := if behindZero then rest else c :: rest
        let digits := (text.take 3).takeWhile isOctal
        if digits.isEmpty && !behindZero then (.octets (92 :: Command.octets (.singleton c)), rest)
        else
          let value := digits.foldl (fun n c => 8 * n + (c.toNat - '0'.toNat)) 0
          (.octets [UInt8.ofNat value], text.drop digits.length)

/-- How output goes on behind a text with escapes. -/
inductive Sequel where
  | goesOn
  | stops
  | fails (message : String)
  deriving DecidableEq, Repr

/-- The octets of a text with escapes, and how output goes on behind it. -/
def unescaped (d : Dialect) : (fuel : Nat) → List Char → Octets × Sequel
  | 0, _ => ([], .goesOn)
  | fuel + 1, cs =>
    match cs with
    | [] => ([], .goesOn)
    | '\\' :: rest =>
      match escape d true rest with
      | (.octets bytes, rest) =>
        let (more, sequel) := unescaped d fuel rest
        (bytes ++ more, sequel)
      | (.stop, _) => ([], .stops)
      | (.refused message, _) => ([], .fails message)
    | c :: rest =>
      let (more, sequel) := unescaped d fuel rest
      (octets (.singleton c) ++ more, sequel)

end DeviceApi.Command.Printing
