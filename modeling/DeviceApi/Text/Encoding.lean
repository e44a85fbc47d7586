/-!
# Encodings of texts

Texts and octets stand for each other in several ways.
-/

namespace DeviceApi.Text

/-! ## Hexadecimal digits -/

/-- The value of a hexadecimal digit of either case. -/
def hexValue? (c : Char) : Option Nat :=
  if '0' ≤ c ∧ c ≤ '9' then some (c.toNat - '0'.toNat)
  else if 'a' ≤ c ∧ c ≤ 'f' then some (c.toNat - 'a'.toNat + 10)
  else if 'A' ≤ c ∧ c ≤ 'F' then some (c.toNat - 'A'.toNat + 10)
  else none

/-- The last `width` hexadecimal digits of a number, in lower case. -/
def hexDigits : (width n : Nat) → List Char
  | 0, _ => []
  | width + 1, n => hexDigits width (n / 16) ++ [Nat.digitChar (n % 16)]

/-- The octets of a text of hexadecimal digit pairs. -/
def octetsOfHex? : List Char → Option (List UInt8)
  | [] => some []
  | [_] => none
  | a :: b :: rest => do
    let high ← hexValue? a
    let low ← hexValue? b
    return UInt8.ofNat (16 * high + low) :: (← octetsOfHex? rest)

end DeviceApi.Text

/-!
## UTF-8

Octets are read as characters one at a time. Malformed octets are grouped into units, each
the longest start of a well-formed sequence or a single octet, so that a reader may either
refuse the text or put a replacement character for each unit.
-/

namespace DeviceApi.Text.Utf8

/-- Where a reader stands: between characters, or inside of one. -/
inductive Pending where
  | start
  /-- `owed` octets are missing, the next of them between `low` and `high`; `value` holds the
  bits read so far. -/
  | inside (owed low high value : Nat)

/-- What an octet that begins a character leads to, with the unit that it completes. -/
def begin (b : Nat) : List (Option Char) × Pending :=
  if b < 0x80 then ([some (Char.ofNat b)], .start)
  else if b < 0xC2 then ([none], .start)
  else if b < 0xE0 then ([], .inside 1 0x80 0xBF (b - 0xC0))
  else if b = 0xE0 then ([], .inside 2 0xA0 0xBF 0)
  else if b = 0xED then ([], .inside 2 0x80 0x9F 0xD)
  else if b < 0xF0 then ([], .inside 2 0x80 0xBF (b - 0xE0))
  else if b = 0xF0 then ([], .inside 3 0x90 0xBF 0)
  else if b < 0xF4 then ([], .inside 3 0x80 0xBF (b - 0xF0))
  else if b = 0xF4 then ([], .inside 3 0x80 0x8F 4)
  else ([none], .start)

/-- The characters of a run of octets, with `none` for each malformed unit. -/
def units : Pending → List UInt8 → List (Option Char)
  | .start, [] => []
  | .inside .., [] => [none]
  | .start, b :: rest =>
    let (done, next) := begin b.toNat
    done ++ units next rest
  | .inside owed low high value, b :: rest =>
    if low ≤ b.toNat ∧ b.toNat ≤ high then
      let value := value * 64 + b.toNat % 64
      if owed ≤ 1 then some (Char.ofNat value) :: units .start rest
      else units (.inside (owed - 1) 0x80 0xBF value) rest
    else
      let (done, next) := begin b.toNat
      none :: done ++ units next rest

/-- The text of well-formed octets. -/
def decode? (octets : List UInt8) : Option String :=
  ((units .start octets).mapM id).map String.ofList

/-- The character that stands for a malformed unit. -/
def replacement : Char := '\ufffd'

/-- The characters of any octets, each malformed unit replaced. -/
def decodeLossy (octets : List UInt8) : List Char :=
  (units .start octets).map fun unit => unit.getD replacement

end DeviceApi.Text.Utf8

/-!
## Percent encoding

A percent sign with two hexadecimal digits stands for an octet. Octets and ASCII characters
next to each other form a run that is read as UTF-8, with malformed units replaced; a
character outside of ASCII ends a run. A percent sign without two digits stands for itself.
-/

namespace DeviceApi.Text

/-- The octets and further characters that a percent-encoded text stands for. -/
def percentUnits : List Char → List (UInt8 ⊕ Char)
  | '%' :: a :: b :: rest =>
    match hexValue? a, hexValue? b with
    | some high, some low => .inl (UInt8.ofNat (16 * high + low)) :: percentUnits rest
    | _, _ => .inl 0x25 :: percentUnits (a :: b :: rest)
  | c :: rest =>
    (if c.toNat < 0x80 then .inl (UInt8.ofNat c.toNat) else .inr c) :: percentUnits rest
  | [] => []

/-- Reads each run of octets as UTF-8. The first component is the run at the front. -/
def joinRuns : List (UInt8 ⊕ Char) → List UInt8 × List Char
  | [] => ([], [])
  | .inl octet :: rest =>
    let (run, text) := joinRuns rest
    (octet :: run, text)
  | .inr c :: rest =>
    let (run, text) := joinRuns rest
    ([], c :: (Utf8.decodeLossy run ++ text))

/-- The text that a percent-encoded text stands for. -/
def percentDecode (cs : List Char) : List Char :=
  let (run, text) := joinRuns (percentUnits cs)
  Utf8.decodeLossy run ++ text

end DeviceApi.Text

/-!
## Base 64

Three octets are written as four digits in base sixty-four, and signs of equality fill up the
last group. In a text that is read any other character is passed over.
-/

namespace DeviceApi.Text.Base64

/-- The digits in the order of their values. -/
def alphabet : List Char :=
  "ABCDEFGHIJKLMNOPQRSTUVWXYZabcdefghijklmnopqrstuvwxyz0123456789+/".toList

/-- The digit of a value below sixty-four. -/
def digit (n : Nat) : Char := alphabet.getD n '='

/-- The value of a digit. -/
def value? (c : Char) : Option Nat := alphabet.findIdx? (· == c)

/-- The octets of digits, given how many digits of a group have been read, the bits of the last
one that are still to be used, and how many signs of equality have followed it. A group that is
filled up ends the text. -/
def decodeFrom : (place bits fillers : Nat) → List Char → Option (List UInt8)
  | place, _, _, [] => if place = 0 then some [] else none
  | place, bits, fillers, c :: rest =>
    if c = '=' then
      if 2 ≤ place && 4 ≤ place + (fillers + 1) then some []
      else decodeFrom place bits (if 2 ≤ place then fillers + 1 else fillers) rest
    else
      match value? c with
      | none => decodeFrom place bits fillers rest
      | some n =>
        match place with
        | 0 => decodeFrom 1 n 0 rest
        | 1 => (decodeFrom 2 (n % 16) 0 rest).map (UInt8.ofNat (4 * bits + n / 16) :: ·)
        | 2 => (decodeFrom 3 (n % 4) 0 rest).map (UInt8.ofNat (16 * bits + n / 4) :: ·)
        | _ => (decodeFrom 0 0 0 rest).map (UInt8.ofNat (64 * bits + n) :: ·)

/-- The octets of a text in base 64; a group that is not complete is refused. -/
def decode? (cs : List Char) : Option (List UInt8) := decodeFrom 0 0 0 cs

/-- The digits of octets. -/
def encode : List UInt8 → List Char
  | [] => []
  | [a] =>
    let n := a.toNat
    [digit (n / 4), digit (n % 4 * 16), '=', '=']
  | [a, b] =>
    let n := 256 * a.toNat + b.toNat
    [digit (n / 1024), digit (n / 16 % 64), digit (n % 16 * 4), '=']
  | a :: b :: c :: rest =>
    let n := 65536 * a.toNat + 256 * b.toNat + c.toNat
    digit (n / 262144) :: digit (n / 4096 % 64) :: digit (n / 64 % 64) :: digit (n % 64) ::
      encode rest

/-- How many octets are written in a line. -/
def lineOctets : Nat := 57

/-- Octets as lines of digits, each with a line feed at its end. -/
def lines : List UInt8 → List Char
  | [] => []
  | b :: rest =>
    encode (b :: rest.take (lineOctets - 1)) ++ '\n' :: lines (rest.drop (lineOctets - 1))
termination_by bytes => bytes.length
decreasing_by
  rw [List.length_drop, List.length_cons]
  omega

example : decode? "aGVs\nbG8=".toList = some "hello".toUTF8.toList := by decide +kernel

example : decode? "@".toList = some [] := by decide

example : decode? "a".toList = none := by decide

end DeviceApi.Text.Base64
