import DeviceApi.Text.Code
import DeviceApi.Text.Encoding

/-!
# Octets and texts

Commands read and write octets, but are told what to do by texts. An octet that is not part of a
character is kept in a text as the second half of a character that lies above all others of its
kind, so that no octet is lost.
-/

namespace DeviceApi.Command

/-- Octets that a command reads or writes. -/
abbrev Octets := List UInt8

/-- The code of the half that an octet of value 0 would be kept as. -/
def octetBase : Nat := 0xDC00

/-- The character that an octet is kept as. -/
def charOfOctet (b : UInt8) : Char := Text.charOfCode (octetBase + b.toNat)

/-- Whether a character is one that an octet is kept as. -/
def isKeptOctet (c : Char) : Bool :=
  octetBase + 0x80 ≤ Text.codeOf c && Text.codeOf c ≤ octetBase + 0xFF

/-- The octets of a text. -/
def octets (s : String) : Octets :=
  if s.any isKeptOctet then
    s.toList.flatMap fun c =>
      if isKeptOctet c then [UInt8.ofNat (Text.codeOf c - octetBase)]
      else (String.singleton c).toUTF8.toList
  else s.toUTF8.toList

/-- The character at the front of octets, and how many of them it takes up. -/
def charAt? (bytes : Octets) : Option (Char × Nat) :=
  [1, 2, 3, 4].findSome? fun count =>
    match Text.Utf8.units .start (bytes.take count) with
    | [some c] => some (c, count)
    | _ => none

/-- The characters of octets, of which some have been read already. -/
def charsOf : (read : Nat) → Octets → List Char
  | _, [] => []
  | read + 1, _ :: rest => charsOf read rest
  | 0, b :: rest =>
    match charAt? (b :: rest) with
    | some (c, count) => c :: charsOf (count - 1) rest
    | none => charOfOctet b :: charsOf 0 rest

/-- The text of octets. -/
def textOf (bytes : Octets) : String := String.ofList (charsOf 0 bytes)

/-- The character of an octet by its value. -/
def charOfValue (n : Nat) : Char :=
  if n % 256 < 0x80 then Char.ofNat (n % 256) else charOfOctet (UInt8.ofNat n)

/-- Characters in which octets that make up a character have become that character. -/
def rejoined (cs : List Char) : List Char :=
  if cs.any isKeptOctet then (textOf (octets (String.ofList cs))).toList else cs

/-- Characters of which the first one is taken apart into its octets. -/
def splitFirst : List Char → List Char
  | [] => []
  | c :: rest =>
    if c.toNat < 0x80 || isKeptOctet c then c :: rest
    else (octets (.singleton c)).map charOfOctet ++ rest

/-- The text in which each character stands for one of the given octets. -/
def spreadOf (bytes : Octets) : String := String.ofList (bytes.map fun b => Char.ofNat b.toNat)

/-- The octets of a text in which each character stands for one. -/
def spreadOctets (s : String) : Octets := s.toList.map fun c => UInt8.ofNat c.toNat

/-- A text in which each character stands for one octet of another text. -/
def spread (s : String) : String := spreadOf (octets s)

/-- The text whose octets the characters of another one stand for. -/
def gathered (s : String) : String := textOf (spreadOctets s)

end DeviceApi.Command
