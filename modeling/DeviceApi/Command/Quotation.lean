import DeviceApi.Command.Octets
import DeviceApi.Text.Printable

/-!
# Quoted words

A word in a complaint stands between quotes. A file name is written so that a shell reads it as
the same name, with as few quotes as possible.
-/

namespace DeviceApi.Command

/-- The letter of an octet that is written by a backslash and a letter. -/
def escapeLetter? (b : UInt8) : Option Char :=
  match b.toNat with
  | 7 => some 'a'
  | 8 => some 'b'
  | 9 => some 't'
  | 10 => some 'n'
  | 11 => some 'v'
  | 12 => some 'f'
  | 13 => some 'r'
  | _ => none

/-- An octet in three octal digits behind a backslash. -/
def octalEscape (b : UInt8) : List Char :=
  let digit (n : Nat) : Char := Nat.digitChar (n % 8)
  ['\\', digit (b.toNat / 64), digit (b.toNat / 8), digit b.toNat]

/-- The octets of a character that is not printable, each by a letter or in octal digits. -/
def escapedOctets (c : Char) : List Char :=
  (octets (.singleton c)).flatMap fun b =>
    match escapeLetter? b with
    | some letter => ['\\', letter]
    | none => octalEscape b

/-- A word of a command line in a complaint. -/
def quote (word : String) : String :=
  let shown (c : Char) : List Char :=
    if c == '\\' || c == '\u2019' then ['\\', c]
    else if Text.isPrintable c then [c]
    else escapedOctets c
  "\u2018" ++ String.ofList (word.toList.flatMap shown) ++ "\u2019"

/-- Whether a character stands for itself in words between any quotes. -/
def isPlainInQuotes (c : Char) : Bool :=
  Text.isPrintable c && !("!\"$&()*;<=>?[\\^\x60\x7b|\x7d#~".toList.contains c)

/-- Whether double quotes do for a word: nothing in it means anything else between them. -/
def fitsDoubleQuotes : List Char → Bool
  | [] => true
  | c :: rest => (isPlainInQuotes c || c == '#' || c == '~') && rest.all isPlainInQuotes

/-- Whether a word has to be quoted. -/
def needsQuotes (cs : List Char) : Bool :=
  match cs with
  | [] | ['\x7b'] | ['\x7d'] => true
  | c :: _ =>
    c == '#' || c == '~' || cs.any fun c =>
      c == ' ' || c == '\'' || !(isPlainInQuotes c || "\x7b\x7d#~".toList.contains c)

/-- What follows the opening quote of a word. Characters that are not printable are written by
escapes in quotes of their own, in which a text may end. -/
def behindWordQuote : (escaping : Bool) → List Char → List Char
  | _, [] => ['\'']
  | escaping, c :: rest =>
    if c == '\'' then "'\\''".toList ++ behindWordQuote false rest
    else if Text.isPrintable c then
      (if escaping then ['\'', '\''] else []) ++ c :: behindWordQuote false rest
    else (if escaping then [] else "'$'".toList) ++ escapedOctets c ++ behindWordQuote true rest

/-- A word between quotes as it is written in a shell. -/
def quotedName (s : String) : String :=
  let cs := s.toList
  if cs.contains '\'' && fitsDoubleQuotes cs then "\"" ++ s ++ "\""
  else String.ofList ('\'' :: behindWordQuote false cs)

/-- A word as it is written in a shell, between quotes if it needs them. -/
def quotedWord (s : String) : String := if needsQuotes s.toList then quotedName s else s

/-- A file name in a complaint about it, between quotes if a shell or a reader would need them. -/
def quotedFile (s : String) : String := if s.contains ':' then quotedName s else quotedWord s

end DeviceApi.Command
