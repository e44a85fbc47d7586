/-!
# Words of a command line

A command line is split into words at blanks. Quotes of either kind keep blanks inside of a
word, and a backslash takes away the meaning of the character behind it; between double quotes
only if that is a double quote or a backslash.
-/

namespace DeviceApi.Text

/-- Where a reader of words stands. -/
inductive WordState where
  | between
  | word
  | quoted (quote : Char)
  /-- Behind a backslash, inside of double quotes or not. -/
  | escaped (inQuotes : Bool)

/-- Whether a character separates words. -/
def separatesWords (c : Char) : Bool := c == ' ' || c == '\t' || c == '\r' || c == '\n'

/-- The words of the rest of a command line, given the word read so far in reverse. Nothing is
answered if a quote is not closed or nothing follows a backslash. -/
def wordsFrom : WordState → List Char → List Char → Option (List String)
  | .between, _, [] => some []
  | .word, read, [] => some [String.ofList read.reverse]
  | .quoted _, _, [] | .escaped _, _, [] => none
  | .between, _, c :: rest =>
    if separatesWords c then wordsFrom .between [] rest
    else if c == '\\' then wordsFrom (.escaped false) [] rest
    else if c == '\'' || c == '"' then wordsFrom (.quoted c) [] rest
    else wordsFrom .word [c] rest
  | .word, read, c :: rest =>
    if separatesWords c then
      (wordsFrom .between [] rest).map (String.ofList read.reverse :: ·)
    else if c == '\\' then wordsFrom (.escaped false) read rest
    else if c == '\'' || c == '"' then wordsFrom (.quoted c) read rest
    else wordsFrom .word (c :: read) rest
  | .quoted quote, read, c :: rest =>
    if c == quote then wordsFrom .word read rest
    else if quote == '"' && c == '\\' then wordsFrom (.escaped true) read rest
    else wordsFrom (.quoted quote) (c :: read) rest
  | .escaped inQuotes, read, c :: rest =>
    if inQuotes then
      if c == '"' || c == '\\' then wordsFrom (.quoted '"') (c :: read) rest
      else wordsFrom (.quoted '"') (c :: '\\' :: read) rest
    else wordsFrom .word (c :: read) rest

/-- The words of a command line. -/
def shellWords? (line : String) : Option (List String) := wordsFrom .between [] line.toList

end DeviceApi.Text
