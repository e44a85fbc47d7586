import DeviceApi.Text.Lines

/-!
# Case of identifiers

Identifiers are made of words of ASCII letters and digits; everything else separates words.
-/

namespace DeviceApi.Text

/-- The words of a text. -/
def words (cs : List Char) : List (List Char) := runs Char.isAlphanum cs

/-- A word with a capital first letter. -/
def capitalize : List Char → List Char
  | [] => []
  | c :: rest => c.toUpper :: rest

/-- The words of a text with capital first letters, put together. -/
def toPascalCase (text : String) : String :=
  String.ofList ((words text.toList).flatMap capitalize)

/-- Marks the end of an acronym: a capital between a capital and a small letter begins a word.
The first argument says whether a capital stands in front. -/
def splitAcronyms (afterCapital : Bool) : List Char → List Char
  | c :: d :: rest =>
    let more := splitAcronyms c.isUpper (d :: rest)
    if afterCapital && c.isUpper && d.isLower then '_' :: c :: more else c :: more
  | [c] => [c]
  | [] => []

/-- Marks each capital behind a small letter or a digit as the beginning of a word. -/
def splitCamel : List Char → List Char
  | c :: d :: rest =>
    let more := splitCamel (d :: rest)
    if (c.isLower || c.isDigit) && d.isUpper then c :: '_' :: more else c :: more
  | [c] => [c]
  | [] => []

/-- The words of a text in small letters, joined by underscores. A word also begins at a
capital behind a small letter or a digit and at the last capital of an acronym. -/
def toSnakeCase (text : String) : String :=
  let marked := splitCamel (splitAcronyms false text.toList)
  "_".intercalate ((words marked).map fun word => String.ofList (word.map Char.toLower))

end DeviceApi.Text
