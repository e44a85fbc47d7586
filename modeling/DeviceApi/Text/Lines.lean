/-!
# Line ends and separators
-/

namespace DeviceApi.Text

/-- A text in which every line ends with a line feed. -/
def unifyLineEnds : List Char → List Char
  | '\r' :: '\n' :: rest => '\n' :: unifyLineEnds rest
  | '\r' :: rest => '\n' :: unifyLineEnds rest
  | c :: rest => c :: unifyLineEnds rest
  | [] => []

/-- The pieces of a text between the occurrences of a separator; there is always one. -/
def splitAtChar (separator : Char) : List Char → List (List Char)
  | [] => [[]]
  | c :: rest =>
    match splitAtChar separator rest with
    | [] => [[c]]
    | piece :: more => if c = separator then [] :: piece :: more else (c :: piece) :: more

/-- The maximal runs of characters with a property. -/
def runs (p : Char → Bool) : List Char → List (List Char)
  | [] => []
  | [c] => if p c then [[c]] else []
  | c :: d :: rest =>
    let more := runs p (d :: rest)
    if p c then
      match p d, more with
      | true, run :: later => (c :: run) :: later
      | _, _ => [c] :: more
    else more

end DeviceApi.Text
