import DeviceApi.Fault
import DeviceApi.Json.Writer

/-!
# Shapes without optional keywords

Two schemas are compared for their shape after the keywords that only describe a value, and do
not change its type, have been removed at every depth.
-/

namespace DeviceApi

/-- The keywords that do not count in a comparison of shapes. -/
def optionalKeywords : List String := ["description", "minimum", "maximum", "default"]

/-- Whether a key does not count in a comparison of shapes. -/
def isOptionalKeyword : Scalar → Bool
  | .text s => optionalKeywords.contains s
  | _ => false

/-- What a scalar is read back as from its JSON form. Halves of characters that follow each
other come back as one character. -/
def reread : Scalar → Except Misfit Scalar
  | .text s => .ok (.text (String.ofList (Text.joinHalves s.toList)))
  | .undefined _ => .ok (.real .nan)
  | s => do
    let _ ← Json.keyText s
    return s

namespace Tree

mutual

/-- A tree with text keys and without optional keywords, at every depth. Of keys with equal
texts the last counts. Only a tree that has a JSON form is compared, and it is what is read back
from it. -/
def withoutOptional : Tree → Except Misfit Tree
  | .scalar s => do return .scalar (← reread s)
  | .list items => do return .list (← withoutOptionalItems items)
  | .pair key value => do
    let key ← withoutOptional key
    return .list [key, ← withoutOptional value]
  | .set _ => .error .wrongOperand
  | .enclosing _ => .error .badContent
  | .object entries => do
    let entries := Entries.ofPairs (← withoutOptionalEntries entries)
    return .object (entries.filter fun entry => !isOptionalKeyword entry.1)

/-- The items of a list without optional keywords. -/
def withoutOptionalItems : List Tree → Except Misfit (List Tree)
  | [] => .ok []
  | item :: rest => do
    let first ← withoutOptional item
    return first :: (← withoutOptionalItems rest)

/-- The entries of an object with text keys and values without optional keywords. -/
def withoutOptionalEntries : List (Scalar × Tree) → Except Misfit (List (Scalar × Tree))
  | [] => .ok []
  | (key, value) :: rest => do
    let key ← reread (.text (← Json.keyText key))
    let first ← withoutOptional value
    return (key, first) :: (← withoutOptionalEntries rest)

end

end Tree

end DeviceApi
