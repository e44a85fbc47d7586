import DeviceApi.Command.Shell.Wildcard

/-!
# Fields

What comes of a word is split into fields at separators. Only what has been put in place of a
part of the word is split, and only if that part was not quoted.
-/

namespace DeviceApi.Command.Shell

/-- What comes of a word, piece by piece. -/
inductive Element where
  | char (c : Char) (quoted splits : Bool)
  /-- The place between two fields. -/
  | gap
  /-- Something that makes a field even if it is empty. -/
  | presence
  deriving DecidableEq, Repr

namespace Element

/-- The elements of a text. -/
def ofText (quoted splits : Bool) (cs : List Char) : List Element :=
  cs.map fun c => .char c quoted splits

/-- The elements of texts with a gap between each two of them. -/
def ofTexts (quoted splits : Bool) : List String → List Element
  | [] => []
  | s :: more =>
    (if quoted then [.presence] else []) ++ ofText quoted splits s.toList ++
      (if more.isEmpty then [] else .gap :: ofTexts quoted splits more)

/-- The characters of elements with whether they are quoted. -/
def marked (separator : List Char) (es : List Element) : List Wildcard.Marked :=
  es.flatMap fun
    | .char c quoted _ => [(c, quoted)]
    | .gap => separator.map fun c => (c, true)
    | .presence => []

/-- The text of elements. -/
def text (es : List Element) : String := String.ofList ((marked [' '] es).map Prod.fst)

end Element

/-- Fields while they are put together. -/
structure Fields where
  /-- The complete fields, the last one first. -/
  done : List (List Wildcard.Marked) := []
  /-- The present field from its end, if it has begun. -/
  current : Option (List Wildcard.Marked) := none
  /-- Whether blanks have ended the last field, so that a separator may still follow. -/
  afterBlanks : Bool := false

namespace Fields

/-- Completes the present field, if it has begun. -/
def close (f : Fields) (afterBlanks : Bool) : Fields :=
  match f.current with
  | some cs => { done := cs.reverse :: f.done, afterBlanks }
  | none => f

/-- Adds an element, given the separators. -/
def add (separators : List Char) (f : Fields) : Element → Fields
  | .gap => { (f.close false) with afterBlanks := false }
  | .presence => { f with current := some (f.current.getD []), afterBlanks := false }
  | .char c quoted splits =>
    if splits && !quoted && separators.contains c then
      if c == ' ' || c == '\t' || c == '\n' then f.close true
      else
        match f.current with
        | some _ => f.close false
        | none =>
          if f.afterBlanks then { f with afterBlanks := false } else { f with done := [] :: f.done }
    else { f with current := some ((c, quoted) :: f.current.getD []), afterBlanks := false }

/-- The fields of elements. -/
def ofElements (separators : List Char) (es : List Element) : List (List Wildcard.Marked) :=
  ((es.foldl (add separators) {}).close false).done.reverse

/-- The texts for a number of names that elements are shared out to. The last name gets all that
is left. -/
def share (separators : List Char) : (names : Nat) → List Element → List String
  | 0, _ => []
  | 1, es =>
    let isBlank : Element → Bool
      | .char c false _ => separators.contains c && (c == ' ' || c == '\t' || c == '\n')
      | _ => false
    let es := ((es.dropWhile isBlank).reverse.dropWhile isBlank).reverse
    let ends : Element → Bool
      | .char c false _ => separators.contains c
      | _ => false
    match es.filter ends, es.getLast? with
    | [_], some last => [Element.text (if ends last then es.dropLast else es)]
    | _, _ => [Element.text es]
  | names + 1, es =>
    let isBlank : Element → Bool
      | .char c false _ => separators.contains c && (c == ' ' || c == '\t' || c == '\n')
      | _ => false
    let ends : Element → Bool
      | .char c false _ => separators.contains c
      | _ => false
    let es := es.dropWhile isBlank
    let here := es.takeWhile fun e => !ends e
    let rest := (es.drop here.length).dropWhile isBlank
    let rest := match es[here.length]?, rest with
      | some e, rest =>
        if isBlank e then
          match rest with
          | f :: more => if ends f then more.dropWhile isBlank else rest
          | [] => []
        else (rest.drop 1).dropWhile isBlank
      | none, rest => rest
    Element.text here :: share separators names rest

end Fields

end DeviceApi.Command.Shell
