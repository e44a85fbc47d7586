import DeviceApi.Command.Pattern

/-!
# Wildcards

A pattern of the shell matches a text as a whole. What is quoted in it stands for itself.
-/

namespace DeviceApi.Command.Shell

/-- A part of a pattern. -/
inductive Wildcard where
  | char (c : Char)
  | one
  | many
  | set (negated : Bool) (items : List SetItem)
  deriving Repr

namespace Wildcard

/-- A character with whether it is quoted. -/
abbrev Marked := Char × Bool

/-- The name of a class of characters behind its opening, and what follows it. -/
def className? (cs : List Marked) : Option (CharClass × List Marked) := do
  let name := cs.takeWhile fun c => c.1.isAlpha
  match (cs.drop name.length).take 2 with
  | [(':', _), (']', _)] =>
    let c ← CharClass.ofName? (String.ofList (name.map Prod.fst))
    return (c, cs.drop (name.length + 2))
  | _ => none

/-- The members of a set up to its closing bracket, and what follows it. -/
def setItems : (fuel : Nat) → (first : Bool) → List Marked → Option (List SetItem × List Marked)
  | 0, _, _ => none
  | fuel + 1, first, cs => do
    match cs with
    | [] => none
    | (']', false) :: rest =>
      if first then
        let (items, rest) ← setItems fuel false rest
        return (.range ']' ']' :: items, rest)
      else return ([], rest)
    | ('[', false) :: (':', false) :: rest =>
      match className? rest with
      | some (c, rest) =>
        let (items, rest) ← setItems fuel false rest
        return (.named c :: items, rest)
      | none =>
        let (items, rest) ← setItems fuel false ((':', false) :: rest)
        return (.range '[' '[' :: items, rest)
    | (a, _) :: ('-', false) :: (b, q) :: rest =>
      if b == ']' && !q then
        let (items, rest) ← setItems fuel false (('-', true) :: (b, q) :: rest)
        return (.range a a :: items, rest)
      else
        let (items, rest) ← setItems fuel false rest
        return (.range a b :: items, rest)
    | (a, _) :: rest =>
      let (items, rest) ← setItems fuel false rest
      return (.range a a :: items, rest)

/-- The pattern of a text. -/
def read : (fuel : Nat) → List Marked → List Wildcard
  | 0, _ => []
  | fuel + 1, cs =>
    match cs with
    | [] => []
    | ('*', false) :: rest => many :: read fuel rest
    | ('?', false) :: rest => one :: read fuel rest
    | ('[', false) :: rest =>
      let (negated, inside) := match rest with
        | ('!', false) :: inside | ('^', false) :: inside => (true, inside)
        | _ => (false, rest)
      match setItems (inside.length + 1) true inside with
      | some (items, rest) => set negated items :: read fuel rest
      | none => char '[' :: read fuel rest
    | ('\\', false) :: (c, _) :: rest => char c :: read fuel rest
    | (c, _) :: rest => char c :: read fuel rest

/-- The pattern of a text. -/
def ofText (cs : List Marked) : List Wildcard := read (cs.length + 1) cs

/-- Whether a text has a character that is not quoted and has a meaning in patterns. -/
def occursIn (cs : List Marked) : Bool :=
  (ofText cs).any fun
    | char _ => false
    | _ => true

/-- A text and all its ends, the longest one first. -/
def ends : List Char → List (List Char)
  | [] => [[]]
  | c :: cs => (c :: cs) :: ends cs

/-- Whether a pattern matches a text. -/
def holds : List Wildcard → List Char → Bool
  | [], cs => cs.isEmpty
  | many :: p, cs => (ends cs).any (holds p)
  | one :: p, _ :: cs => holds p cs
  | char d :: p, c :: cs => c == d && holds p cs
  | set negated items :: p, c :: cs =>
    (items.any (({} : Pattern.Manner).holds c)) != negated && holds p cs
  | _, [] => false

/-- A text without a beginning that a pattern matches. -/
def cutStart (longest : Bool) (p : List Wildcard) (cs : List Char) : List Char :=
  let lengths := List.range (cs.length + 1)
  let lengths := if longest then lengths.reverse else lengths
  match lengths.find? fun n => holds p (cs.take n) with
  | some n => cs.drop n
  | none => cs

/-- A text without an end that a pattern matches. -/
def cutEnd (longest : Bool) (p : List Wildcard) (cs : List Char) : List Char :=
  let lengths := List.range (cs.length + 1)
  let lengths := if longest then lengths else lengths.reverse
  match lengths.find? fun n => holds p (cs.drop n) with
  | some n => cs.take n
  | none => cs

end Wildcard

end DeviceApi.Command.Shell
