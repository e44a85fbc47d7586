import DeviceApi.Command.Octets
import DeviceApi.Text.LowerCase
import DeviceApi.Text.WordChar

/-!
# Patterns

Regular expressions of the text tools. Of all matches the leftmost counts, and of the
alternatives at one place the one that reaches furthest.
-/

namespace DeviceApi.Command

/-- The named classes of characters. -/
inductive CharClass where
  | lower | upper | alpha | digit | alnum | space | blank | punct | print | graph | cntrl | xdigit
  | word
  deriving DecidableEq, Repr

namespace CharClass

/-- The class with a given name. -/
def ofName? : String → Option CharClass
  | "lower" => some lower
  | "upper" => some upper
  | "alpha" => some alpha
  | "digit" => some digit
  | "alnum" => some alnum
  | "space" => some space
  | "blank" => some blank
  | "punct" => some punct
  | "print" => some print
  | "graph" => some graph
  | "cntrl" => some cntrl
  | "xdigit" => some xdigit
  | _ => none

/-- Whether a character outside of ASCII is a letter. -/
def isFarLetter (c : Char) : Bool := 0x80 ≤ c.toNat && Text.isWordChar c

/-- Whether a character has a lower-case form other than itself. -/
def isCapital (c : Char) : Bool := Text.lower (.singleton c) != .singleton c

/-- Whether a character is in a class. -/
def holds : CharClass → Char → Bool
  | lower, c => c.isLower || (isFarLetter c && !isCapital c)
  | upper, c => c.isUpper || (isFarLetter c && isCapital c)
  | alpha, c => c.isAlpha || isFarLetter c
  | digit, c => c.isDigit
  | alnum, c => c.isAlphanum || isFarLetter c
  | space, c => c == ' ' || ('\t' ≤ c && c ≤ '\r')
  | blank, c => c == ' ' || c == '\t'
  | punct, c => ('!' ≤ c && c ≤ '~' && !c.isAlphanum) || (0xA0 < c.toNat && !isFarLetter c)
  | print, c => ' ' ≤ c && c.toNat ≠ 0x7F
  | graph, c => ' ' < c && c.toNat ≠ 0x7F
  | cntrl, c => c < ' ' || c.toNat == 0x7F
  | xdigit, c => c.isDigit || ('a' ≤ c && c ≤ 'f') || ('A' ≤ c && c ≤ 'F')
  | word, c => c.isAlphanum || c == '_' || isFarLetter c

end CharClass

/-- A part of a set of characters. -/
inductive SetItem where
  | range (first last : Char)
  | named (c : CharClass)
  deriving Repr

/-- A regular expression. -/
inductive Pattern where
  | empty
  | char (c : Char)
  | any
  | set (negated : Bool) (items : List SetItem)
  | lineStart
  | lineEnd
  | textStart
  | textEnd
  | wordStart
  | wordEnd
  | wordEdge (inside : Bool)
  | group (number : Nat) (p : Pattern)
  | back (number : Nat)
  | seq (p q : Pattern)
  | alt (p q : Pattern)
  | rep (least : Nat) (most : Option Nat) (p : Pattern)
  deriving Repr

namespace Pattern

/-- How a pattern is compared with a text. -/
structure Manner where
  ignoreCase : Bool := false
  /-- Whether lines inside of the text have a start and an end of their own. -/
  byLine : Bool := false
  /-- The character between two lines. -/
  delimiter : Char := '\n'
  deriving DecidableEq, Repr

/-- What has been matched so far, and what remains. -/
structure Match where
  /-- The characters in front of the position, the nearest one first. -/
  before : List Char
  rest : List Char
  /-- The texts of the groups, the latest first. -/
  groups : List (Nat × List Char) := []

/-- Whether characters count as the same. -/
def Manner.same (w : Manner) (c d : Char) : Bool :=
  c == d || (w.ignoreCase && Text.lower (.singleton c) == Text.lower (.singleton d))

/-- Whether a character is in a part of a set. -/
def Manner.holds (w : Manner) (c : Char) : SetItem → Bool
  | .range a b =>
    let inside (c : Char) : Bool := a ≤ c && c ≤ b
    inside c || (w.ignoreCase && (inside c.toLower || inside c.toUpper))
  | .named n =>
    n.holds c || (w.ignoreCase && (n = .lower || n = .upper) && CharClass.alpha.holds c)

/-- The position behind a literal text. -/
def Match.literal? (w : Manner) : List Char → Match → Option Match
  | [], m => some m
  | c :: cs, m =>
    match m.rest with
    | d :: rest =>
      if w.same c d then literal? w cs { m with before := d :: m.before, rest } else none
    | [] => none

/-- Whether a position is between a word character and something else, and on which side the
word is. -/
def Match.wordSides (m : Match) : Bool × Bool :=
  (m.before.head?.any CharClass.word.holds, m.rest.head?.any CharClass.word.holds)

/-- Whether a condition on the position holds. -/
def Manner.stands (w : Manner) (m : Match) : Pattern → Bool
  | lineStart => m.before.isEmpty || (w.byLine && m.before.head? == some w.delimiter)
  | lineEnd => m.rest.isEmpty || (w.byLine && m.rest.head? == some w.delimiter)
  | textStart => m.before.isEmpty
  | textEnd => m.rest.isEmpty
  | wordStart => !m.wordSides.1 && m.wordSides.2
  | wordEnd => m.wordSides.1 && !m.wordSides.2
  | wordEdge inside => (m.wordSides.1 == m.wordSides.2) == inside
  | _ => true

/-- Of two matches the one that reaches further, or the first one. -/
def further (a b : Option Match) : Option Match :=
  match a, b with
  | some m, some n => if n.rest.length < m.rest.length then b else a
  | some _, none => a
  | none, b => b

/-- Matches at a position and goes on; as much as possible is repeated first. -/
def matchAt (w : Manner) : (fuel : Nat) → Pattern → Match → (Match → Option Match) → Option Match
  | 0, _, _, _ => none
  | fuel + 1, p, m, next =>
    let one (holds : Char → Bool) : Option Match :=
      match m.rest with
      | c :: rest => if holds c then next { m with before := c :: m.before, rest } else none
      | [] => none
    match p with
    | empty => next m
    | char c => one (w.same c)
    | any => one fun c => !isKeptOctet c
    | set negated items => one fun c => !isKeptOctet c && items.any (w.holds c) != negated
    | group number p =>
      matchAt w fuel p m fun n =>
        let text := (n.before.take (n.before.length - m.before.length)).reverse
        next { n with groups := (number, text) :: n.groups }
    | back number =>
      match m.groups.lookup number with
      | some text => (Match.literal? w text m).bind next
      | none => none
    | seq p q => matchAt w fuel p m fun n => matchAt w fuel q n next
    | alt p q => further (matchAt w fuel p m next) (matchAt w fuel q m next)
    | rep least most p =>
      let again : Option Match :=
        if most == some 0 then none
        else
          matchAt w fuel p m fun n =>
            if least = 0 && n.rest.length == m.rest.length then none
            else matchAt w fuel (rep (least - 1) (most.map (· - 1)) p) n next
      again <|> (if least = 0 then next m else none)
    | condition => if w.stands m condition then next m else none

/-- A bound on the steps that a pattern takes apart from those through the text. -/
def steps : Pattern → Nat
  | group _ p => p.steps + 1
  | seq p q | alt p q => p.steps + q.steps + 1
  | rep least most p => p.steps + least + most.getD 0 + 1
  | _ => 1

/-- The match at a position, if there is one. -/
def matchHere? (p : Pattern) (w : Manner) (m : Match) : Option Match :=
  matchAt w (p.steps + m.rest.length + 2) p { m with groups := [] } some

/-- Whether a pattern matches somewhere behind a position. -/
def occurs (p : Pattern) (w : Manner) (before : List Char) : List Char → Bool
  | [] => (p.matchHere? w { before, rest := [] }).isSome
  | c :: rest =>
    (p.matchHere? w { before, rest := c :: rest }).isSome || occurs p w (c :: before) rest

/-- Whether a pattern is compared octet by octet, so that it may also match inside of a character.
This holds if what it says of a character can be told from a single octet. -/
def isBytewise : Pattern → Bool
  | set negated items => !negated && items.all fun
    | .range a b => a == b && a.toNat < 0x80
    | .named _ => false
  | wordStart | wordEnd | wordEdge _ => false
  | group _ p | rep _ _ p => p.isBytewise
  | seq p q | alt p q => p.isBytewise && q.isBytewise
  | _ => true

/-- The number of groups. -/
def groupCount : Pattern → Nat
  | group _ p => p.groupCount + 1
  | seq p q | alt p q => p.groupCount + q.groupCount
  | rep _ _ p => p.groupCount
  | _ => 0

end Pattern

end DeviceApi.Command
