import DeviceApi.Number.Binary64

/-!
# Scalars

The values of a document without parts. They also serve as the keys of objects, where two
scalars that stand for the same quantity are one key.
-/

namespace DeviceApi

/-- A time of day, with the distance to universal time in minutes if it is known. -/
structure TimeOfDay where
  hour : Nat
  minute : Nat
  second : Nat
  microsecond : Nat
  offset : Option Int
  deriving DecidableEq, Repr

/-- A calendar day, with a time of day if there is one. -/
structure Timestamp where
  year : Nat
  month : Nat
  day : Nat
  time : Option TimeOfDay
  deriving DecidableEq, Repr

namespace Timestamp

/-- Days from the beginning of March of year zero in the proleptic Gregorian calendar. -/
def dayNumber (t : Timestamp) : Int :=
  let year : Int := if t.month ≤ 2 then (t.year : Int) - 1 else t.year
  let monthFromMarch : Int := ((t.month : Int) + 9) % 12
  365 * year + year / 4 - year / 100 + year / 400 + (153 * monthFromMarch + 2) / 5 + t.day

/-- The number of days of a month in the Gregorian calendar. -/
def daysInMonth (year month : Nat) : Nat :=
  if month = 2 then if year % 4 = 0 ∧ (year % 100 ≠ 0 ∨ year % 400 = 0) then 29 else 28
  else if month = 4 ∨ month = 6 ∨ month = 9 ∨ month = 11 then 30 else 31

/-- Whether all components are in range, with an offset of less than a day. -/
def isValid (t : Timestamp) : Bool :=
  1 ≤ t.year && t.year ≤ 9999 && 1 ≤ t.month && t.month ≤ 12 &&
    1 ≤ t.day && t.day ≤ daysInMonth t.year t.month &&
    match t.time with
    | none => true
    | some c =>
      c.hour < 24 && c.minute < 60 && c.second < 60 && c.microsecond < 1000000 &&
        match c.offset with
        | none => true
        | some minutes => minutes.natAbs < 1440

/-- The microseconds up to a time of day, as local time or with the offset taken off. -/
def microseconds (t : Timestamp) (c : TimeOfDay) (offset : Int) : Int :=
  (((t.dayNumber * 24 + c.hour) * 60 + c.minute - offset) * 60 + c.second) * 1000000
    + c.microsecond

/-- The places of two timestamps in time. Days, local times and instants have no common
measure. -/
def measures? (a b : Timestamp) : Option (Int × Int) :=
  match a.time, b.time with
  | none, none => some (a.dayNumber, b.dayNumber)
  | some p, some q =>
    match p.offset, q.offset with
    | none, none => some (a.microseconds p 0, b.microseconds q 0)
    | some x, some y => some (a.microseconds p x, b.microseconds q y)
    | _, _ => none
  | _, _ => none

/-- Whether two timestamps name the same day, the same local time or the same instant. -/
def same (a b : Timestamp) : Bool :=
  match measures? a b with
  | some (p, q) => p == q
  | none => false

/-- Whether one timestamp is before another of its kind. -/
def less? (a b : Timestamp) : Option Bool := (measures? a b).map fun (p, q) => p < q

end Timestamp

/-- A value without parts. A mark tells uses of one value from uses of another that looks the
same. -/
inductive Scalar where
  | null
  | bool (b : Bool)
  | int (i : Int)
  | real (x : Binary64)
  | text (s : String)
  | octets (bytes : List UInt8)
  | stamp (t : Timestamp) (mark : Nat)
  /-- An undefined number of its own; the one that is the same everywhere is a real number. -/
  | undefined (mark : Nat)
  deriving DecidableEq, Repr

namespace Scalar

/-- The quantity that a number or a truth value stands for. -/
def quantity? : Scalar → Option Quantity
  | .bool b => some (.ofBool b)
  | .int i => some (.ofInt i)
  | .real x => some (.ofBinary64 x)
  | .undefined _ => some .undefined
  | _ => none

/-- Equality of scalars as values: quantities are compared exactly, everything else by kind
and content. -/
def same : Scalar → Scalar → Bool
  | .null, .null => true
  | .text a, .text b => a == b
  | .octets a, .octets b => a == b
  | .stamp a _, .stamp b _ => a.same b
  | a, b =>
    match a.quantity?, b.quantity? with
    | some p, some q => p.equal q
    | _, _ => false

/-- Equality of scalars as keys and inside of lists. Unlike by itself, an undefined number
equals itself there. -/
def sameKey (a b : Scalar) : Bool :=
  match a, b with
  | .real .nan, .real .nan => true
  | .undefined m, .undefined n => m == n
  | a, b => a.same b

/-- Whether a scalar counts as present: null, false, zero and what is empty do not. -/
def isTruthy : Scalar → Bool
  | .null => false
  | .bool b => b
  | .int i => i ≠ 0
  | .real x => !x.isZero
  | .text s => s ≠ ""
  | .octets bytes => !bytes.isEmpty
  | .stamp .. | .undefined _ => true

end Scalar

instance : Coe String Scalar := ⟨.text⟩

end DeviceApi
