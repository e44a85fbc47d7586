import DeviceApi.Fault
import DeviceApi.Text.Code

/-!
# Order of values

Texts are ordered by code points, quantities by size and lists by their first difference.
Values of different kinds have no order, and a sort that comes to compare two of them fails.
-/

namespace DeviceApi

namespace Sorting

variable {ε α : Type}

/-- The place of a new item in sorted items, found by halving the range `from` to `to`. -/
def placeOf (less : α → α → Except ε Bool) (x : α) (sorted : Array α) :
    (fuel low high : Nat) → Except ε Nat
  | 0, low, _ => .ok low
  | fuel + 1, low, high =>
    if low < high then
      let middle := low + (high - low) / 2
      match sorted[middle]? with
      | none => .ok low
      | some y => do
        if ← less x y then placeOf less x sorted fuel low middle
        else placeOf less x sorted fuel (middle + 1) high
    else .ok low

/-- Puts items one after the other behind the equal ones among sorted items. -/
def insertAll (less : α → α → Except ε Bool) : Array α → List α → Except ε (Array α)
  | sorted, [] => .ok sorted
  | sorted, x :: rest => do
    let place ← placeOf less x sorted (sorted.size + 1) 0 sorted.size
    insertAll less ((sorted.toList.take place ++ x :: sorted.toList.drop place).toArray) rest

/-- The rest of a run that goes on as it began: rising or strictly falling. -/
def takeRun (less : α → α → Except ε Bool) (falling : Bool) :
    α → List α → Except ε (List α × List α)
  | _, [] => .ok ([], [])
  | last, x :: rest => do
    if (← less x last) == falling then
      let (run, rest) ← takeRun less falling x rest
      return (x :: run, rest)
    else return ([], x :: rest)

/-- Sorts a list. Equal items keep their order. -/
def sort (less : α → α → Except ε Bool) : List α → Except ε (List α)
  | [] => .ok []
  | [x] => .ok [x]
  | x :: y :: rest => do
    let falling ← less y x
    let (run, rest) ← takeRun less falling y rest
    let first := x :: y :: run
    let sorted ← insertAll less (if falling then first.reverse else first).toArray rest
    return sorted.toList

end Sorting

/-- Whether one scalar comes before another. -/
def Scalar.less (a b : Scalar) : Except Misfit Bool :=
  match a, b with
  | .text s, .text t => .ok (Text.less s t)
  | .octets s, .octets t => .ok (decide (s.map UInt8.toNat < t.map UInt8.toNat))
  | .stamp s _, .stamp t _ =>
    match s.less? t with
    | some less => .ok less
    | none => .error .wrongOperand
  | a, b =>
    match a.quantity?, b.quantity? with
    | some p, some q => .ok (p.less q)
    | _, _ => .error .wrongOperand

namespace Tree

mutual

/-- Whether one tree comes before another. A set comes before those that hold its members and
further ones. -/
def less : Tree → Tree → Except Misfit Bool
  | .scalar a, .scalar b => a.less b
  | .list a, .list b => lessItems a b
  | .pair k v, .pair l w => if k.same l then less v w else less k l
  | .set a, .set b => .ok (a.length < b.length && isSubset a b)
  | _, _ => .error .wrongOperand

/-- Whether one list comes before another: the first items that differ decide. -/
def lessItems : List Tree → List Tree → Except Misfit Bool
  | _, [] => .ok false
  | [], _ :: _ => .ok true
  | a :: as, b :: bs => if a.same b then lessItems as bs else less a b

end

end Tree

end DeviceApi
