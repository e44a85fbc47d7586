import DeviceApi.Document.Edit
import DeviceApi.Text.CharRange
import DeviceApi.Text.Lines
import DeviceApi.Text.Encoding

/-!
# References

A reference is an object with a pointer to another place of the same document. A pointer
begins with `#/`, and its steps are object keys and list indices between slashes. A slash or a
tilde in a key is written with a tilde, and any character may be percent-encoded.
-/

namespace DeviceApi

/-- The key under which a reference holds its pointer. -/
def referenceKey : String := "$ref"

namespace Pointer

/-- Replaces a tilde followed by a given digit. -/
def unescape (digit replacement : Char) : List Char → List Char
  | '~' :: c :: rest =>
    if c = digit then replacement :: unescape digit replacement rest
    else '~' :: unescape digit replacement (c :: rest)
  | c :: rest => c :: unescape digit replacement rest
  | [] => []

/-- The key or index that a step of a pointer stands for: percent encoding is undone first,
then the slash is put back and last the tilde. -/
def decodeStep (cs : List Char) : String :=
  String.ofList (unescape '0' '~' (unescape '1' '/' (Text.percentDecode cs)))

/-- The steps of a pointer into the same document. -/
def steps? (pointer : String) : Option (List String) :=
  match pointer.toList with
  | '#' :: '/' :: rest => some ((Text.splitAtChar '/' rest).map decodeStep)
  | _ => none

/-- The longest numeral that is read as an index. -/
def maxIndexDigits : Nat := 4300

/-- The index that a step stands for, if it is made of digits. Digits that cannot stand in a
numeral are refused. -/
def index? (step : String) : Option (Except Misfit Nat) :=
  let cs := step.toList
  if cs.isEmpty || !cs.all Text.isDigit then none
  else if maxIndexDigits < cs.length then some (.error .badContent)
  else
    match cs.mapM Text.decimalValue? with
    | some digits => some (.ok (digits.foldl (fun n d => 10 * n + d) 0))
    | none => some (.error .badContent)

end Pointer

namespace Store

/-- Whether a value is a reference. -/
def isReference (store : Store) (v : Value) : Bool :=
  match store.entries? v with
  | some entries => entries.has referenceKey
  | none => false

/-- The value one step below another, if there is one. -/
def step (store : Store) (v : Value) (name : String) : Except Misfit (Option Value) :=
  match store.shape v with
  | .list _ items =>
    match Pointer.index? name with
    | none => .ok none
    | some (.ok i) => .ok items[i]?
    | some (.error m) => .error m
  | .object _ entries => .ok (entries.get? name)
  | _ => .ok none

/-- The value that the steps lead to. Every value on the way has to be present. -/
def follow (store : Store) : Value → List String → Except Misfit (Option Value)
  | v, [] => .ok (some v)
  | v, name :: rest =>
    match store.step v name with
    | .error m => .error m
    | .ok none => .ok none
    | .ok (some w) => if store.isNull w then .ok none else store.follow w rest

/-- The value that a pointer into the document `root` leads to. -/
def resolve (store : Store) (root : Value) (pointer : String) : Except Fault Value :=
  match Pointer.steps? pointer with
  | none => .error (Violation.foreignReference pointer)
  | some steps =>
    match store.follow root steps with
    | .ok (some v) => .ok v
    | .ok none => .error (Violation.unresolvable pointer)
    | .error m => .error m

/-- The end of the chain of references that begins with a value. A pointer that comes up a
second time is an error. -/
def chainEnd (store : Store) (root : Value) : (fuel : Nat) → (seen : List String) → Value →
    Except Fault Value
  | 0, _, v => .ok v
  | fuel + 1, seen, v =>
    match store.entries? v with
    | none => .ok v
    | some entries =>
      match entries.get? referenceKey with
      | none => .ok v
      | some pointer =>
        match store.shape pointer with
        | .scalar (.text p) =>
          if seen.contains p then .error (Violation.circular p)
          else
            match store.resolve root p with
            | .ok w => store.chainEnd root fuel (p :: seen) w
            | .error f => .error f
        | .scalar (.octets _) => .error Misfit.wrongOperand
        | .scalar _ => .error Misfit.noSuchOperation
        | _ => .error Misfit.wrongOperand

/-- The value itself, or what it refers to if it is a reference. Every pointer of a chain
stands in a node of its own, so the number of nodes bounds the chain. -/
def dereference (store : Store) (root v : Value) : Except Fault Value :=
  store.chainEnd root (store.cells.size + 2) [] v

end Store

namespace Edit

/-- Whether a value is a reference. -/
def isReference (v : Value) : Edit Bool := return (← get).isReference v

/-- The value that a pointer leads to. Only a text is a pointer. -/
def resolve (root pointer : Value) : Edit Value := do
  let store ← get
  match store.shape pointer with
  | .scalar (.text p) =>
    match store.resolve root p with
    | .ok v => return v
    | .error f => throw f
  | _ => misfit .noSuchOperation

/-- The value itself, or what it refers to if it is a reference. -/
def dereference (root v : Value) : Edit Value := do
  match (← get).dereference root v with
  | .ok w => return w
  | .error f => throw f

end Edit

end DeviceApi
