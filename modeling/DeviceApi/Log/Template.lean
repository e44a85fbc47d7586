import DeviceApi.Document.Display
import DeviceApi.Fault
import DeviceApi.Text.Directive

/-!
# Message templates

A percent sign in a template takes the place of the next argument, or of the one that is named
in parentheses behind it. Between the sign and the letter of the kind of text stand flags, a
least width and a precision.
-/

namespace DeviceApi.Log

/-- A text in which every character outside of ASCII is written as an escape. -/
def asciiText (s : String) : String :=
  String.ofList (s.toList.flatMap fun c =>
    let n := Text.codeOf c
    if n < 0x80 then [c]
    else if n ≤ 0xFF then '\\' :: 'x' :: Text.hexDigits 2 n
    else if n ≤ 0xFFFF then '\\' :: 'u' :: Text.hexDigits 4 n
    else '\\' :: 'U' :: Text.hexDigits 8 n)

/-- The integer next to a finite number, given how to divide. -/
def integerBy (divide : Int → Int → Int) : Binary64 → Except Misfit Int
  | .finite negative mantissa exponent =>
    let (num, den) := Binary64.ratio negative mantissa exponent
    .ok (divide num den)
  | .infinity _ => .error .tooLarge
  | .nan => .error .badContent

/-- The integer part of a number towards zero. -/
def truncated (x : Binary64) : Except Misfit Int := integerBy Int.tdiv x

/-- The greatest integer that is not greater than a number. -/
def wholeSeconds (x : Binary64) : Except Misfit Int := integerBy Int.fdiv x

/-- The number nearest to an integer, which must not be infinite. -/
def realOf (i : Int) : Except Misfit Binary64 :=
  match Binary64.ofInt i with
  | .infinity _ => .error .tooLarge
  | x => .ok x

/-- An argument shown as a kind of text. -/
def shown (d : Directive) (kind : Char) (arg : Tree) : Except Misfit (List Char) := do
  let whole : Except Misfit Int :=
    match arg with
    | .scalar (.int i) => .ok i
    | .scalar (.bool b) => .ok (if b then 1 else 0)
    | _ => .error .wrongOperand
  match kind with
  | 's' => return d.text arg.display
  | 'r' => return d.text arg.displayInside
  | 'a' => return d.text (asciiText arg.displayInside)
  | 'd' | 'i' | 'u' =>
    match arg with
    | .scalar (.real x) => return d.integer 10 false (← truncated x)
    | _ => return d.integer 10 false (← whole)
  | 'o' => return d.integer 8 false (← whole)
  | 'x' => return d.integer 16 false (← whole)
  | 'X' => return d.integer 16 true (← whole)
  | 'c' =>
    match arg with
    | .scalar (.text s) =>
      if s.length = 1 then return d.padText s.toList else throw .wrongOperand
    | _ =>
      let i ← whole
      if 0 ≤ i ∧ i ≤ Text.maxCode then return d.padText [Text.charOfCode i.toNat]
      else throw .tooLarge
  | 'f' | 'F' | 'e' | 'E' | 'g' | 'G' =>
    match arg with
    | .scalar (.real x) => return d.real kind x
    | _ => return d.real kind (← realOf (← whole))
  | _ => throw .badContent

/-- What the directives of a template take their values from. -/
structure Supply where
  /-- The values that are still to be used. -/
  waiting : List Tree
  /-- The values that may be named, if the only argument is an object. -/
  named : Option (Entries Tree) := none

namespace Supply

/-- The supply of arguments. An object that is the only argument names values, and is the value
of a directive without a name. -/
def ofArguments : List Tree → Supply
  | [.object (entry :: entries)] =>
    { waiting := [.object (entry :: entries)], named := some (entry :: entries) }
  | args => { waiting := args }

/-- The next value. -/
def next (s : Supply) : Except Misfit (Tree × Supply) :=
  match s.waiting with
  | [] => .error .wrongOperand
  | arg :: waiting => .ok (arg, { s with waiting })

/-- The supply whose next value is the one with a name. -/
def choose (s : Supply) (name : String) : Except Misfit Supply :=
  match s.named with
  | none => .error .wrongOperand
  | some entries =>
    match entries.get? name with
    | some value => .ok { s with waiting := [value] }
    | none => .error .missingEntry

/-- Whether nothing is left over. Values that are never named do not count. -/
def isSpent (s : Supply) : Bool := s.named.isSome || s.waiting.isEmpty

end Supply

/-- A name up to the parenthesis that closes it, given how many are open, and what follows. -/
def nameWithin : (depth : Nat) → List Char → Option (List Char × List Char)
  | _, [] => none
  | depth, c :: rest =>
    if c == ')' then
      if depth ≤ 1 then some ([], rest)
      else (nameWithin (depth - 1) rest).map fun (name, rest) => (c :: name, rest)
    else
      (nameWithin (if c == '(' then depth + 1 else depth) rest).map fun (name, rest) =>
        (c :: name, rest)

/-- The greatest width that may be stated. -/
def maxWidth : Nat := Nat.pow 2 63 - 1

/-- The greatest precision that may be stated. -/
def maxPrecision : Nat := Nat.pow 2 31 - 1

/-- A number written in a directive, or taken from the arguments in place of a star, given the
greatest one. -/
def sizeOf (most : Nat) (cs : List Char) (supply : Supply) :
    Except Misfit (Option Int × List Char × Supply) := do
  match cs with
  | '*' :: rest =>
    let (arg, supply) ← supply.next
    let i : Int ← match arg with
      | .scalar (.int i) => pure i
      | .scalar (.bool b) => pure (if b then 1 else 0)
      | _ => throw .wrongOperand
    if -(most : Int) - 1 ≤ i ∧ i ≤ most then return (some i, rest, supply) else throw .tooLarge
  | _ =>
    let digits := cs.takeWhile Char.isDigit
    let n := digits.foldl (fun n c => 10 * n + (c.toNat - '0'.toNat)) 0
    if most < n then throw .badContent
    return (if digits.isEmpty then none else some n, cs.dropWhile Char.isDigit, supply)

/-- The precision behind a point, if there is one. -/
def precisionOf (d : Directive) (cs : List Char) (supply : Supply) :
    Except Misfit (Directive × List Char × Supply) :=
  match cs with
  | '.' :: rest => do
    let (precision, cs, supply) ← sizeOf maxPrecision rest supply
    return ({ d with precision := some (precision.getD 0).toNat }, cs, supply)
  | _ => .ok (d, cs, supply)

/-- A directive behind its percent sign, and what remains of the template and of the
arguments. -/
def directive (cs : List Char) (supply : Supply) :
    Except Misfit (List Char × List Char × Supply) := do
  let (cs, supply) ← match cs with
    | '(' :: rest =>
      if supply.named.isNone then throw .wrongOperand
      match nameWithin 1 rest with
      | none => throw .badContent
      | some (name, rest) => pure (rest, ← supply.choose (String.ofList name))
    | _ => pure (cs, supply)
  let (d, cs) := ({} : Directive).withFlags cs
  let (width, cs, supply) ← sizeOf maxWidth cs supply
  let d := match width with
    | some w => { d with width := w.natAbs, left := d.left || decide (w < 0) }
    | none => d
  let (d, cs, supply) ← precisionOf d cs supply
  let cs := match cs with
    | c :: rest => if c == 'h' || c == 'l' || c == 'L' then rest else c :: rest
    | [] => []
  match cs with
  | [] => throw .badContent
  | kind :: rest =>
    let (arg, supply) ← supply.next
    return (← shown d kind arg, rest, supply)

/-- The text of a template with its arguments, all of which have to be used. Two percent signs
stand for one. -/
def fillFrom : (fuel : Nat) → List Char → Supply → Except Misfit (List Char)
  | 0, _, _ => .error .endless
  | fuel + 1, cs, supply => do
    let literal := cs.takeWhile (· != '%')
    match cs.dropWhile (· != '%') with
    | [] => if supply.isSpent then return literal else throw .wrongOperand
    | _ :: '%' :: rest => return literal ++ '%' :: (← fillFrom fuel rest supply)
    | _ :: rest =>
      let (text, rest, supply) ← directive rest supply
      return literal ++ text ++ (← fillFrom fuel rest supply)

/-- A message made of a template and its arguments. Without arguments the template is the
message. -/
def message (template : String) (args : List Tree) : Except Misfit String :=
  if args.isEmpty then .ok template
  else
    (fillFrom (template.length + 1) template.toList (.ofArguments args)).map String.ofList

end DeviceApi.Log
