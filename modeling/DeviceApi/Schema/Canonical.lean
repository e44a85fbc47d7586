import DeviceApi.Api.Reference

/-!
# Canonical schemas

A schema in canonical form does not restate what holds anyway: the empty text, false or zero as
a default, or the bounds of an integer format as minimum and maximum. An integer always states
its format. References are left alone; what they point to has a place of its own.
-/

namespace DeviceApi

/-- The format of an integer that states none. -/
def defaultIntegerFormat : String := "int32"

/-- The least and the greatest integer of a format. -/
def integerBounds? : Scalar → Option (Int × Int)
  | .text "int32" => some (-2147483648, 2147483647)
  | .text "uint32" => some (0, 4294967295)
  | _ => none

/-- Whether a scalar is a zero that restates the default of a number. A truth value does not. -/
def Scalar.isZeroNumber : Scalar → Bool
  | .int i => i == 0
  | .real x => x.isZero
  | _ => false

/-- Whether a scalar stands for an integer, whatever its format. -/
def Scalar.isInteger (s : Scalar) (i : Int) : Bool :=
  match s.quantity? with
  | some q => q.equal (.ofInt i)
  | none => false

namespace Entries

variable {α : Type}

/-- The entries without a key whose value is a scalar with a property. -/
def dropIf (scalar? : α → Option Scalar) (key : Scalar) (p : Scalar → Bool)
    (entries : Entries α) : Entries α :=
  match (entries.get? key).bind scalar? with
  | some s => if p s then entries.remove key else entries
  | none => entries

/-- The entries of an integer with its format stated and without the bounds of the format. -/
def canonicalInteger (scalar? : α → Option Scalar) (ofText : String → α)
    (entries : Entries α) : Except Misfit (Entries α) :=
  match entries.get? "format" with
  | none =>
    .ok (dropBounds scalar? defaultIntegerFormat
      (entries.put "format" (ofText defaultIntegerFormat)))
  | some format =>
    match scalar? format with
    | none => .error .wrongOperand
    | some s => .ok (dropBounds scalar? s entries)
where
  /-- The entries without the bounds of a format. -/
  dropBounds (scalar? : α → Option Scalar) (format : Scalar) (entries : Entries α) :
      Entries α :=
    match integerBounds? format with
    | none => entries
    | some (low, high) =>
      (entries.dropIf scalar? "minimum" fun s => s.isInteger low).dropIf scalar? "maximum"
        fun s => s.isInteger high

/-- The entries of a schema of a given type in canonical form. -/
def canonicalOfType (scalar? : α → Option Scalar) (ofText : String → α) (type : Scalar)
    (entries : Entries α) : Except Misfit (Entries α) :=
  match type with
  | .text "string" => .ok (entries.dropIf scalar? "default" fun s => s == .text "")
  | .text "boolean" => .ok (entries.dropIf scalar? "default" fun s => s == .bool false)
  | .text "number" => .ok (entries.dropIf scalar? "default" Scalar.isZeroNumber)
  | .text "integer" => do
    let entries ← entries.canonicalInteger scalar? ofText
    return entries.dropIf scalar? "default" Scalar.isZeroNumber
  | _ => .ok entries

end Entries

namespace Edit

/-- Brings a schema and the schemas below it into canonical form, down to a depth. -/
def canonicalizeWithin : (depth : Nat) → Value → Edit Unit
  | 0, _ => misfit .endless
  | depth + 1, schema => do
    if ← isReference schema then return
    let (id, entries) ← objectOf schema
    let store ← get
    let type := ((entries.get? "type").bind store.scalar?).getD .null
    let canonical ← ofExcept (entries.canonicalOfType store.scalar? .text type)
    set (store.set id (.object canonical))
    match type with
    | .text "array" =>
      let items := (entries.get? "items").getD .null
      if (store.entries? items).isSome then canonicalizeWithin depth items
    | .text "object" =>
      let properties := (entries.get? "properties").getD .null
      if ← isTruthy properties then
        foldEntries properties () fun _ _ property => canonicalizeWithin depth property
    | _ => return

/-- Brings a schema and the schemas below it into canonical form. -/
def canonicalize (schema : Value) : Edit Unit := do
  canonicalizeWithin ((← get).cells.size + 1) schema

end Edit

end DeviceApi
