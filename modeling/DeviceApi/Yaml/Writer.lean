import DeviceApi.Document.Display
import DeviceApi.Document.Store
import DeviceApi.Text.Encoding
import DeviceApi.Yaml.Layout

/-!
# Writing YAML

Lists and objects are written as blocks. What has parts or is a timestamp is written once, even
if it is used at several places: it gets an anchor, and the other places refer to the anchor.
Anchors are numbered in the order in which the second uses are met.
-/

namespace DeviceApi.Yaml

/-- What a value consists of as it is written: a scalar, or parts in one of two forms. -/
inductive Form where
  | scalar (s : Scalar)
  | sequence (items : List Value)
  | mapping (tag : Option String) (entries : Entries Value)

namespace Form

/-- The tag of sets. They are written as objects without values. -/
def setTag : String := "!!set"

/-- The form of a value. -/
def ofValue (store : Store) (v : Value) : Form :=
  match store.shape v with
  | .scalar s => .scalar s
  | .list _ items => .sequence items
  | .pair key value => .sequence [key, value]
  | .set members => .mapping (some setTag) (members.map fun m => (m, .null))
  | .object _ entries => .mapping none entries

/-- The values that a value consists of in the order in which they are written. -/
def parts : Form → List Value
  | .scalar _ => []
  | .sequence items => items
  | .mapping _ entries => entries.flatMap fun (key, value) => [.scalar key, value]

end Form

/-- The place of a value among those that are written once: behind the cells come the marks of
timestamps. -/
def placeOf? (store : Store) : Value → Option Nat
  | .node id => some id
  | .scalar (.stamp _ mark) => some (store.cells.size + mark)
  | .scalar _ => none

/-- How many places there are. -/
def placeCount (store : Store) : Nat := store.cells.size + store.marks

/-- Which values have been met, and the numbers of the anchors of those met again. -/
structure Uses where
  met : Array Bool
  anchors : Array (Option Nat)
  count : Nat := 0

namespace Uses

/-- The greatest number of values that stand in each other. -/
def maxDepth : Nat := 327

/-- Records a second use at a place. -/
def again (uses : Uses) (place : Nat) : Uses :=
  if ((uses.anchors[place]?).join).isSome then uses
  else
    { uses with
      anchors := uses.anchors.setIfInBounds place (some (uses.count + 1))
      count := uses.count + 1 }

/-- Records the uses of values in a value. All scalars in it must have a text, and its parts
must not lie deeper than a bound. -/
def visit (store : Store) : (depth : Nat) → Uses → Value → Except Misfit Uses
  | 0, _, _ => .error .endless
  | depth + 1, uses, v =>
    let content (uses : Uses) : Except Misfit Uses :=
      match Form.ofValue store v with
      | .scalar s => if s.hasText then .ok uses else .error .badContent
      | form => form.parts.foldlM (visit store depth) uses
    match placeOf? store v with
    | none => content uses
    | some place =>
      if uses.met.getD place true then .ok (uses.again place)
      else content { uses with met := uses.met.setIfInBounds place true }

/-- The uses of values in a value. -/
def ofValue (store : Store) (v : Value) : Except Misfit Uses :=
  let count := placeCount store
  visit store maxDepth
    { met := Array.replicate count false, anchors := Array.replicate count none } v

/-- The name of the anchor at a place that is used again. -/
def anchor? (uses : Uses) (place : Nat) : Option String :=
  ((uses.anchors[place]?).join).map fun n => "id" ++ paddedNat 3 n

end Uses

/-- The tag of a scalar and its text. -/
def scalarText : Scalar → Tag × String
  | .null => (.null, "null")
  | .bool b => (.bool, if b then "true" else "false")
  | .int i => (.int, toString i)
  | .real x => (.real, yamlReal.text x)
  | .text s => (.text, s)
  | .octets bytes => (.octets, String.ofList (Text.Base64.lines bytes))
  | .stamp t _ => (.stamp, t.text)
  | .undefined _ => (.real, yamlReal.text .nan)

/-- The tag of octets, which is always written. -/
def octetsTag : String := "!!binary"

/-- The number of characters in the short form of a tag of a scalar. -/
def Tag.shortLength : Tag → Nat
  | .null | .bool => "!!null".length
  | .real => "!!float".length
  | .stamp => "!!timestamp".length
  | .octets => octetsTag.length
  | _ => "!!int".length

/-- The number of characters below which a key is written without an indicator. -/
def maxSimpleKey : Nat := 128

/-- Whether a key is written without an indicator. -/
def isSimpleKey (key : Scalar) : Bool :=
  let (tag, text) := scalarText key
  tag.shortLength + text.length < maxSimpleKey && !text.isEmpty &&
    !ScalarStyle.isMultiline text.toList

/-- A text that is being written, with the places that are written already. -/
structure Sheet where
  layout : Layout := {}
  written : Array Bool

namespace Sheet

/-- Changes the text. -/
def lay (s : Sheet) (f : Layout → Layout) : Sheet := { s with layout := f s.layout }

/-- Writes a word that is no part of a scalar. -/
def word (s : Sheet) (text : String) : Sheet :=
  s.lay fun l => l.indicator text true false false

/-- Writes a scalar in a block that is indented to a column. -/
def scalar (s : Sheet) (indent : Nat) (folds : Bool) (x : Scalar) : Sheet :=
  let (tag, text) := scalarText x
  let s := if tag == .octets then s.word octetsTag else s
  s.lay fun l => l.scalar (indent + 2) folds tag text

/-- Writes the anchor of a value, or the reference to it if the value is written already. -/
def anchored (store : Store) (uses : Uses) (s : Sheet) (v : Value) (content : Sheet → Sheet) :
    Sheet :=
  match placeOf? store v with
  | none => content s
  | some place =>
    match uses.anchor? place with
    | none => content s
    | some name =>
      if s.written.getD place false then s.word ("*" ++ name)
      else content ({ s with written := s.written.setIfInBounds place true }.word ("&" ++ name))

/-- Writes a key with the colon behind it. -/
def key (store : Store) (uses : Uses) (s : Sheet) (indent : Nat) (x : Scalar) : Sheet :=
  let s := s.lay fun l => l.toIndent indent
  let content (folds : Bool) (s : Sheet) : Sheet :=
    anchored store uses s (.scalar x) fun s => s.scalar indent folds x
  if isSimpleKey x then (content false s).lay fun l => l.indicator ":" false false false
  else
    let s := s.lay fun l => l.indicator "?" true false true
    (content true s).lay fun l => (l.toIndent indent).indicator ":" true false true

/-- Writes a value in a block that is indented to a column, or outside of all blocks. A list
that is the value of a key is not indented if something stands in front of it in the line. -/
def value (store : Store) (uses : Uses) (indent : Option Nat) (underKey : Bool) :
    (depth : Nat) → Sheet → Value → Sheet
  | 0, s, _ => s
  | depth + 1, s, v =>
    anchored store uses s v fun s =>
      let inner := match indent with
        | some column => column + 2
        | none => 0
      match Form.ofValue store v with
      | .scalar x => s.scalar (indent.getD 0) true x
      | .sequence [] =>
        s.lay fun l => (l.indicator "[" true true false).indicator "]" false false false
      | .sequence items =>
        let column := if underKey && !s.layout.atIndent then indent.getD 0 else inner
        items.foldl
          (fun s item =>
            let s := s.lay fun l => (l.toIndent column).indicator "-" true false true
            value store uses (some column) false depth s item) s
      | .mapping tag entries =>
        let s := match tag with
          | some tag => s.word tag
          | none => s
        if entries.isEmpty then
          s.lay fun l => (l.indicator "\x7b" true true false).indicator "\x7d" false false false
        else
          entries.foldl
            (fun s (k, item) =>
              value store uses (some inner) true depth (key store uses s inner k) item) s

end Sheet

/-- The text of a document. -/
def write (store : Store) (v : Value) : Except Misfit String := do
  let uses ← Uses.ofValue store v
  let s := Sheet.value store uses none false (Uses.maxDepth + 1)
    { written := Array.replicate (placeCount store) false } v
  return (s.layout.toIndent 0).text

end DeviceApi.Yaml
