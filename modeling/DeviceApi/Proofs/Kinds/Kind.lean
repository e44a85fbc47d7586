import DeviceApi.Proofs.Api.Plain
import DeviceApi.Proofs.Api.Writes
import DeviceApi.Proofs.Document.Places

/-!
# Kinds of nodes

What a node of a document is there for follows from its place. The kinds of nodes are like the types of a
grammar: they say of what kinds the nodes may be that stand under the keys of a node, and in a list.
-/

namespace DeviceApi

/-- What a node is there for. -/
inductive Kind where
  | root | paths | path | operation | parameters | responses
  | components | group | table
  /-- A parameter, a body or a response, or whatever else is an entry of a group of the components. -/
  | described
  | contents | media | schema | properties
  /-- The property that is made from a parameter. -/
  | property
  /-- A copy that is made of a response for a comparison, or something in it. -/
  | copy
  /-- What says nothing about a type. -/
  | plain
  /-- What belongs to a catalogue. -/
  | loose
  deriving DecidableEq

namespace Kind

/-- The kinds of the nodes of a document. -/
def all : List Kind :=
  [root, paths, path, operation, parameters, responses, components, group, table, described, contents,
    media, schema, properties, property, copy, plain]

/-- The kinds that may stand in a list of this kind. -/
def items : Kind → List Kind
  | parameters => [described]
  | copy => all
  | loose => [loose]
  | _ => [plain]

/-- The keys of their own that nodes of this kind have, with the kinds that may stand under them. The first
kind is the one that a declaration has there. -/
def fields : Kind → List (String × List Kind)
  | root => [("components", [components]), ("paths", [paths])]
  | components => [("schemas", [table])]
  | path => ("parameters", [parameters]) :: Method.all.map fun method => (method.text, [operation])
  | operation =>
    [("parameters", [parameters]), ("requestBody", [described]), ("responses", [responses])] ++
      Role.all.map fun role => (role.operationKey, [schema, plain])
  | described =>
    [("schema", [schema]), ("content", [contents]), ("properties", [properties]), ("items", [schema])]
  | media => [("schema", [schema, plain])]
  | schema | property => [("properties", [properties, plain]), ("items", [schema, plain])]
  | _ => []

/-- The kinds that may stand under any other key of a node of this kind. -/
def others : Kind → List Kind
  | paths => [path]
  | components => [group]
  | group | responses => [described]
  | table => [schema, plain]
  | contents => [media]
  | properties => [schema, property, plain]
  | copy => all
  | loose => [loose]
  | _ => [plain]

/-- The kinds that may stand at a place of a node of this kind. -/
def below (kind : Kind) : Option Scalar → List Kind
  | none => kind.items
  | some (.text name) => (kind.fields.lookup name).getD kind.others
  | some _ => kind.others

theorem below_mem (kind : Kind) (key : Option Scalar) :
    kind.below key ∈ kind.items :: kind.others :: kind.fields.map Prod.snd := by
  unfold below
  split
  · exact List.mem_cons_self
  · next name =>
    refine List.mem_cons_of_mem _ ?_
    cases hfield : kind.fields.lookup name with
    | none => exact List.mem_cons_self
    | some ks =>
      obtain ⟨before, after, heq, -⟩ := List.lookup_eq_some_iff.mp hfield
      rw [heq]
      simp
  · exact List.mem_cons_of_mem _ List.mem_cons_self

/-- What may stand anywhere in a node may stand at one of its places. -/
theorem below_subset {kind : Kind} {ks : List Kind}
    (h : ∀ ks' ∈ kind.items :: kind.others :: kind.fields.map Prod.snd, ks' ⊆ ks) (key : Option Scalar) :
    kind.below key ⊆ ks :=
  h _ (kind.below_mem key)

/-- What may stand in a node of a document belongs to the document. -/
theorem loose_notMem_below {kind : Kind} (hne : kind ≠ loose) (key : Option Scalar) : loose ∉ kind.below key := by
  have hall : ∀ ks ∈ kind.items :: kind.others :: kind.fields.map Prod.snd, loose ∉ ks := by
    cases kind with
    | loose => exact absurd rfl hne
    | _ => decide
  exact hall _ (kind.below_mem key)

@[simp] theorem below_plain (key : Option Scalar) : plain.below key = [plain] := by
  unfold below
  split <;> rfl

@[simp] theorem below_loose (key : Option Scalar) : loose.below key = [loose] := by
  unfold below
  split <;> rfl

@[simp] theorem below_properties (key : Scalar) : properties.below (some key) = [schema, property, plain] := by
  cases key <;> rfl

/-- A key that is none of its own has no place of its own in a node. -/
theorem below_of_forall_ne {kind : Kind} {key : Scalar} (h : ∀ field ∈ kind.fields, key ≠ .text field.1) :
    kind.below (some key) = kind.others := by
  cases key with
  | text name =>
    have hnone : kind.fields.lookup name = none :=
      List.lookup_eq_none_iff.mpr fun field hfield => by simpa using h field hfield
    rw [below, hnone, Option.getD_none]
  | _ => rfl

/-- Whether the description of such a node may be another text. -/
def isDescribed : Kind → Bool
  | described | schema | property | copy => true
  | _ => false

/-- Whether such a node has a description or none whatever the text of one is. A property has the description
of its parameter only if that is no empty text. -/
def isSteady : Kind → Bool
  | property | copy => false
  | _ => true

theorem isSteady_of_isDescribed {kind : Kind} (h : kind.isDescribed = false) : kind.isSteady = true := by
  cases kind <;> simp_all [isDescribed, isSteady]

/-- Whether the keys of such a node are texts. The name of a property may be another scalar, and so may the
keys of a property that is made from pairs. -/
def isTextKeyed : Kind → Bool
  | properties | property | loose => false
  | _ => true

/-- Whether a chain of references may pass through such a node. -/
def mayRefer : Kind → Bool
  | described | schema | plain => true
  | _ => false

end Kind

/-- Whether a scalar is one of those that JSON text denotes. -/
def Scalar.isJson : Scalar → Bool
  | .octets _ | .stamp .. | .undefined _ => false
  | _ => true

variable {kinds kinds' ks ks' : List Kind} {k : Kind} {i : Nat} {v w : Value}
  {entries entries' : Entries Value} {name p : String}

/-- The value is a node of one of the kinds, or a scalar of JSON. -/
def Value.IsOf (kinds : List Kind) (ks : List Kind) : Value → Prop
  | .scalar a => a.isJson = true ∨ .loose ∈ ks
  | .node i => ∃ k ∈ ks, kinds[i]? = some k

/-- A node keeps its kind when others are added. -/
theorem kind_of_grown (h : kinds <+: kinds') (hi : kinds[i]? = some k) : kinds'[i]? = some k := by
  obtain ⟨added, rfl⟩ := h
  rwa [List.getElem?_append_left (List.getElem?_eq_some_iff.mp hi).1]

namespace Value

theorem IsOf.mono (h : v.IsOf kinds ks) (hgrown : kinds <+: kinds') : v.IsOf kinds' ks := by
  cases v with
  | scalar a => exact h
  | node i =>
    obtain ⟨k, hk, hi⟩ := h
    exact ⟨k, hk, kind_of_grown hgrown hi⟩

theorem IsOf.of_subset (h : v.IsOf kinds ks) (hsub : ks ⊆ ks') : v.IsOf kinds ks' := by
  cases v with
  | scalar a => exact h.imp_right (@hsub _)
  | node i =>
    obtain ⟨k, hk, hi⟩ := h
    exact ⟨k, hsub hk, hi⟩

@[simp] theorem isOf_text : (Value.text name).IsOf kinds ks := .inl rfl

@[simp] theorem isOf_null : Value.null.IsOf kinds ks := .inl rfl

end Value

namespace Cell

/-- A list, or an object with keys that are scalars of JSON. -/
inductive IsJson : Cell → Prop
  | list (items : List Value) : IsJson (.list items)
  | object {entries : Entries Value} (hkeys : ∀ key ∈ entries.keys, key.isJson = true)
      (hnodup : entries.keys.Nodup) : IsJson (.object entries)

/-- What stands in the cell may stand in one of this kind. -/
structure Fits (kinds : List Kind) (k : Kind) (cell : Cell) : Prop where
  json : k ≠ .loose → cell.IsJson
  keyed : k.isTextKeyed = true → ∀ entries, cell = .object entries → entries.TextKeyed
  places : ∀ e ∈ cell.places, e.2.IsOf kinds (k.below e.1)
  pointer : k.mayRefer = true → ∀ entries p, cell = .object entries →
    entries.get? referenceKey = some (.text p) → Pointer.Plain p

theorem Fits.mono {cell : Cell} (h : cell.Fits kinds k) (hgrown : kinds <+: kinds') : cell.Fits kinds' k where
  json := h.json
  keyed := h.keyed
  places e he := (h.places e he).mono hgrown
  pointer := h.pointer

/-- What stands under a key of an object may stand there. -/
theorem Fits.get? (h : (Cell.object entries).Fits kinds k)
    (hget : entries.get? (.text name) = some v) : v.IsOf kinds (k.below (some (.text name))) :=
  h.places (some (.text name), v) (mem_places_object.mpr ⟨_, rfl, Entries.mem_of_get? hget⟩)

end Cell

end DeviceApi
