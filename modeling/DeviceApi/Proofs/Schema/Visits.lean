import DeviceApi.Proofs.Schema.Canonical

/-!
# The nodes that canonical form visits

Bringing a schema into canonical form visits the schema, the schemas of its properties and that of
its items, and so on. Each node that is visited is given the canonical form of its entries, which
depends on these entries only. So the order of the visits does not matter, nor does a second visit.
-/

namespace DeviceApi

variable {s s' s'' : Store} {v w : Value} {i id : Nat} {entries : Entries Value}
  {region region' : Nat → Prop}

namespace Store

open Edit

/-- The node is a schema that is visited when a value is brought into canonical form. -/
inductive Visits (s : Store) : Value → Nat → Prop
  | here {id : Nat} {entries : Entries Value} (hcell : s.cells[id]? = some (.object entries))
      (hown : entries.has referenceKey = false) : Visits s (.node id) id
  | items {id i : Nat} {entries : Entries Value} {w : Value}
      (hcell : s.cells[id]? = some (.object entries)) (hown : entries.has referenceKey = false)
      (htype : schemaType s entries = .text "array") (hget : entries.get? "items" = some w)
      (h : Visits s w i) : Visits s (.node id) i
  | property {id i map : Nat} {entries properties : Entries Value} {w : Value}
      (hcell : s.cells[id]? = some (.object entries)) (hown : entries.has referenceKey = false)
      (htype : schemaType s entries = .text "object")
      (hget : entries.get? "properties" = some (.node map))
      (hmap : s.cells[map]? = some (.object properties)) (hw : w ∈ properties.values)
      (h : Visits s w i) : Visits s (.node id) i

/-- In the objects of a region no key comes twice. -/
def KeyedOn (s : Store) (region : Nat → Prop) : Prop :=
  ∀ (i : Nat) (entries : Entries Value), region i → s.cells[i]? = some (.object entries) →
    entries.keys.Nodup

/-- The value holds a tree, and no key comes twice in an object below it. -/
structure Proper (s : Store) (v : Value) : Prop where
  exists_holds : ∃ t, s.Holds v t
  keyed : s.KeyedOn (s.Reaches v)

theorem Proper.part {cell : Cell} (h : s.Proper (.node id)) (hcell : s.cells[id]? = some cell)
    (hw : w ∈ cell.parts) : s.Proper w where
  exists_holds := by
    obtain ⟨t, ht⟩ := h.exists_holds
    exact (ht.of_part hcell hw).imp fun _ => And.left
  keyed i entries hi := h.keyed i entries (.part hcell hw hi)

theorem Proper.not_reaches_part {cell : Cell} (h : s.Proper (.node id)) (hcell : s.cells[id]? = some cell)
    (hw : w ∈ cell.parts) : ¬ s.Reaches w id :=
  h.exists_holds.elim fun _ ht => ht.not_reaches_of_part hcell hw

/-- What is trimmed stays proper. -/
theorem Trims.proper (h : s.Trims s' region) (hv : s.Proper v) : s'.Proper v where
  exists_holds := hv.exists_holds.elim fun _ => h.exists_holds
  keyed i entries hi hcell := by
    rcases h.trimmed i with heq | ⟨before, after, hbefore, hafter, htrimmed⟩
    · exact hv.keyed i entries (h.reaches hi) (heq ▸ hcell)
    · obtain rfl : after = entries := by simpa [hafter] using hcell
      exact htrimmed.nodup (hv.keyed i before (h.reaches hi) hbefore)

/-- The nodes of a region have been given the canonical form of their entries. -/
structure Canonicalizes (s s' : Store) (region : Nat → Prop) : Prop where
  size_eq : s'.cells.size = s.cells.size
  agree : ∀ i : Nat, ¬ region i → s'.cells[i]? = s.cells[i]?
  canonical : ∀ i : Nat, region i → ∃ entries canonical : Entries Value,
    s.cells[i]? = some (.object entries) ∧ s'.cells[i]? = some (.object canonical) ∧
      entries.canonicalOfType s.scalar? .text (schemaType s entries) = .ok canonical

theorem Visits.reaches (h : s.Visits v i) : s.Reaches v i := by
  induction h with
  | here hcell hown => exact .here _
  | items hcell hown htype hget h ih =>
    exact .part hcell (List.mem_map_of_mem (Entries.mem_of_get? hget)) ih
  | property hcell hown htype hget hmap hw h ih =>
    exact .part hcell (List.mem_map_of_mem (Entries.mem_of_get? hget)) (.part hmap hw ih)

/-- Only an object that is no reference is visited, and then it is visited itself. -/
theorem Visits.exists_object (h : s.Visits v i) : ∃ id entries, v = .node id ∧
    s.cells[id]? = some (.object entries) ∧ entries.has referenceKey = false := by
  cases h with
  | here hcell hown => exact ⟨_, _, rfl, hcell, hown⟩
  | items hcell hown => exact ⟨_, _, rfl, hcell, hown⟩
  | property hcell hown => exact ⟨_, _, rfl, hcell, hown⟩

theorem not_visits_of_isReference (h : s.isReference v = true) : ¬ s.Visits v i := by
  intro hvisits
  obtain ⟨id, entries, rfl, hcell, hown⟩ := hvisits.exists_object
  rw [isReference, entries?_eq_some.mpr ⟨id, shape_node hcell⟩] at h
  simp [hown] at h

/-- The node is visited below a schema with given entries. -/
def VisitsBelow (s : Store) (entries : Entries Value) (i : Nat) : Prop :=
  (schemaType s entries = .text "array" ∧ ∃ w, entries.get? "items" = some w ∧ s.Visits w i) ∨
    schemaType s entries = .text "object" ∧ ∃ map properties w,
      entries.get? "properties" = some (.node map) ∧ s.cells[map]? = some (.object properties) ∧
        w ∈ properties.values ∧ s.Visits w i

theorem visits_node (hcell : s.cells[id]? = some (.object entries))
    (hown : entries.has referenceKey = false) :
    s.Visits (.node id) i ↔ i = id ∨ s.VisitsBelow entries i := by
  constructor
  · intro h
    cases h with
    | here => exact .inl rfl
    | @items _ _ before w hcell' _ htype hget h =>
      obtain rfl : entries = before := by simpa [hcell] using hcell'
      exact .inr (.inl ⟨htype, w, hget, h⟩)
    | @property _ _ map before properties w hcell' _ htype hget hmap hw h =>
      obtain rfl : entries = before := by simpa [hcell] using hcell'
      exact .inr (.inr ⟨htype, map, properties, w, hget, hmap, hw, h⟩)
  · rintro (rfl | ⟨htype, w, hget, h⟩ | ⟨htype, map, properties, w, hget, hmap, hw, h⟩)
    · exact .here hcell hown
    · exact .items hcell hown htype hget h
    · exact .property hcell hown htype hget hmap hw h

/-- The node is an object or is visited from one of its first properties. -/
def VisitsFirst (s : Store) (id : Nat) (properties : Entries Value) (k i : Nat) : Prop :=
  i = id ∨ ∃ w ∈ properties.values.take k, s.Visits w i

theorem VisitsFirst.eq_of_length {properties : Entries Value} : s.VisitsFirst id properties properties.length =
    fun i => i = id ∨ ∃ w ∈ properties.values, s.Visits w i := by
  funext i
  rw [VisitsFirst, List.take_of_length_le (by simp [Entries.values])]

theorem values_take_succ {properties : Entries Value} {k : Nat} {key : Scalar}
    (hentry : properties[k]? = some (key, w)) :
    properties.values.take (k + 1) = properties.values.take k ++ [w] := by
  rw [List.take_add_one, Entries.values, List.getElem?_map, hentry]
  rfl

theorem visitsFirst_succ {properties : Entries Value} {k : Nat} {key : Scalar}
    (hentry : properties[k]? = some (key, w)) :
    s.VisitsFirst id properties (k + 1) i ↔ s.VisitsFirst id properties k i ∨ s.Visits w i := by
  rw [VisitsFirst, VisitsFirst, values_take_succ hentry]
  simp only [List.mem_append, List.mem_singleton, or_and_right, exists_or, exists_eq_left, or_assoc]

section

variable {map k : Nat} {properties : Entries Value} (hproper : s.Proper (.node id))
  (hcell : s.cells[id]? = some (.object entries)) (hget : entries.get? "properties" = some (.node map))
  (hmap : s.cells[map]? = some (.object properties))
include hproper hcell hget hmap

/-- What is visited from the properties lies below the object, and it is not the node that has them. -/
theorem VisitsFirst.reaches_and_ne (h : s.VisitsFirst id properties k i) :
    s.Reaches (.node id) i ∧ i ≠ map := by
  have hpart : .node map ∈ (Cell.object entries).parts := Entries.mem_values_of_get? hget
  rcases h with rfl | ⟨w, hw, hi⟩
  · refine ⟨.here i, ?_⟩
    rintro rfl
    exact hproper.not_reaches_part hcell hpart (.here i)
  · have hw' : w ∈ (Cell.object properties).parts := List.mem_of_mem_take hw
    refine ⟨.part hcell hpart (.part hmap hw' hi.reaches), ?_⟩
    rintro rfl
    exact (hproper.part hcell hpart).not_reaches_part hmap hw' hi.reaches

/-- The properties themselves are not changed while their schemas are. -/
theorem Canonicalizes.shape_properties (h : s.Canonicalizes s' (s.VisitsFirst id properties k)) :
    s'.shape (.node map) = .object map properties :=
  shape_node ((h.agree map fun hi => (hi.reaches_and_ne hproper hcell hget hmap).2 rfl).trans hmap)

end

namespace Canonicalizes

theorem refl (s : Store) : Canonicalizes s s fun _ => False where
  size_eq := rfl
  agree _ _ := rfl
  canonical _ h := h.elim

theorem congr (h : Canonicalizes s s' region) (heq : ∀ i, region i ↔ region' i) :
    Canonicalizes s s' region' where
  size_eq := h.size_eq
  agree i hi := h.agree i fun hregion => hi ((heq i).mp hregion)
  canonical i hi := h.canonical i ((heq i).mpr hi)

/-- Which values are scalars does not change. -/
theorem scalar?_eq (h : Canonicalizes s s' region) : s'.scalar? = s.scalar? := by
  funext v
  cases v with
  | scalar a => rfl
  | node i =>
    by_cases hi : region i
    · obtain ⟨entries, canonical, hcell, hcell', -⟩ := h.canonical i hi
      simp [scalar?, shape_node hcell, shape_node hcell']
    · simp only [scalar?, shape, h.agree i hi]

theorem schemaType_eq (h : Canonicalizes s s' region) : schemaType s' entries = schemaType s entries := by
  unfold schemaType
  rw [h.scalar?_eq]

variable (h : Canonicalizes s s' region) (hkeyed : s.KeyedOn region)
include h hkeyed

/-- An object keeps its type and all that is no annotation. -/
theorem object (hcell : s.cells[i]? = some (.object entries)) :
    ∃ entries', s'.cells[i]? = some (.object entries') ∧
      schemaType s' entries' = schemaType s entries ∧
      ∀ key, key ∉ Entries.annotationKeys → entries'.get? (.text key) = entries.get? (.text key) := by
  by_cases hi : region i
  · obtain ⟨before, canonical, hbefore, hcanonical, hform⟩ := h.canonical i hi
    obtain rfl : entries = before := by simpa [hcell] using hbefore
    have hget : ∀ key, key ∉ Entries.annotationKeys →
        canonical.get? (.text key) = entries.get? (.text key) := fun key hkey =>
      Entries.get?_canonicalOfType (hkeyed i entries hi hcell) hform (fun _ => rfl) hkey
    refine ⟨canonical, hcanonical, ?_, hget⟩
    rw [h.schemaType_eq]
    exact congrArg (fun w : Option Value => (w.bind s.scalar?).getD .null) (hget "type" (by decide))
  · exact ⟨entries, (h.agree i hi).trans hcell, h.schemaType_eq, fun _ _ => rfl⟩

/-- Nodes that have been given canonical form twice have been given it once. -/
theorem trans (h' : Canonicalizes s' s'' region') :
    Canonicalizes s s'' fun i => region i ∨ region' i where
  size_eq := h'.size_eq.trans h.size_eq
  agree i hi := (h'.agree i fun hregion => hi (.inr hregion)).trans
    (h.agree i fun hregion => hi (.inl hregion))
  canonical i hi := by
    by_cases hfirst : region i
    · obtain ⟨entries, canonical, hcell, hcanonical, hform⟩ := h.canonical i hfirst
      refine ⟨entries, canonical, hcell, ?_, hform⟩
      by_cases hsecond : region' i
      · obtain ⟨before, after, hbefore, hafter, hagain⟩ := h'.canonical i hsecond
        obtain rfl : canonical = before := by simpa [hcanonical] using hbefore
        obtain ⟨_, hsame, htype, -⟩ := h.object hkeyed hcell
        obtain rfl : canonical = _ := by simpa [hcanonical] using hsame
        rw [htype, h.scalar?_eq, Entries.canonicalOfType_canonical (hkeyed i entries hfirst hcell) hform
          fun _ => rfl] at hagain
        obtain rfl := Except.ok.inj hagain
        exact hafter
      · exact (h'.agree i hsecond).trans hcanonical
    · obtain ⟨entries, canonical, hcell, hcanonical, hform⟩ :=
        h'.canonical i (hi.resolve_left hfirst)
      refine ⟨entries, canonical, h.agree i hfirst ▸ hcell, hcanonical, ?_⟩
      rwa [h.scalar?_eq, h.schemaType_eq] at hform

end Canonicalizes

/-! ## Schemas that have a canonical form -/

/-- The entries state the same type and have the same under all keys that are no annotations. -/
structure Alike (s s' : Store) (entries entries' : Entries Value) : Prop where
  type_eq : schemaType s' entries' = schemaType s entries
  get?_eq : ∀ key, key ∉ Entries.annotationKeys → entries'.get? (.text key) = entries.get? (.text key)
  form_iff : (∃ c, entries'.canonicalOfType s'.scalar? .text (schemaType s' entries') = .ok c) ↔
    ∃ c, entries.canonicalOfType s.scalar? .text (schemaType s entries) = .ok c
  eq_of_untyped : schemaType s entries = .null → entries' = entries

theorem Alike.symm {entries' : Entries Value} (h : s.Alike s' entries entries') :
    s'.Alike s entries' entries where
  type_eq := h.type_eq.symm
  get?_eq key hkey := (h.get?_eq key hkey).symm
  form_iff := h.form_iff.symm
  eq_of_untyped htype := (h.eq_of_untyped (h.type_eq.symm.trans htype)).symm

theorem Alike.has_eq {entries' : Entries Value} (h : s.Alike s' entries entries') :
    entries'.has referenceKey = entries.has referenceKey := by
  rw [Entries.has, Entries.has, h.get?_eq referenceKey (by decide)]

/-- The stores have like objects at the same nodes, and agree on all other nodes. -/
structure Resembles (s s' : Store) : Prop where
  object : ∀ (i : Nat) (entries : Entries Value), s.cells[i]? = some (.object entries) →
    ∃ entries', s'.cells[i]? = some (.object entries') ∧ s.Alike s' entries entries'
  other : ∀ i : Nat, (∀ entries, s.cells[i]? ≠ some (.object entries)) → s'.cells[i]? = s.cells[i]?

namespace Resembles

variable (h : s.Resembles s')
include h

theorem of_object {entries' : Entries Value} (hcell : s'.cells[i]? = some (.object entries')) :
    ∃ entries, s.cells[i]? = some (.object entries) ∧ s.Alike s' entries entries' := by
  by_cases hold : ∃ entries, s.cells[i]? = some (.object entries)
  · obtain ⟨entries, hentries⟩ := hold
    obtain ⟨after, hafter, halike⟩ := h.object i entries hentries
    obtain rfl : after = entries' := by simpa [hafter] using hcell
    exact ⟨entries, hentries, halike⟩
  · rw [h.other i fun entries hentries => hold ⟨entries, hentries⟩] at hcell
    exact absurd ⟨_, hcell⟩ hold

theorem symm : s'.Resembles s where
  object i entries' hcell := (h.of_object hcell).imp fun _ hold => ⟨hold.1, hold.2.symm⟩
  other i hnot := by
    refine (h.other i fun entries hentries => ?_).symm
    obtain ⟨after, hafter, -⟩ := h.object i entries hentries
    exact hnot after hafter

/-- An object whose values are nodes states no type, so it is the same. -/
theorem cell_eq {properties : Entries Value} (hcell : s.cells[i]? = some (.object properties))
    (hnodes : ∀ x ∈ properties.values, ∃ id fields, x = .node id ∧ s.cells[id]? = some (.object fields)) :
    s'.cells[i]? = s.cells[i]? := by
  obtain ⟨after, hafter, halike⟩ := h.object i properties hcell
  have htype : schemaType s properties = .null := by
    rw [schemaType]
    cases hget : properties.get? "type" with
    | none => rfl
    | some x =>
      obtain ⟨id, fields, rfl, hfields⟩ := hnodes x (Entries.mem_values_of_get? hget)
      simp [scalar?, shape_node hfields]
  rw [hafter, hcell, halike.eq_of_untyped htype]

end Resembles

/-- Giving nodes the canonical form of their entries leaves like objects. -/
theorem Canonicalizes.resembles (h : Canonicalizes s s' region) (hkeyed : s.KeyedOn region) :
    s.Resembles s' where
  object i entries hcell := by
    obtain ⟨entries', hcell', htype, hget⟩ := h.object hkeyed hcell
    refine ⟨entries', hcell', htype, hget, ?_, fun hnull => ?_⟩
    all_goals
      by_cases hi : region i
      · obtain ⟨before, canonical, hbefore, hcanonical, hform⟩ := h.canonical i hi
        obtain rfl : entries = before := by simpa [hcell] using hbefore
        obtain rfl : entries' = canonical := by simpa [hcell'] using hcanonical
        first
        | exact ⟨fun _ => ⟨_, hform⟩, fun _ => ⟨_, by
            rw [htype, h.scalar?_eq]
            exact Entries.canonicalOfType_canonical (hkeyed i entries hi hcell) hform fun _ => rfl⟩⟩
        | rw [hnull] at hform
          exact (Except.ok.inj hform).symm
      · obtain rfl : entries' = entries := by simpa [hcell', hcell] using h.agree i hi
        first
        | rw [htype, h.scalar?_eq]
        | rfl
  other i hnot := h.agree i fun hi => by
    obtain ⟨entries, -, hcell, -⟩ := h.canonical i hi
    exact hnot entries hcell

/-- The entries of a schema have a canonical form, and its properties are objects in an object if there
are any. -/
structure FitsAt (s : Store) (entries : Entries Value) : Prop where
  form : ∃ c, entries.canonicalOfType s.scalar? .text (schemaType s entries) = .ok c
  map : schemaType s entries = .text "object" → ∀ w, entries.get? "properties" = some w →
    s.isTruthy w = false ∨ ∃ map properties, w = .node map ∧ s.cells[map]? = some (.object properties)
  properties : schemaType s entries = .text "object" → ∀ (map : Nat) (properties : Entries Value),
    entries.get? "properties" = some (.node map) → s.cells[map]? = some (.object properties) →
      ∀ x ∈ properties.values, ∃ id fields, x = .node id ∧ s.cells[id]? = some (.object fields)

/-- The value is a schema that can be brought into canonical form with all schemas that are visited. -/
structure Fits (s : Store) (v : Value) : Prop where
  exists_object : ∃ id entries, v = .node id ∧ s.cells[id]? = some (.object entries)
  fitsAt : ∀ (i : Nat) (entries : Entries Value), s.Visits v i → s.cells[i]? = some (.object entries) →
    s.FitsAt entries

theorem Fits.items (h : s.Fits (.node id)) (hcell : s.cells[id]? = some (.object entries))
    (hown : entries.has referenceKey = false) (htype : schemaType s entries = .text "array")
    (hget : entries.get? "items" = some w) (hw : (s.entries? w).isSome = true) : s.Fits w where
  exists_object := by
    obtain ⟨fields, hfields⟩ := Option.isSome_iff_exists.mp hw
    obtain ⟨x, hshape⟩ := entries?_eq_some.mp hfields
    exact ⟨x, fields, shape_eq_object.mp hshape⟩
  fitsAt i fields hi := h.fitsAt i fields (.items hcell hown htype hget hi)

theorem Fits.property {map : Nat} {properties : Entries Value} (h : s.Fits (.node id))
    (hcell : s.cells[id]? = some (.object entries)) (hown : entries.has referenceKey = false)
    (htype : schemaType s entries = .text "object") (hget : entries.get? "properties" = some (.node map))
    (hmap : s.cells[map]? = some (.object properties)) (hw : w ∈ properties.values) : s.Fits w where
  exists_object := (h.fitsAt id entries (.here hcell hown) hcell).properties htype map properties hget hmap w hw
  fitsAt i fields hi := h.fitsAt i fields (.property hcell hown htype hget hmap hw hi)

namespace Resembles

variable (h : s.Resembles s')
include h

theorem fitsAt {entries' : Entries Value} (halike : s.Alike s' entries entries') (hfits : s.FitsAt entries) :
    s'.FitsAt entries' where
  form := halike.form_iff.mpr hfits.form
  map htype w hget := by
    rw [halike.get?_eq "properties" (by decide)] at hget
    rcases hfits.map (halike.type_eq ▸ htype) w hget with hfalse | ⟨map, properties, rfl, hmap⟩
    · by_cases hobject : ∃ map properties, w = .node map ∧ s.cells[map]? = some (.object properties)
      · obtain ⟨map, properties, rfl, hmap⟩ := hobject
        obtain ⟨after, hafter, -⟩ := h.object map properties hmap
        exact .inr ⟨map, after, rfl, hafter⟩
      · refine .inl ?_
        cases w with
        | scalar a => exact hfalse
        | node x =>
          have hsame := h.other x fun properties hx => hobject ⟨x, properties, rfl, hx⟩
          rw [Store.isTruthy, Store.shape, hsame]
          exact hfalse
    · obtain ⟨after, hafter, -⟩ := h.object map properties hmap
      exact .inr ⟨map, after, rfl, hafter⟩
  properties htype map properties' hget hmap' x hx := by
    rw [halike.get?_eq "properties" (by decide)] at hget
    obtain ⟨properties, hmap, -⟩ := h.of_object hmap'
    have hnodes := hfits.properties (halike.type_eq ▸ htype) map properties hget hmap
    rw [h.cell_eq hmap hnodes, hmap] at hmap'
    obtain rfl : properties = properties' := by simpa using hmap'
    obtain ⟨id, fields, rfl, hfields⟩ := hnodes x hx
    obtain ⟨fields', hfields', -⟩ := h.object id fields hfields
    exact ⟨id, fields', rfl, hfields'⟩

/-- What is visited in one of the stores is visited in the other, if the schema fits there. -/
theorem visits_of_visits (hfits : s.Fits v) (hvisits : s'.Visits v i) : s.Visits v i := by
  induction hvisits with
  | here hcell' hown =>
    obtain ⟨entries, hcell, halike⟩ := h.of_object hcell'
    exact .here hcell (halike.has_eq ▸ hown)
  | items hcell' hown htype hget hbelow ih =>
    obtain ⟨entries, hcell, halike⟩ := h.of_object hcell'
    rw [halike.get?_eq "items" (by decide)] at hget
    have hown' := halike.has_eq ▸ hown
    have htype' := halike.type_eq ▸ htype
    obtain ⟨x, fields, rfl, hfields, -⟩ := hbelow.exists_object
    obtain ⟨fields', hfields', -⟩ := h.of_object hfields
    refine .items hcell hown' htype' hget (ih (hfits.items hcell hown' htype' hget ?_))
    rw [entries?_eq_some.mpr ⟨x, shape_node hfields'⟩]
    rfl
  | @property id _ map _ properties' w hcell' hown htype hget hmap hw hbelow ih =>
    obtain ⟨entries, hcell, halike⟩ := h.of_object hcell'
    rw [halike.get?_eq "properties" (by decide)] at hget
    have hown' := halike.has_eq ▸ hown
    have htype' := halike.type_eq ▸ htype
    obtain ⟨properties, hmap', -⟩ := h.of_object hmap
    have hnodes := (hfits.fitsAt id entries (.here hcell hown') hcell).properties htype' map properties hget hmap'
    rw [h.cell_eq hmap' hnodes] at hmap
    exact .property hcell hown' htype' hget hmap hw (ih (hfits.property hcell hown' htype' hget hmap hw))

theorem fits (hfits : s.Fits v) : s'.Fits v where
  exists_object := by
    obtain ⟨id, entries, rfl, hcell⟩ := hfits.exists_object
    obtain ⟨entries', hcell', -⟩ := h.object id entries hcell
    exact ⟨id, entries', rfl, hcell'⟩
  fitsAt i entries' hi hcell' := by
    obtain ⟨entries, hcell, halike⟩ := h.of_object hcell'
    exact h.fitsAt halike (hfits.fitsAt i entries (h.visits_of_visits hfits hi) hcell)

/-- The same nodes are visited below a schema that fits. -/
theorem visits_iff (hfits : s.Fits v) : s'.Visits v i ↔ s.Visits v i :=
  ⟨h.visits_of_visits hfits, h.symm.visits_of_visits (h.fits hfits)⟩

end Resembles

/-- After other nodes, those that are visited from one more schema have been given canonical form. -/
theorem Canonicalizes.next (h : Canonicalizes s s' region) (hkeyed : s.KeyedOn region) (hfits : s'.Fits w)
    (hstep : Canonicalizes s' s'' (s'.Visits w)) :
    s.Fits w ∧ Canonicalizes s s'' fun i => region i ∨ s.Visits w i := by
  have hresembles := h.resembles hkeyed
  have hfits' : s.Fits w := hresembles.symm.fits hfits
  exact ⟨hfits', (h.trans hkeyed hstep).congr fun i => by rw [hresembles.visits_iff hfits']⟩

/-- Giving nodes the canonical form of their entries is a trim. -/
theorem Canonicalizes.trims (h : Canonicalizes s s' region) : Trims s s' region where
  size_eq := h.size_eq
  agree := h.agree
  trimmed i := by
    by_cases hi : region i
    · obtain ⟨entries, canonical, hcell, hcell', hform⟩ := h.canonical i hi
      exact .inr ⟨entries, canonical, hcell, hcell', Entries.trimmed_canonicalOfType hform fun _ => rfl⟩
    · exact .inl (h.agree i hi)

end Store

namespace Edit

open Store

/-- Giving one object the canonical form of its entries. -/
theorem canonicalizes_set {canonical : Entries Value} (hcell : s.cells[id]? = some (.object entries))
    (h : entries.canonicalOfType s.scalar? .text (schemaType s entries) = .ok canonical) :
    s.Canonicalizes (s.set id (.object canonical)) (· = id) where
  size_eq := Store.size_set
  agree i hi := by rw [Store.cells_set, if_neg fun h => hi h.1]
  canonical i hi := by
    obtain rfl := hi
    exact ⟨entries, canonical, hcell,
      by rw [Store.cells_set, if_pos ⟨rfl, Store.lt_size_of_cell hcell⟩], h⟩

section

variable {depth : Nat} {t t' : Store} {u : Unit}
  (ih : ∀ {v : Value} {t t' : Store} {u : Unit}, t.Proper v → Runs (canonicalizeWithin depth v) t u t' →
    t.Fits v ∧ t.Canonicalizes t' (t.Visits v))
  (hproper : s.Proper (.node id))
include ih hproper

/-- Below an object that has been changed already one more schema is brought into canonical form. -/
theorem canonicalizes_next (hregion : ∀ i, region i → s.Reaches (.node id) i)
    (hcanon : s.Canonicalizes t region) (hw : s.Proper w) (h : Runs (canonicalizeWithin depth w) t u t') :
    s.Fits w ∧ s.Canonicalizes t' fun i => region i ∨ s.Visits w i := by
  obtain ⟨hfits, hstep⟩ := ih (hcanon.trims.proper hw) h
  exact hcanon.next (fun i entries hi => hproper.keyed i entries (hregion i hi)) hfits hstep

variable (hcell : s.cells[id]? = some (.object entries)) (hset : s.Canonicalizes t (· = id))
include hcell hset

/-- The schemas of an object are visited in the order of its properties. The store `t` differs from
`s` in the object itself. -/
theorem canonicalizes_properties {map : Nat} {properties : Entries Value}
    (hget : entries.get? "properties" = some (.node map))
    (hmap : s.cells[map]? = some (.object properties))
    (h : Runs (foldEntries (.node map) () fun _ _ property => canonicalizeWithin depth property) t u s') :
    (∀ w ∈ properties.values, s.Fits w) ∧
      s.Canonicalizes s' fun i => i = id ∨ ∃ w ∈ properties.values, s.Visits w i := by
  have hinit : s.Canonicalizes t (s.VisitsFirst id properties 0) := hset.congr fun i => by simp [VisitsFirst]
  have hlast := Runs.foldEntries_induct (fun k _ t' => (∀ w ∈ properties.values.take k, s.Fits w) ∧
    s.Canonicalizes t' (s.VisitsFirst id properties k)) h (hinit.shape_properties hproper hcell hget hmap)
    ⟨by simp, hinit⟩ ?_
  · rwa [VisitsFirst.eq_of_length, List.take_of_length_le (by simp [Entries.values])] at hlast
  · rintro k c t₁ id' entries' key w c' t₂ ⟨hfits, hcanon⟩ hshape hlength hentry hrun
    obtain ⟨rfl, rfl⟩ : map = id' ∧ properties = entries' := by
      simpa [hcanon.shape_properties hproper hcell hget hmap] using hshape
    have hpart : .node map ∈ (Cell.object entries).parts := Entries.mem_values_of_get? hget
    have hw : w ∈ properties.values := List.mem_map_of_mem (List.mem_of_getElem? hentry)
    obtain ⟨hfits', hnext⟩ := canonicalizes_next ih hproper
      (fun i hi => (hi.reaches_and_ne hproper hcell hget hmap).1) hcanon
      ((hproper.part hcell hpart).part hmap hw) hrun
    refine ⟨fun x hx => ?_, hnext.congr fun i => (visitsFirst_succ hentry).symm⟩
    rw [values_take_succ hentry] at hx
    rcases List.mem_append.mp hx with hold | hnew
    · exact hfits x hold
    · exact List.mem_singleton.mp hnew ▸ hfits'

/-- The schemas directly below a schema are visited, and they fit. -/
theorem canonicalizes_canonicalizeBelow
    (hform : ∃ c, entries.canonicalOfType s.scalar? .text (schemaType s entries) = .ok c)
    (h : Runs (canonicalizeBelow depth s entries) t u s') :
    (s.FitsAt entries ∧ ∀ (i : Nat) (fields : Entries Value), s.VisitsBelow entries i →
      s.cells[i]? = some (.object fields) → s.FitsAt fields) ∧
      s.Canonicalizes s' fun i => i = id ∨ s.VisitsBelow entries i := by
  unfold canonicalizeBelow at h
  split at h
  · next htype =>
    have hfitsAt : s.FitsAt entries := ⟨hform, by simp [htype], by simp [htype]⟩
    cases hget : entries.get? "items" with
    | none =>
      have hnot : ∀ i, ¬ s.VisitsBelow entries i := by simp [VisitsBelow, htype, hget]
      simp only [hget, Option.getD_none, entries?, shape, Option.isSome_none, Bool.false_eq_true, if_false,
        runs_pure] at h
      obtain ⟨-, rfl⟩ := h
      exact ⟨⟨hfitsAt, fun i _ hi => absurd hi (hnot i)⟩, hset.congr fun i => by simp [hnot i]⟩
    | some w =>
      have hiff : ∀ i, s.VisitsBelow entries i ↔ s.Visits w i := by simp [VisitsBelow, htype, hget]
      rw [hget, Option.getD_some] at h
      split at h
      · have hw : s.Proper w := hproper.part hcell (Entries.mem_values_of_get? hget)
        obtain ⟨hfits, hnext⟩ := canonicalizes_next ih hproper (fun i (hi : i = id) => hi ▸ .here i) hset hw h
        exact ⟨⟨hfitsAt, fun i fields hi => hfits.fitsAt i fields ((hiff i).mp hi)⟩,
          hnext.congr fun i => by rw [hiff]⟩
      · next hnot =>
        have hnot' : ∀ i, ¬ s.VisitsBelow entries i := by
          intro i hi
          obtain ⟨x, inner, rfl, hinner, -⟩ := ((hiff i).mp hi).exists_object
          simp [entries?_eq_some.mpr ⟨x, shape_node hinner⟩] at hnot
        obtain ⟨-, rfl⟩ := runs_pure.mp h
        exact ⟨⟨hfitsAt, fun i _ hi => absurd hi (hnot' i)⟩, hset.congr fun i => by simp [hnot' i]⟩
  · next htype =>
    obtain ⟨c, t₁, htruthy, h⟩ := runs_bind.mp h
    obtain ⟨rfl, rfl⟩ := runs_isTruthy.mp htruthy
    have hmapne : ∀ {map}, entries.get? "properties" = some (.node map) → t.cells[map]? = s.cells[map]? := by
      intro map hget
      refine hset.agree map ?_
      rintro rfl
      exact hproper.not_reaches_part hcell (Entries.mem_values_of_get? hget) (.here map)
    split at h
    · obtain ⟨map, properties, hshape⟩ := h.exists_shape_of_foldEntries
      obtain ⟨hnode, hmap'⟩ := shape_eq_object.mp hshape
      have hget := getD_eq_node.mp hnode
      have hmap : s.cells[map]? = some (.object properties) := hmapne hget ▸ hmap'
      rw [hnode] at h
      obtain ⟨hfits, hcanon⟩ := canonicalizes_properties ih hproper hcell hset hget hmap h
      refine ⟨⟨⟨hform, fun _ w hw => ?_, fun _ map' properties' hget' hmap'' x hx => ?_⟩,
        fun i fields hi hfields => ?_⟩, hcanon.congr fun i => by simp [VisitsBelow, htype, hget, hmap]⟩
      · obtain rfl : .node map = w := by simpa [hget] using hw
        exact .inr ⟨map, properties, rfl, hmap⟩
      · obtain rfl : map = map' := by simpa [hget] using hget'
        obtain rfl : properties = properties' := by simpa [hmap] using hmap''
        exact (hfits x hx).exists_object
      · obtain ⟨w, hw, hi⟩ : ∃ w ∈ properties.values, s.Visits w i := by
          simpa [VisitsBelow, htype, hget, hmap] using hi
        exact (hfits w hw).fitsAt i fields hi hfields
    · next hfalse =>
      obtain ⟨-, rfl⟩ := runs_pure.mp h
      -- Properties that are nothing, or none, hold no schemas.
      have hempty : ∀ map properties, entries.get? "properties" = some (.node map) →
          s.cells[map]? = some (.object properties) → properties.values = [] := by
        intro map properties hget hmap
        rw [← hmapne hget] at hmap
        simp only [hget, Option.getD_some, Store.isTruthy, shape_node hmap] at hfalse
        simpa [Entries.values] using hfalse
      have hnot : ∀ i, ¬ s.VisitsBelow entries i := by
        rintro i (⟨htype', -⟩ | ⟨-, map, properties, w, hget, hmap, hw, -⟩)
        · simp [htype] at htype'
        · simp [hempty map properties hget hmap] at hw
      refine ⟨⟨⟨hform, fun _ w hw => ?_, fun _ map properties hget hmap x hx => ?_⟩,
        fun i _ hi => absurd hi (hnot i)⟩, hset.congr fun i => by simp [hnot i]⟩
      · rw [hw, Option.getD_some] at hfalse
        refine .inl ?_
        cases w with
        | scalar a => simpa [Store.isTruthy, shape] using hfalse
        | node x => simpa [Store.isTruthy, shape, hmapne hw] using hfalse
      · simp [hempty map properties hget hmap] at hx
  · next harray hobject =>
    obtain ⟨-, rfl⟩ := runs_pure.mp h
    have hnot : ∀ i, ¬ s.VisitsBelow entries i := by
      rintro i (⟨htype, -⟩ | ⟨htype, -⟩)
      · exact harray htype
      · exact hobject htype
    exact ⟨⟨⟨hform, fun htype => absurd htype hobject, fun htype => absurd htype hobject⟩,
      fun i _ hi => absurd hi (hnot i)⟩, hset.congr fun i => by simp [hnot i]⟩

end

theorem exists_object_of_isReference (h : s.isReference v = true) :
    ∃ id entries, v = .node id ∧ s.cells[id]? = some (.object entries) := by
  rw [Store.isReference] at h
  split at h
  · next entries hentries =>
    obtain ⟨id, hshape⟩ := entries?_eq_some.mp hentries
    exact ⟨id, entries, shape_eq_object.mp hshape⟩
  · simp at h

/-- Bringing a schema into canonical form gives every node that is visited the canonical form of its
entries. -/
theorem canonicalizes_canonicalizeWithin {depth : Nat} {u : Unit} (hproper : s.Proper v)
    (h : Runs (canonicalizeWithin depth v) s u s') : s.Fits v ∧ s.Canonicalizes s' (s.Visits v) := by
  induction depth generalizing s v s' u with
  | zero => simp [canonicalizeWithin] at h
  | succ depth ih =>
    rw [runs_canonicalizeWithin] at h
    split at h
    · next hreference =>
      obtain rfl := h
      exact ⟨⟨exists_object_of_isReference hreference,
        fun i _ hi => absurd hi (not_visits_of_isReference hreference)⟩,
        (Canonicalizes.refl s).congr fun i => by simp [not_visits_of_isReference hreference]⟩
    · next hreference =>
      obtain ⟨id, entries, canonical, hshape, hcanonical, h⟩ := h
      obtain ⟨rfl, hcell⟩ := shape_eq_object.mp hshape
      have hown : entries.has referenceKey = false := by
        simpa [Store.isReference, entries?_eq_some.mpr ⟨id, hshape⟩] using hreference
      obtain ⟨⟨hfitsAt, hbelow⟩, hcanon⟩ := canonicalizes_canonicalizeBelow ih hproper hcell
        (canonicalizes_set hcell hcanonical) ⟨canonical, hcanonical⟩ h
      refine ⟨⟨⟨id, entries, rfl, hcell⟩, fun i fields hi hfields => ?_⟩,
        hcanon.congr fun i => (visits_node hcell hown).symm⟩
      rcases (visits_node hcell hown).mp hi with rfl | hi
      · obtain rfl : entries = fields := by simpa [hcell] using hfields
        exact hfitsAt
      · exact hbelow i fields hi hfields

/-- Only objects have a canonical form. -/
theorem exists_object_of_canonicalize {u : Unit} (h : Runs (canonicalize v) s u s') :
    ∃ id entries, s.shape v = .object id entries := by
  rw [canonicalize, runs_get_bind, runs_canonicalizeWithin] at h
  split at h
  · next hreference =>
    obtain ⟨id, entries, hv⟩ := exists_object_of_isReference hreference
    exact ⟨id, entries, shape_eq_object.mpr hv⟩
  · obtain ⟨id, entries, -, hshape, -⟩ := h
    exact ⟨id, entries, hshape⟩

theorem canonicalizes_canonicalize {u : Unit} (hproper : s.Proper v) (h : Runs (canonicalize v) s u s') :
    s.Fits v ∧ s.Canonicalizes s' (s.Visits v) := by
  rw [canonicalize, runs_get_bind] at h
  exact canonicalizes_canonicalizeWithin hproper h

end Edit

end DeviceApi
