import DeviceApi.Proofs.Schema.NormalForm

/-!
# Trees that can be brought into canonical form

Whether a schema can be brought into canonical form can be told from its tree: every schema that is visited is an
object, an integer states its format as a scalar, and the properties of an object are an object unless there are none.
-/

namespace DeviceApi

namespace Tree

/-- Whether a tree counts as present. -/
def isTruthy : Tree → Bool
  | .scalar a => a.isTruthy
  | .list items => !items.isEmpty
  | .set members => !members.isEmpty
  | .object entries => !entries.isEmpty
  | .pair .. | .enclosing .. => true

/-- The tree is a schema that can be brought into canonical form with all schemas that are visited. -/
inductive Fits : Tree → Prop
  | reference {entries : List (Scalar × Tree)} (hown : Entries.has entries referenceKey = true) :
      Fits (.object entries)
  | schema {entries : List (Scalar × Tree)} (hown : Entries.has entries referenceKey = false)
      (hformat : schemaType entries = .text "integer" → ∀ format, Entries.get? "format" entries = some format →
        ∃ a, format.scalar? = some a)
      (hitems : schemaType entries = .text "array" → ∀ fields, Entries.get? "items" entries = some (.object fields) →
        Fits (.object fields))
      (hmap : schemaType entries = .text "object" → ∀ t, Entries.get? "properties" entries = some t →
        t.isTruthy = false ∨ ∃ schemas, t = .object schemas)
      (hproperties : schemaType entries = .text "object" →
        ∀ schemas, Entries.get? "properties" entries = some (.object schemas) → ∀ t ∈ Entries.values schemas, Fits t) :
      Fits (.object entries)

variable {t : Tree} {entries entries' fields schemas : List (Scalar × Tree)}

theorem Fits.exists_object (h : t.Fits) : ∃ entries, t = .object entries := by
  cases h <;> exact ⟨_, rfl⟩

section

variable (hown : Entries.has entries referenceKey = false)
include hown

/-- A schema that has nothing below it fits unless it is an integer whose format is no scalar. -/
theorem fits_plain_iff (harray : schemaType entries ≠ .text "array") (hobject : schemaType entries ≠ .text "object") :
    (Tree.object entries).Fits ↔ (schemaType entries = .text "integer" →
      ∀ format, Entries.get? "format" entries = some format → ∃ a, format.scalar? = some a) := by
  constructor
  · intro h
    cases h with
    | reference href => simp [hown] at href
    | schema _ hformat => exact hformat
  · intro hformat
    exact .schema hown hformat (fun htype => absurd htype harray) (fun htype => absurd htype hobject)
      fun htype => absurd htype hobject

/-- An array fits if its items fit or are no schema. -/
theorem fits_array_iff (htype : schemaType entries = .text "array") : (Tree.object entries).Fits ↔
    ∀ fields, Entries.get? "items" entries = some (.object fields) → (Tree.object fields).Fits := by
  constructor
  · intro h
    cases h with
    | reference href => simp [hown] at href
    | schema _ _ hitems => exact hitems htype
  · intro hitems
    exact .schema hown (by simp [htype]) (fun _ => hitems) (by simp [htype]) (by simp [htype])

/-- An object fits if all of its properties do. -/
theorem fits_object_iff (htype : schemaType entries = .text "object") : (Tree.object entries).Fits ↔
    ∀ t, Entries.get? "properties" entries = some t → (t.isTruthy = false ∨ ∃ schemas, t = .object schemas) ∧
      ∀ schemas, t = .object schemas → ∀ u ∈ Entries.values schemas, u.Fits := by
  constructor
  · intro h t ht
    cases h with
    | reference href => simp [hown] at href
    | schema _ _ _ hmap hproperties =>
      exact ⟨hmap htype t ht, fun schemas hschemas => hproperties htype schemas (hschemas ▸ ht)⟩
  · intro h
    exact .schema hown (by simp [htype]) (by simp [htype]) (fun _ t ht => (h t ht).1)
      fun _ schemas ht => (h _ ht).2 schemas rfl

end

/-- A schema that fits has a canonical form. -/
theorem Fits.exists_canonicalOfType (h : (Tree.object entries).Fits) (hown : Entries.has entries referenceKey = false) :
    ∃ c, Entries.canonicalOfType scalar? text (schemaType entries) entries = .ok c := by
  cases h with
  | reference href => simp [hown] at href
  | schema _ hformat => exact Entries.exists_canonicalOfType_iff.mpr hformat

end Tree

namespace Store

open Edit

variable {s : Store} {v : Value} {t : Tree} {values : Entries Value} {entries : List (Scalar × Tree)}

/-- Whether a value counts as present can be told from the tree that it holds. -/
theorem Holds.isTruthy_eq_tree (h : s.Holds v t) : s.isTruthy v = t.isTruthy := by
  cases t with
  | scalar a =>
    obtain rfl := holds_scalar.mp h
    rfl
  | enclosing isObject => simp at h
  | list items =>
    obtain ⟨id, values, rfl, hcell, hheld⟩ := holds_list.mp h
    have hlength := hheld.length_eq
    simp only [isTruthy, shape, hcell, Tree.isTruthy]
    cases values <;> cases items <;> simp_all
  | pair key value =>
    obtain ⟨id, k, x, rfl, hcell, -⟩ := holds_pair.mp h
    simp [isTruthy, shape, hcell, Tree.isTruthy]
  | set members =>
    obtain ⟨id, rfl, hcell⟩ := holds_set.mp h
    simp [isTruthy, shape, hcell, Tree.isTruthy]
  | object entries =>
    obtain ⟨id, values, rfl, hcell, hheld⟩ := holds_object.mp h
    have hlength := hheld.length_eq
    simp only [isTruthy, shape, hcell, Tree.isTruthy]
    cases values <;> cases entries <;> simp_all

/-- The entries of a tree that fits fit. -/
theorem fitsAt_of_holds (h : (Tree.object entries).Fits) (hown : Entries.has entries referenceKey = false)
    (hheld : List.Forall₂ s.HoldsEntry values entries) : s.FitsAt values := by
  have htype := schemaType_of_holds hheld
  cases h with
  | reference href => simp [hown] at href
  | schema _ hformat _ hmap hproperties =>
    refine ⟨Entries.exists_canonicalOfType_iff.mpr fun hinteger w hw => ?_, fun hobject w hw => ?_,
      fun hobject map properties hget hcell x hx => ?_⟩
    · obtain ⟨u, hu, hwu⟩ := exists_tree_of_get? hheld hw
      obtain ⟨a, ha⟩ := hformat (htype ▸ hinteger) u hu
      exact ⟨a, hwu.scalar?_eq.trans ha⟩
    · obtain ⟨u, hu, hwu⟩ := exists_tree_of_get? hheld hw
      rcases hmap (htype ▸ hobject) u hu with hfalse | ⟨schemas, rfl⟩
      · exact .inl (hwu.isTruthy_eq_tree.trans hfalse)
      · obtain ⟨id, properties, rfl, hcell, -⟩ := holds_object.mp hwu
        exact .inr ⟨id, properties, rfl, hcell⟩
    · obtain ⟨u, hu, hwu⟩ := exists_tree_of_get? hheld hget
      obtain ⟨schemas, rfl, hinner⟩ := hwu.object_of_shape (shape_node hcell)
      obtain ⟨e, he, rfl⟩ := List.mem_map.mp hx
      obtain ⟨p, hp, -, hep⟩ := exists_mem_of_forall₂ hinner he
      obtain ⟨fields, hfields⟩ := (hproperties (htype ▸ hobject) schemas hu p.2 (List.mem_map_of_mem hp)).exists_object
      rw [hfields] at hep
      obtain ⟨id, inner, hid, hcell', -⟩ := holds_object.mp hep
      exact ⟨id, inner, hid, hcell'⟩

/-- A value that holds a tree that fits can be brought into canonical form. -/
theorem Holds.fits (hv : s.Holds v t) (h : t.Fits) : s.Fits v where
  exists_object := by
    obtain ⟨entries, rfl⟩ := h.exists_object
    obtain ⟨id, values, hid, hcell, -⟩ := holds_object.mp hv
    exact ⟨id, values, hid, hcell⟩
  fitsAt i values hvisits hcell := by
    induction hvisits generalizing t with
    | @here id before hcell' hown =>
      obtain rfl : values = before := by simpa [hcell'] using hcell.symm
      obtain ⟨entries, rfl, hheld⟩ := hv.object_of_shape (shape_node hcell')
      exact fitsAt_of_holds h ((has_of_holds hheld).symm.trans hown) hheld
    | items hcell' hown htype hget hbelow ih =>
      obtain ⟨entries, rfl, hheld⟩ := hv.object_of_shape (shape_node hcell')
      obtain ⟨u, hu, hwu⟩ := exists_tree_of_get? hheld hget
      obtain ⟨id, inner, rfl, hinner, -⟩ := hbelow.exists_object
      obtain ⟨fields, rfl, -⟩ := hwu.object_of_shape (shape_node hinner)
      exact ih hwu ((Tree.fits_array_iff ((has_of_holds hheld).symm.trans hown)
        ((schemaType_of_holds hheld).symm.trans htype)).mp h fields hu) hcell
    | property hcell' hown htype hget hmap hw hbelow ih =>
      obtain ⟨entries, rfl, hheld⟩ := hv.object_of_shape (shape_node hcell')
      obtain ⟨u, hu, hwu⟩ := exists_tree_of_get? hheld hget
      obtain ⟨schemas, rfl, hschemas⟩ := hwu.object_of_shape (shape_node hmap)
      obtain ⟨e, he, rfl⟩ := List.mem_map.mp hw
      obtain ⟨p, hp, -, hep⟩ := exists_mem_of_forall₂ hschemas he
      have hproperties := (Tree.fits_object_iff ((has_of_holds hheld).symm.trans hown)
        ((schemaType_of_holds hheld).symm.trans htype)).mp h _ hu
      exact ih hep (hproperties.2 schemas rfl p.2 (List.mem_map_of_mem hp)) hcell

/-- A value that can be brought into canonical form holds a tree that fits. -/
theorem Fits.tree (h : s.Fits v) (hv : s.Holds v t) : t.Fits := by
  induction hsize : sizeOf t using Nat.strong_induction_on generalizing v t with
  | _ n ih =>
    subst hsize
    obtain ⟨id, values, rfl, hcell⟩ := h.exists_object
    obtain ⟨entries, rfl, hheld⟩ := hv.object_of_shape (shape_node hcell)
    cases hown : Entries.has entries referenceKey with
    | true => exact .reference hown
    | false =>
      have hown' : values.has referenceKey = false := (has_of_holds hheld).trans hown
      have htype := schemaType_of_holds hheld
      have hfits := h.fitsAt id values (.here hcell hown') hcell
      refine .schema hown (fun hinteger format hformat => ?_) (fun harray fields hfields => ?_)
        (fun hobject u hu => ?_) (fun hobject schemas hschemas u hu => ?_)
      · obtain ⟨w, hw, hwu⟩ := exists_value_of_get? hheld hformat
        obtain ⟨a, ha⟩ := Entries.exists_canonicalOfType_iff.mp hfits.form (htype ▸ hinteger) w hw
        exact ⟨a, hwu.scalar?_eq ▸ ha⟩
      · obtain ⟨w, hw, hwu⟩ := exists_value_of_get? hheld hfields
        obtain ⟨id', inner, rfl, hinner, -⟩ := holds_object.mp hwu
        have hbelow := h.items hcell hown' (htype ▸ harray) hw (by simp [entries?_eq_some.mpr ⟨id', shape_node hinner⟩])
        exact ih _ (Tree.sizeOf_entry_lt (Entries.mem_of_get? hfields)) hbelow hwu rfl
      · obtain ⟨w, hw, hwu⟩ := exists_value_of_get? hheld hu
        rcases hfits.map (htype ▸ hobject) w hw with hfalse | ⟨map, properties, rfl, hmap⟩
        · exact .inl (hwu.isTruthy_eq_tree ▸ hfalse)
        · obtain ⟨schemas, rfl, -⟩ := hwu.object_of_shape (shape_node hmap)
          exact .inr ⟨schemas, rfl⟩
      · obtain ⟨w, hw, hwu⟩ := exists_value_of_get? hheld hschemas
        obtain ⟨map, properties, rfl, hmap, hinner⟩ := holds_object.mp hwu
        obtain ⟨p, hp, rfl⟩ := List.mem_map.mp hu
        obtain ⟨e, he, -, hep⟩ := exists_mem_of_forall₂_right hinner hp
        have hlt := (Tree.sizeOf_entry_lt hp).trans (Tree.sizeOf_entry_lt (Entries.mem_of_get? hschemas))
        exact ih _ hlt (h.property hcell hown' (htype ▸ hobject) hw hmap (List.mem_map_of_mem he)) hep rfl

end Store

namespace Edit

variable {s s' : Store} {t : Tree}

/-- A JSON tree can be brought into canonical form exactly if it fits. -/
theorem exists_runs_canonicalize_load_iff (ht : t.IsJson) :
    (∃ s', Runs (canonicalize (s.load t).1) (s.load t).2 () s') ↔ t.Fits := by
  have hv := Store.holds_load ht s
  constructor
  · rintro ⟨s', hrun⟩
    exact (canonicalizes_canonicalize (hv.proper ht) hrun).1.tree hv
  · intro h
    exact exists_runs_canonicalize (hv.proper ht) (hv.fits h)

end Edit

end DeviceApi
