import DeviceApi.Proofs.Schema.Bare

/-!
# Descriptions in shape keys

A shape key shows neither the description of a schema nor those of the schemas of its properties and its items, and so
on. It shows all that stands elsewhere: the properties by their names, also one with the name `description`, and the
descriptions of schemas that stand under other keywords.
-/

namespace DeviceApi

namespace Tree

/-- The keywords beside `properties` under which schemas stand: those with one schema, and those with several. -/
structure SchemaKeywords where
  single : List String
  several : List String

namespace SchemaKeywords

/-- The keywords under which schemas are visited. -/
def visited : SchemaKeywords := { single := ["items"], several := [] }

/-- The keywords under which a schema may have others. -/
def all : SchemaKeywords :=
  { single := ["items", "additionalProperties", "not"], several := ["allOf", "anyOf", "oneOf"] }

end SchemaKeywords

mutual

/-- A schema without its description and without those of the schemas below it. -/
def undescribedSchema (keywords : SchemaKeywords) : Tree → Tree
  | .object entries => .object (undescribedEntries keywords entries)
  | t => t

/-- The entries of a schema without descriptions. -/
def undescribedEntries (keywords : SchemaKeywords) : List (Scalar × Tree) → List (Scalar × Tree)
  | [] => []
  | (key, t) :: rest =>
    if key = .text "description" then undescribedEntries keywords rest
    else (key, undescribedValue keywords key t) :: undescribedEntries keywords rest

/-- The value of a keyword without the descriptions of the schemas that stand there. -/
def undescribedValue (keywords : SchemaKeywords) (key : Scalar) : Tree → Tree
  | .object entries =>
    if key = .text "properties" then .object (undescribedProperties keywords entries)
    else if key ∈ keywords.single.map Scalar.text then .object (undescribedEntries keywords entries)
    else .object entries
  | .list items =>
    if key ∈ keywords.several.map Scalar.text then .list (undescribedItems keywords items) else .list items
  | t => t

/-- The schemas of properties without descriptions. -/
def undescribedProperties (keywords : SchemaKeywords) : List (Scalar × Tree) → List (Scalar × Tree)
  | [] => []
  | (name, t) :: rest => (name, undescribedSchema keywords t) :: undescribedProperties keywords rest

/-- Several schemas without descriptions. -/
def undescribedItems (keywords : SchemaKeywords) : List Tree → List Tree
  | [] => []
  | t :: rest => undescribedSchema keywords t :: undescribedItems keywords rest

end

/-- The schemas differ in nothing but descriptions, their own and those of the schemas below them. -/
def DiffersInDescriptions (keywords : SchemaKeywords) (t t' : Tree) : Prop :=
  t.undescribedSchema keywords = t'.undescribedSchema keywords

/-! ## What is not shown -/

mutual

theorem withoutDescriptions_undescribedSchema : (t : Tree) →
    (t.undescribedSchema .visited).withoutDescriptions = t.withoutDescriptions
  | .object entries => by
    rw [undescribedSchema, withoutDescriptions, withoutDescriptions, withoutDescriptionEntries_undescribedEntries entries]
  | .scalar _ | .list _ | .pair .. | .set _ | .enclosing _ => by
    rw [undescribedSchema]
    simp

theorem withoutDescriptionEntries_undescribedEntries : (entries : List (Scalar × Tree)) →
    withoutDescriptionEntries (undescribedEntries .visited entries) = withoutDescriptionEntries entries
  | [] => rfl
  | (key, t) :: rest => by
    rw [undescribedEntries, withoutDescriptionEntries]
    by_cases hkey : key = .text "description"
    · rw [if_pos hkey, if_pos hkey, withoutDescriptionEntries_undescribedEntries rest]
    · rw [if_neg hkey, if_neg hkey, withoutDescriptionEntries, if_neg hkey, undescribed_undescribedValue key t,
        withoutDescriptionEntries_undescribedEntries rest]

theorem undescribed_undescribedValue : (key : Scalar) → (t : Tree) →
    undescribed key (undescribedValue .visited key t) = undescribed key t
  | key, .object entries => by
    rw [undescribedValue, undescribed]
    by_cases hproperties : key = .text "properties"
    · rw [if_pos hproperties, if_pos hproperties, undescribed, if_pos hproperties,
        withoutDescriptionProperties_undescribedProperties entries]
    by_cases hitems : key = .text "items"
    · rw [if_neg hproperties, if_pos (by simp [SchemaKeywords.visited, hitems]), if_neg hproperties, if_pos hitems,
        undescribed, if_neg hproperties, if_pos hitems, withoutDescriptionEntries_undescribedEntries entries]
    · rw [if_neg hproperties, if_neg (by simpa [SchemaKeywords.visited] using hitems), if_neg hproperties,
        if_neg hitems, undescribed, if_neg hproperties, if_neg hitems]
  | key, .list items => by
    rw [undescribedValue, if_neg (by simp [SchemaKeywords.visited])]
  | key, .scalar _ | key, .pair .. | key, .set _ | key, .enclosing _ => by
    rw [undescribedValue]
    all_goals simp

theorem withoutDescriptionProperties_undescribedProperties : (entries : List (Scalar × Tree)) →
    withoutDescriptionProperties (undescribedProperties .visited entries) = withoutDescriptionProperties entries
  | [] => rfl
  | (name, t) :: rest => by
    rw [undescribedProperties, withoutDescriptionProperties, withoutDescriptionProperties,
      withoutDescriptions_undescribedSchema t, withoutDescriptionProperties_undescribedProperties rest]

end

/-! ## What is shown -/

/-- A step from a schema to one below it: to its items, or to a property with a name. -/
inductive Step
  | items
  | property (name : Scalar)

/-- The second schema stands below the first one at the end of a path. -/
inductive HasAt : List Step → Tree → Tree → Prop
  | here (t : Tree) : HasAt [] t t
  | items {path : List Step} {entries : List (Scalar × Tree)} {t u : Tree} (hmem : (.text "items", t) ∈ entries)
      (h : HasAt path t u) : HasAt (.items :: path) (.object entries) u
  | property {path : List Step} {entries schemas : List (Scalar × Tree)} {name : Scalar} {t u : Tree}
      (hmem : (.text "properties", .object schemas) ∈ entries) (ht : (name, t) ∈ schemas) (h : HasAt path t u) :
      HasAt (.property name :: path) (.object entries) u

variable {t t' u u' v w : Tree} {entries schemas : List (Scalar × Tree)} {path : List Step}

theorem exists_properties_of_undescribed (h : undescribed "properties" (.object schemas) = .ok v) :
    ∃ schemas', v = .object schemas' ∧ withoutDescriptionProperties schemas = .ok schemas' := by
  rw [undescribed, if_pos rfl] at h
  cases hschemas : withoutDescriptionProperties schemas with
  | error m =>
    rw [hschemas] at h
    cases h
  | ok schemas' =>
    rw [hschemas] at h
    exact ⟨schemas', (Except.ok.inj h).symm, rfl⟩

theorem exists_object_of_undescribed (h : undescribed "properties" t = .ok (.object entries)) :
    ∃ schemas, t = .object schemas := by
  cases t with
  | object schemas => exact ⟨schemas, rfl⟩
  | scalar | list | pair | set | enclosing =>
    rw [undescribed] at h
    · cases h
    all_goals simp

/-- Every schema below a schema is still there without its descriptions, whatever the names on its path. -/
theorem HasAt.withoutDescriptions (h : HasAt path t u) (ht : t.withoutDescriptions = .ok t') :
    ∃ v, HasAt path t' v ∧ u.withoutDescriptions = .ok v := by
  induction h generalizing t' with
  | here t => exact ⟨t', .here t', ht⟩
  | items hmem _ ih =>
    obtain ⟨kept, rfl, hkept⟩ := exists_entries_of_withoutDescriptions ht
    obtain ⟨⟨key, x⟩, hx, rfl, hvalue⟩ := exists_mem_of_forall₂ hkept (List.mem_filter.mpr ⟨hmem, by simp⟩)
    obtain ⟨v, hv, hu⟩ := ih (undescribed_items ▸ hvalue)
    exact ⟨v, .items hx hv, hu⟩
  | property hmem hschema _ ih =>
    obtain ⟨kept, rfl, hkept⟩ := exists_entries_of_withoutDescriptions ht
    obtain ⟨⟨key, x⟩, hx, rfl, hvalue⟩ := exists_mem_of_forall₂ hkept (List.mem_filter.mpr ⟨hmem, by simp⟩)
    obtain ⟨schemas', rfl, hschemas⟩ := exists_properties_of_undescribed hvalue
    obtain ⟨⟨name, y⟩, hy, rfl, hbelow⟩ := exists_mem_of_forall₂ (forall₂_of_withoutDescriptionProperties hschemas) hschema
    obtain ⟨v, hv, hu⟩ := ih hbelow
    exact ⟨v, .property hx hy hv, hu⟩

/-- Without descriptions no schemas are below a schema but those that have been there. -/
theorem HasAt.of_withoutDescriptions (h : HasAt path t' v) (ht : t.withoutDescriptions = .ok t') :
    ∃ u, HasAt path t u ∧ u.withoutDescriptions = .ok v := by
  induction h generalizing t with
  | here t' => exact ⟨t, .here t, ht⟩
  | items hmem _ ih =>
    obtain ⟨entries, rfl⟩ := exists_object_of_withoutDescriptions ht
    obtain ⟨kept, heq, hkept⟩ := exists_entries_of_withoutDescriptions ht
    obtain rfl := Tree.object.inj heq
    obtain ⟨⟨key, x⟩, hx, hkey, hvalue⟩ := exists_mem_of_forall₂_right hkept hmem
    obtain rfl : .text "items" = key := hkey
    obtain ⟨u, hu, hv⟩ := ih (undescribed_items ▸ hvalue)
    exact ⟨u, .items (List.mem_filter.mp hx).1 hu, hv⟩
  | property hmem hschema _ ih =>
    obtain ⟨entries, rfl⟩ := exists_object_of_withoutDescriptions ht
    obtain ⟨kept, heq, hkept⟩ := exists_entries_of_withoutDescriptions ht
    obtain rfl := Tree.object.inj heq
    obtain ⟨⟨key, x⟩, hx, hkey, hvalue⟩ := exists_mem_of_forall₂_right hkept hmem
    obtain rfl : .text "properties" = key := hkey
    obtain ⟨schemas, rfl⟩ := exists_object_of_undescribed hvalue
    obtain ⟨schemas', heq, hschemas⟩ := exists_properties_of_undescribed hvalue
    obtain rfl := Tree.object.inj heq
    obtain ⟨⟨name, y⟩, hy, rfl, hbelow⟩ :=
      exists_mem_of_forall₂_right (forall₂_of_withoutDescriptionProperties hschemas) hschema
    obtain ⟨u, hu, hv⟩ := ih hbelow
    exact ⟨u, .property (List.mem_filter.mp hx).1 hy hu, hv⟩

/-! ## The order of keys -/

/-- Below a schema stands the same whatever the order of its keys. -/
theorem HasAt.sortKeys (h : HasAt path t u) : HasAt path t.sortKeys u.sortKeys := by
  induction h with
  | here t => exact .here _
  | items hmem _ ih =>
    rw [sortKeys_object_eq_mergeSort]
    exact .items (List.mem_mergeSort.mpr (List.mem_map_of_mem hmem)) ih
  | @property _ _ schemas _ _ _ hmem hschema _ ih =>
    have hvalue := List.mem_map_of_mem (f := fun e : Scalar × Tree => (e.1, e.2.sortKeys)) hmem
    dsimp only at hvalue
    rw [sortKeys_object_eq_mergeSort] at hvalue ⊢
    exact .property (List.mem_mergeSort.mpr hvalue) (List.mem_mergeSort.mpr (List.mem_map_of_mem hschema)) ih

theorem HasAt.of_sortKeys (h : HasAt path t.sortKeys v) : ∃ u, HasAt path t u ∧ u.sortKeys = v := by
  generalize hsorted : t.sortKeys = t' at h
  induction h generalizing t with
  | here t' => exact ⟨t, .here t, hsorted⟩
  | items hmem _ ih =>
    obtain ⟨entries, rfl⟩ := exists_object_of_sortKeys hsorted
    rw [sortKeys_object_eq_mergeSort] at hsorted
    obtain rfl := Tree.object.inj hsorted
    obtain ⟨⟨key, x⟩, hx, heq⟩ := List.mem_map.mp (List.mem_mergeSort.mp hmem)
    obtain ⟨rfl, hvalue⟩ := Prod.mk.inj heq
    obtain ⟨u, hu, rfl⟩ := ih hvalue
    exact ⟨u, .items hx hu, rfl⟩
  | property hmem hschema _ ih =>
    obtain ⟨entries, rfl⟩ := exists_object_of_sortKeys hsorted
    rw [sortKeys_object_eq_mergeSort] at hsorted
    obtain rfl := Tree.object.inj hsorted
    obtain ⟨⟨key, x⟩, hx, heq⟩ := List.mem_map.mp (List.mem_mergeSort.mp hmem)
    obtain ⟨rfl, hvalue⟩ := Prod.mk.inj heq
    obtain ⟨schemas, rfl⟩ := exists_object_of_sortKeys hvalue
    rw [sortKeys_object_eq_mergeSort] at hvalue
    obtain rfl := Tree.object.inj hvalue
    obtain ⟨⟨name, y⟩, hy, heq⟩ := List.mem_map.mp (List.mem_mergeSort.mp hschema)
    obtain ⟨rfl, hbelow⟩ := Prod.mk.inj heq
    obtain ⟨u, hu, rfl⟩ := ih hbelow
    exact ⟨u, .property hx hy hu, rfl⟩

/-- Schemas that agree have schemas that agree at the same places. -/
theorem AgreesWith.exists_hasAt (h : t.AgreesWith t') (hu : HasAt path t u) :
    ∃ u', HasAt path t' u' ∧ u.AgreesWith u' := by
  obtain ⟨w, w', ht, ht', hsorted⟩ := h
  obtain ⟨v, hv, hu⟩ := hu.withoutDescriptions ht
  obtain ⟨v', hv', heq⟩ := (hsorted ▸ hv.sortKeys).of_sortKeys
  obtain ⟨u', hu', hshown⟩ := hv'.of_withoutDescriptions ht'
  exact ⟨u', hu', v, v', hu, hshown, heq.symm⟩

/-- A scalar is what stood under the keyword before. -/
theorem eq_scalar_of_undescribed {key a : Scalar} (h : undescribed key t = .ok (.scalar a)) : t = .scalar a := by
  rcases undescribed_cases h with ⟨-, _, _, -, heq, -⟩ | ⟨-, hitems⟩ | ⟨-, _, _, -, heq, -⟩ | heq
  · cases heq
  · cases t with
    | object entries =>
      obtain ⟨kept, heq, -⟩ := exists_entries_of_withoutDescriptions hitems
      cases heq
    | scalar | list | pair | set | enclosing =>
      rw [Tree.withoutDescriptions] at hitems
      · exact Except.ok.inj hitems
      · simp
  · cases heq
  · exact heq.symm

theorem eq_scalar_of_sortKeys {a : Scalar} (h : t.sortKeys = .scalar a) : t = .scalar a := by
  cases t with
  | object entries => rw [sortKeys_object_eq_mergeSort] at h; cases h
  | list items => rw [sortKeys_list] at h; cases h
  | _ => exact h

/-- What agrees with an object is an object with the same scalars under the same keys, its description aside. -/
theorem AgreesWith.exists_scalar {key a : Scalar} (h : (Tree.object entries).AgreesWith t')
    (hmem : (key, .scalar a) ∈ entries) (hkey : key ≠ .text "description") :
    ∃ entries', t' = .object entries' ∧ (key, .scalar a) ∈ entries' := by
  obtain ⟨w, w', ht, ht', hsorted⟩ := h
  obtain ⟨kept, rfl, hkept⟩ := exists_entries_of_withoutDescriptions ht
  obtain ⟨⟨_, x⟩, hx, rfl, hvalue⟩ := exists_mem_of_forall₂ hkept (List.mem_filter.mpr ⟨hmem, by simpa using hkey⟩)
  obtain rfl : x = .scalar a := by
    rw [undescribed] at hvalue
    · exact (Except.ok.inj hvalue).symm
    all_goals simp
  rw [sortKeys_object_eq_mergeSort] at hsorted
  obtain ⟨kept', rfl⟩ := exists_object_of_sortKeys hsorted.symm
  obtain ⟨entries', rfl⟩ := exists_object_of_withoutDescriptions ht'
  obtain ⟨_, heq, hkept'⟩ := exists_entries_of_withoutDescriptions ht'
  obtain rfl := Tree.object.inj heq
  -- Both objects show the scalar once their keys are in order.
  rw [sortKeys_object_eq_mergeSort] at hsorted
  have hin := List.mem_map_of_mem (f := fun e : Scalar × Tree => (e.1, e.2.sortKeys)) hx
  rw [← (List.mergeSort_perm _ keyOrder).mem_iff, Tree.object.inj hsorted, List.mem_mergeSort] at hin
  obtain ⟨⟨_, y⟩, hy, heq⟩ := List.mem_map.mp hin
  obtain ⟨rfl, hscalar⟩ := Prod.mk.inj heq
  obtain ⟨⟨_, z⟩, hz, rfl, hvalue'⟩ := exists_mem_of_forall₂_right hkept' hy
  obtain rfl := eq_scalar_of_undescribed (hvalue'.trans (congrArg Except.ok (eq_scalar_of_sortKeys hscalar)))
  exact ⟨entries', rfl, (List.mem_filter.mp hz).1⟩

/-- **Shape keys do not show descriptions.** Schemas that differ only in descriptions of the schemas that are visited
have the same shape key. The shape key is the text of a schema that has a schema at exactly the same places, whatever
the names of the properties: schemas with one shape key that can be read back have schemas that agree at the same
places. -/
theorem shapeKey_hides_descriptions (t t' : Tree) :
    (DiffersInDescriptions .visited t t' → t.shapeKey = t'.shapeKey) ∧
      (∀ key : String, t.shapeKey = .ok key → ∃ shown, Json.write Json.sortedLine shown = .ok key ∧
        ∀ path v, HasAt path shown v ↔ ∃ u, HasAt path t u ∧ u.withoutDescriptions = .ok v) ∧
      (t.HasReadableShape → t'.HasReadableShape → t.shapeKey = t'.shapeKey →
        ∀ path u, HasAt path t u → ∃ u', HasAt path t' u' ∧ u.AgreesWith u') := by
  refine ⟨fun h => ?_, fun key hkey => ?_, fun ht ht' hkey path u hu => ?_⟩
  · rw [shapeKey, shapeKey, ← withoutDescriptions_undescribedSchema t, ← withoutDescriptions_undescribedSchema t', h]
  · rw [shapeKey] at hkey
    cases hshown : t.withoutDescriptions with
    | error m =>
      rw [hshown] at hkey
      cases hkey
    | ok shown =>
      rw [hshown] at hkey
      refine ⟨shown, hkey, fun path v => ⟨fun hv => hv.of_withoutDescriptions hshown, ?_⟩⟩
      rintro ⟨u, hu, huv⟩
      obtain ⟨v', hv', huv'⟩ := hu.withoutDescriptions hshown
      obtain rfl : v' = v := Except.ok.inj (huv'.symm.trans huv)
      exact hv'
  · exact (agreesWith_of_shapeKey_eq ht ht' hkey).exists_hasAt hu

/-- A schema with descriptions everywhere, one of them that of a property with the name `description`. -/
def describedShape : Tree :=
  .ofFields
    [("type", .text "object"), ("description", .text "A reading"),
     ("properties", .ofFields
       [("description", .ofFields [("type", .text "string"), ("description", .text "What is read")]),
        ("Values", .ofFields
          [("type", .text "array"), ("items", .ofFields [("description", .text "One of them"), ("type", .text "number")])])])]

/-- The same schema with another description and without the others. -/
def plainShape : Tree :=
  .ofFields
    [("type", .text "object"),
     ("properties", .ofFields
       [("description", .ofFields [("type", .text "string"), ("description", .text "A text")]),
        ("Values", .ofFields [("type", .text "array"), ("items", .ofFields [("type", .text "number")])])])]

theorem hasReadableShape_describedShape : describedShape.HasReadableShape where
  exact := by decide +kernel
  names := by
    simp only [describedShape, ofFields, requiresNames_object]
    simp
    rintro _ _ (⟨-, rfl⟩ | ⟨-, rfl⟩) <;> simp [requiresNames_object]
  depth_le := by decide

theorem hasReadableShape_plainShape : plainShape.HasReadableShape where
  exact := by decide
  names := by
    simp only [plainShape, ofFields, requiresNames_object]
    simp
    rintro _ _ (⟨-, rfl⟩ | ⟨-, rfl⟩) <;> simp [requiresNames_object]
  depth_le := by decide

theorem shapeKey_hides_descriptions_plainShape :
    DiffersInDescriptions .visited describedShape plainShape ∧ describedShape.shapeKey = plainShape.shapeKey ∧
      describedShape.HasReadableShape ∧ plainShape.HasReadableShape ∧
      ∃ u, HasAt [.property "description"] plainShape u := by
  have hsame : DiffersInDescriptions .visited describedShape plainShape := rfl
  obtain ⟨hsameKey, -, hagree⟩ := shapeKey_hides_descriptions describedShape plainShape
  have hkey := hsameKey hsame
  have hat : HasAt [.property "description"] describedShape
      (.ofFields [("type", .text "string"), ("description", .text "What is read")]) :=
    .property (.tail _ (.tail _ (.head _))) (.head _) (.here _)
  obtain ⟨u, hu, -⟩ := hagree hasReadableShape_describedShape hasReadableShape_plainShape hkey _ _ hat
  exact ⟨hsame, hkey, hasReadableShape_describedShape, hasReadableShape_plainShape, u, hu⟩

/-- Shape keys show the descriptions of schemas that stand under other keywords: these schemas differ in nothing but
the description of the schema of additional properties. -/
theorem shapeKey_shows_descriptions :
    ∃ t t' : Tree, t.IsJson ∧ t'.IsJson ∧ DiffersInDescriptions .all t t' ∧ t.shapeKey ≠ t'.shapeKey := by
  let shape (description : String) : Tree :=
    .ofFields
      [("type", .text "object"),
       ("additionalProperties", .ofFields [("type", .text "string"), ("description", .text description)])]
  refine ⟨shape "a", shape "b", ?_, ?_, ?_, ?_⟩
  · decide
  · decide
  · rfl
  · have hne : (shape "a").shapeKey.toOption ≠ (shape "b").shapeKey.toOption := by decide
    exact fun h => hne (congrArg Except.toOption h)

end Tree

end DeviceApi
