import DeviceApi.Proofs.Schema.Bare
import DeviceApi.Proofs.Schema.Fitting

/-!
# Canonical form in any order

The canonical form of a schema is made of what the schema keeps, with the schemas below in canonical form. If the keys
of a tree are brought into another order, then so are those of its canonical form, and nothing else changes.
-/

namespace DeviceApi

namespace Tree

variable {t t' u v : Tree} {type : Scalar} {name : String} {e : Scalar × Tree}
  {entries entries' : List (Scalar × Tree)}

/-! ## The canonical form of an object -/

/-- The value that an entry of a schema has in the canonical form of the schema, if it is kept. -/
def canonicalValue (type : Scalar) (e : Scalar × Tree) : Tree :=
  if type = .text "array" ∧ e.1 = .text "items" then e.2.canonical
  else
    match e.2 with
    | .object schemas =>
      if type = .text "object" ∧ e.1 = .text "properties" then .object (schemas.map fun e => (e.1, e.2.canonical))
      else .object schemas
    | t => t

theorem canonicalValue_other (hitems : e.1 ≠ .text "items") (hproperties : e.1 ≠ .text "properties") :
    canonicalValue type e = e.2 := by
  rw [canonicalValue, if_neg (by simp [hitems])]
  split
  · next heq => rw [if_neg (by simp [hproperties]), heq]
  · rfl

/-- The canonical form of a schema is made of what it keeps. -/
theorem canonical_eq (hown : Entries.has entries referenceKey = false) (hnodup : (Entries.keys entries).Nodup)
    (hfits : (Tree.object entries).Fits) : canonical (.object entries) =
      .object ((concise entries).map fun e => (e.1, canonicalValue (schemaType entries) e)) := by
  have hplain : ∀ type, type ≠ .text "array" → type ≠ .text "object" → ∀ e : Scalar × Tree,
      (e.1, canonicalValue type e) = e := by
    intro type harray hobject e
    rw [canonicalValue, if_neg (by simp [harray])]
    split
    · next heq => rw [if_neg (by simp [hobject]), ← heq]
    · rfl
  rw [canonical, if_neg (by simp [hown])]
  split
  · next htype =>
    rw [concise_eq_self (by simp [htype]), Store.canonicalItems_eq]
    refine congrArg object (List.map_congr_left fun e _ => congrArg (e.1, ·) ?_)
    rw [canonicalValue]
    by_cases hkey : e.1 = .text "items"
    · rw [if_pos hkey, if_pos ⟨htype, hkey⟩]
    · rw [if_neg hkey, if_neg (by simp [hkey])]
      split
      · next heq => rw [if_neg (by simp [htype]), heq]
      · rfl
  · next htype =>
    rw [concise_eq_self (by simp [htype]), Store.canonicalProperties_eq]
    refine congrArg object (List.map_congr_left fun e _ => congrArg (e.1, ·) ?_)
    rw [canonicalValue, if_neg (by simp [htype])]
    cases e.2 with
    | object schemas =>
      dsimp only
      by_cases hkey : e.1 = .text "properties"
      · rw [if_pos hkey, if_pos ⟨htype, hkey⟩, Store.canonicalSchemas_eq]
      · rw [if_neg hkey, if_neg (by simp [hkey])]
    | _ => rfl
  · next harray hobject =>
    obtain ⟨c, hc⟩ := hfits.exists_canonicalOfType hown
    rw [hc, canonicalOfType_eq_concise hnodup hc, List.map_congr_left fun e _ => hplain _ harray hobject e, List.map_id']

theorem canonical_reference (hown : Entries.has entries referenceKey = true) :
    canonical (.object entries) = .object entries := by
  rw [canonical, if_pos hown]

theorem canonical_of_not_object (h : ∀ entries, t ≠ .object entries) : t.canonical = t := by
  cases t with
  | object entries => exact absurd rfl (h entries)
  | _ => rfl

/-! ## Entries that are kept -/

theorem mem_stated_cases (he : e ∈ stated entries) :
    e ∈ entries ∨ e = (.text "format", .text defaultIntegerFormat) := by
  unfold stated at he
  split at he
  · exact (List.mem_append.mp he).imp_right List.mem_singleton.mp
  · exact .inl he

theorem textKeyed_stated (h : Entries.TextKeyed entries) : Entries.TextKeyed (stated entries) where
  exists_text key hkey := by
    obtain ⟨e, he, rfl⟩ := List.mem_map.mp hkey
    rcases mem_stated_cases he with hmem | rfl
    · exact h.exists_text e.1 (List.mem_map_of_mem hmem)
    · exact ⟨_, rfl⟩
  nodup := nodup_stated h.nodup

/-- What is kept comes from the schema, or it is the format that an integer has anyway. -/
theorem mem_concise_cases (he : e ∈ concise entries) :
    e ∈ entries ∨ e = (.text "format", .text defaultIntegerFormat) :=
  mem_stated_cases (List.mem_filter.mp he).1

theorem textKeyed_concise (h : Entries.TextKeyed entries) : Entries.TextKeyed (concise entries) :=
  (textKeyed_stated h).of_sublist (List.filter_sublist.map _)

section

variable (hkeyed : Entries.TextKeyed entries) (hperm : entries.Perm entries')
include hkeyed hperm

theorem has_eq_of_perm : Entries.has entries' (.text name) = Entries.has entries (.text name) := by
  rw [Entries.has, Entries.has, Entries.get?_eq_of_perm hkeyed hperm]

theorem schemaType_eq_of_perm : schemaType entries' = schemaType entries := by
  rw [schemaType, schemaType, Entries.get?_eq_of_perm hkeyed hperm]

theorem stated_perm : (stated entries).Perm (stated entries') := by
  rw [stated, stated, schemaType_eq_of_perm hkeyed hperm, has_eq_of_perm hkeyed hperm]
  split
  · exact hperm.append_right _
  · exact hperm

/-- A schema keeps the same whatever the order of its keys. -/
theorem concise_perm : (concise entries).Perm (concise entries') := by
  have hstated := stated_perm hkeyed hperm
  have hkeyed' := textKeyed_stated hkeyed
  rw [concise, concise, restates_congr (schemaType_eq_of_perm hkeyed' hstated)
    (Entries.get?_eq_of_perm hkeyed' hstated)]
  exact hstated.filter _

end

/-! ## Keys in order -/

theorem scalar?_sortKeys : t.sortKeys.scalar? = t.scalar? := by
  cases t with
  | list items => rw [sortKeys_list]; rfl
  | object entries => rw [sortKeys_object_eq_mergeSort]; rfl
  | _ => rfl

theorem isTruthy_sortKeys : t.sortKeys.isTruthy = t.isTruthy := by
  cases t with
  | list items => rw [sortKeys_list]; cases items <;> rfl
  | object entries =>
    rw [sortKeys_object_eq_mergeSort, isTruthy, isTruthy, (List.mergeSort_perm _ keyOrder).isEmpty_eq, List.isEmpty_map]
  | _ => rfl

theorem schemaType_map_sortKeys :
    schemaType (entries.map fun e => (e.1, e.2.sortKeys)) = schemaType entries := by
  rw [schemaType, Entries.get?_map, schemaType]
  cases Entries.get? "type" entries with
  | none => rfl
  | some t => exact congrArg (Option.getD · .null) scalar?_sortKeys

theorem has_map_sortKeys {key : Scalar} :
    Entries.has (entries.map fun e => (e.1, e.2.sortKeys)) key = Entries.has entries key := by
  rw [Entries.has, Entries.get?_map, Option.isSome_map, Entries.has]

theorem stated_map_sortKeys : stated (entries.map fun e => (e.1, e.2.sortKeys)) =
    (stated entries).map fun e => (e.1, e.2.sortKeys) := by
  rw [stated, stated, schemaType_map_sortKeys, has_map_sortKeys]
  split
  · rw [List.map_append]
    rfl
  · rfl

/-- What a schema keeps does not depend on the order of the keys below it. -/
theorem concise_map_sortKeys : concise (entries.map fun e => (e.1, e.2.sortKeys)) =
    (concise entries).map fun e => (e.1, e.2.sortKeys) := by
  have hbounds : formatBounds? ((stated entries).map fun e => (e.1, e.2.sortKeys)) = formatBounds? (stated entries) := by
    rw [formatBounds?, formatBounds?, schemaType_map_sortKeys, Entries.get?_map]
    cases Entries.get? "format" (stated entries) with
    | none => rfl
    | some t => simp only [Option.map_some, Option.bind_some, scalar?_sortKeys]
  rw [concise, concise, stated_map_sortKeys, List.filter_map]
  refine congrArg _ (List.filter_congr fun e _ => ?_)
  simp only [Function.comp_apply, restates, schemaType_map_sortKeys, scalar?_sortKeys, hbounds]

/-! ## Schemas below -/

section

variable (ht : (Tree.object entries).IsJson) (hfits : (Tree.object entries).Fits)
  (hown : Entries.has entries referenceKey = false) (he : e ∈ entries)
include ht hfits hown he

theorem fits_items (htype : schemaType entries = .text "array") (hkey : e.1 = .text "items") :
    ∀ fields, e.2 = .object fields → e.2.Fits := by
  intro fields hfields
  have hmem : (.text "items", .object fields) ∈ entries := by rwa [← hkey, ← hfields]
  rw [hfields]
  exact (fits_array_iff hown htype).mp hfits fields (Entries.get?_of_mem ht.1.nodup hmem)

theorem fits_property {schemas : List (Scalar × Tree)} {x : Scalar × Tree}
    (htype : schemaType entries = .text "object") (hkey : e.1 = .text "properties") (hschemas : e.2 = .object schemas)
    (hx : x ∈ schemas) : x.2.Fits := by
  have hmem : (.text "properties", .object schemas) ∈ entries := by rwa [← hkey, ← hschemas]
  have hproperties := (fits_object_iff hown htype).mp hfits _ (Entries.get?_of_mem ht.1.nodup hmem)
  exact hproperties.2 schemas rfl x.2 (List.mem_map_of_mem hx)

end

/-- The canonical form of a JSON tree is a JSON tree. -/
theorem IsJson.canonical (ht : t.IsJson) (hfits : ∀ entries, t = .object entries → t.Fits) : t.canonical.IsJson := by
  induction hsize : sizeOf t using Nat.strong_induction_on generalizing t with
  | _ n ih =>
    subst hsize
    cases t with
    | object entries =>
      have hfits := hfits entries rfl
      cases hown : Entries.has entries referenceKey with
      | true =>
        rw [canonical_reference hown]
        exact ht
      | false =>
        rw [canonical_eq hown ht.1.nodup hfits]
        refine ⟨(textKeyed_concise ht.1).of_keys_perm (.of_eq Entries.keys_map_value),
          entriesAreJson_iff.mpr fun e' he' => ?_⟩
        obtain ⟨e, he, rfl⟩ := List.mem_map.mp he'
        rcases mem_concise_cases he with hmem | rfl
        · have hjson := entriesAreJson_iff.mp ht.2 e hmem
          have hlt : sizeOf e.2 < sizeOf (object entries) := sizeOf_entry_lt hmem
          dsimp only
          rw [canonicalValue]
          split
          · next hitems => exact ih _ hlt hjson (fits_items ht hfits hown hmem hitems.1 hitems.2) rfl
          · split
            · next schemas hschemas =>
              rw [hschemas] at hjson hlt
              split
              · next hproperties =>
                refine ⟨hjson.1.of_keys_perm (.of_eq Entries.keys_map_value), entriesAreJson_iff.mpr fun x' hx' => ?_⟩
                obtain ⟨x, hx, rfl⟩ := List.mem_map.mp hx'
                exact ih _ ((sizeOf_entry_lt hx).trans hlt) (entriesAreJson_iff.mp hjson.2 x hx)
                  (fun _ _ => fits_property ht hfits hown hmem hproperties.1 hproperties.2 hschemas hx) rfl
              · exact hjson
            · exact hjson
        · exact canonicalValue_other (e := (.text "format", .text defaultIntegerFormat)) (by decide) (by decide) ▸ trivial
    | _ => exact ht

/-! ## The order of keys -/

theorem schemaType_mergeSort_sortKeys (h : Entries.TextKeyed entries) :
    schemaType ((entries.map fun e => (e.1, e.2.sortKeys)).mergeSort keyOrder) = schemaType entries := by
  exact (schemaType_eq_of_perm (textKeyed_map_sortKeys h) (List.mergeSort_perm _ keyOrder).symm).trans
    schemaType_map_sortKeys

theorem has_mergeSort_sortKeys (h : Entries.TextKeyed entries) :
    Entries.has ((entries.map fun e => (e.1, e.2.sortKeys)).mergeSort keyOrder) (.text name) =
      Entries.has entries (.text name) := by
  exact (has_eq_of_perm (textKeyed_map_sortKeys h) (List.mergeSort_perm _ keyOrder).symm).trans has_map_sortKeys

/-- Whether a tree fits does not depend on the order of keys. -/
theorem fits_sortKeys_iff (ht : t.IsJson) : t.sortKeys.Fits ↔ t.Fits := by
  induction hsize : sizeOf t using Nat.strong_induction_on generalizing t with
  | _ n ih =>
    subst hsize
    cases t with
    | object entries =>
      have hkeyed : Entries.TextKeyed entries := ht.1
      have htype := schemaType_mergeSort_sortKeys hkeyed
      have hhas : Entries.has ((entries.map fun e => (e.1, e.2.sortKeys)).mergeSort keyOrder) referenceKey =
          Entries.has entries referenceKey := has_mergeSort_sortKeys hkeyed
      have hget := fun key => @get?_mergeSort_sortKeys _ key hkeyed
      rw [sortKeys_object_eq_mergeSort]
      generalize (entries.map fun e => (e.1, e.2.sortKeys)).mergeSort keyOrder = sorted at htype hhas hget ⊢
      cases hown : Entries.has entries referenceKey with
      | true => exact iff_of_true (.reference (hhas.trans hown)) (.reference hown)
      | false =>
        have hown' : Entries.has sorted referenceKey = false := hhas.trans hown
        by_cases harray : schemaType entries = .text "array"
        · rw [fits_array_iff hown harray, fits_array_iff hown' (htype.trans harray), hget]
          cases hitems : Entries.get? (.text "items") entries with
          | none => simp
          | some u =>
            have hmem := Entries.mem_of_get? hitems
            have hfits := ih _ (sizeOf_entry_lt hmem) (entriesAreJson_iff.mp ht.2 _ hmem) rfl
            simp only [Option.map_some, Option.some.injEq]
            constructor
            · rintro h fields rfl
              rw [sortKeys_object_eq_mergeSort] at hfits
              exact hfits.mp (h _ sortKeys_object_eq_mergeSort)
            · intro h fields hu
              obtain ⟨fields', rfl⟩ := exists_object_of_sortKeys hu
              exact hu ▸ hfits.mpr (h fields' rfl)
        by_cases hobject : schemaType entries = .text "object"
        · rw [fits_object_iff hown hobject, fits_object_iff hown' (htype.trans hobject), hget]
          cases hproperties : Entries.get? (.text "properties") entries with
          | none => simp
          | some u =>
            simp only [Option.map_some, Option.some.injEq, forall_eq', isTruthy_sortKeys]
            have hmem := Entries.mem_of_get? hproperties
            have hjson := entriesAreJson_iff.mp ht.2 _ hmem
            cases u with
            | object schemas =>
              have hperm := List.mergeSort_perm (schemas.map fun e => (e.1, e.2.sortKeys)) keyOrder
              have hfits : ∀ e ∈ schemas, e.2.sortKeys.Fits ↔ e.2.Fits := fun e he =>
                ih _ ((sizeOf_entry_lt he).trans (sizeOf_entry_lt hmem)) (entriesAreJson_iff.mp hjson.2 e he) rfl
              have hvalues : (∀ u ∈ Entries.values ((schemas.map fun e => (e.1, e.2.sortKeys)).mergeSort keyOrder),
                  u.Fits) ↔ ∀ e ∈ schemas, e.2.sortKeys.Fits := by
                simp only [Entries.values, List.forall_mem_map, hperm.mem_iff]
              rw [sortKeys_object_eq_mergeSort]
              simp only [object.injEq, exists_eq', or_true, true_and, forall_eq', hvalues]
              simp only [Entries.values, List.forall_mem_map]
              exact forall₂_congr hfits
            | list items => simp [sortKeys_list]
            | scalar | pair | set | enclosing => simp [sortKeys]
        · rw [fits_plain_iff hown harray hobject, fits_plain_iff hown' (htype ▸ harray) (htype ▸ hobject), htype, hget]
          cases Entries.get? (.text "format") entries with
          | none => simp
          | some u => simp [scalar?_sortKeys]
    | list items => rw [sortKeys_list]; exact iff_of_false (fun h => by cases h) (fun h => by cases h)
    | _ => exact Iff.rfl

/-- Objects are the same in the order of their keys if each has the entries of the other and the values are. -/
theorem sortKeys_object_congr {f f' : Scalar × Tree → Tree} (hkeyed : Entries.TextKeyed entries)
    (hperm : entries.Perm entries') (hf : ∀ e ∈ entries, (f e).sortKeys = (f' e).sortKeys) :
    (Tree.object (entries.map fun e => (e.1, f e))).sortKeys =
      (Tree.object (entries'.map fun e => (e.1, f' e))).sortKeys := by
  have hkeyed' : Entries.TextKeyed ((entries.map fun e => (e.1, f e)).map fun e => (e.1, e.2.sortKeys)) :=
    (hkeyed.of_keys_perm (.of_eq Entries.keys_map_value)).of_keys_perm (.of_eq Entries.keys_map_value)
  have hsame : (entries.map fun e => (e.1, f e)).map (fun e => (e.1, e.2.sortKeys)) =
      (entries.map fun e => (e.1, f' e)).map fun e => (e.1, e.2.sortKeys) := by
    rw [List.map_map, List.map_map]
    exact List.map_congr_left fun e he => congrArg (e.1, ·) (hf e he)
  rw [sortKeys_object_eq_mergeSort, sortKeys_object_eq_mergeSort]
  refine congrArg Tree.object (Entries.mergeSort_eq_of_perm hkeyed' ?_)
  rw [hsame]
  exact (hperm.map _).map _

/-- The canonical value of an entry is the same up to the order of keys if those of the schemas below are. -/
theorem sortKeys_canonicalValue (ht : e.2.IsJson)
    (hitems : type = .text "array" → e.1 = .text "items" → e.2.sortKeys.canonical.sortKeys = e.2.canonical.sortKeys)
    (hproperties : type = .text "object" → e.1 = .text "properties" → ∀ schemas, e.2 = .object schemas →
      ∀ x ∈ schemas, x.2.sortKeys.canonical.sortKeys = x.2.canonical.sortKeys) :
    (canonicalValue type (e.1, e.2.sortKeys)).sortKeys = (canonicalValue type e).sortKeys := by
  obtain ⟨key, t⟩ := e
  dsimp only at ht hitems hproperties ⊢
  rw [canonicalValue, canonicalValue]
  dsimp only
  by_cases harray : type = .text "array" ∧ key = .text "items"
  · rw [if_pos harray, if_pos harray, hitems harray.1 harray.2]
  rw [if_neg harray, if_neg harray]
  cases t with
  | object schemas =>
    have hself := sortKeys_sortKeys ht
    have hkeyed := textKeyed_map_sortKeys ht.1
    have hperm := List.mergeSort_perm (schemas.map fun e => (e.1, e.2.sortKeys)) keyOrder
    rw [sortKeys_object_eq_mergeSort] at hself ⊢
    dsimp only
    by_cases hobject : type = .text "object" ∧ key = .text "properties"
    · rw [if_pos hobject, if_pos hobject, sortKeys_object_congr (hkeyed.perm hperm.symm) hperm fun _ _ => rfl,
        List.map_map]
      exact sortKeys_object_congr ht.1 (.refl _) (hproperties hobject.1 hobject.2 schemas rfl)
    · rw [if_neg hobject, if_neg hobject, hself, sortKeys_object_eq_mergeSort]
  | list items =>
    rw [sortKeys_list]
    exact sortKeys_list ▸ sortKeys_sortKeys ht
  | scalar a => rfl
  | pair | set | enclosing => exact ht.elim

/-- Bringing the keys of a schema into order before its canonical form makes no difference but for their order. -/
theorem sortKeys_canonical_sortKeys (ht : t.IsJson) (hfits : ∀ entries, t = .object entries → t.Fits) :
    t.sortKeys.canonical.sortKeys = t.canonical.sortKeys := by
  induction hsize : sizeOf t using Nat.strong_induction_on generalizing t with
  | _ n ih =>
    subst hsize
    cases t with
    | object entries =>
      have hfits := hfits entries rfl
      have hkeyed : Entries.TextKeyed entries := ht.1
      have hkeyed' := textKeyed_map_sortKeys hkeyed
      have hperm := List.mergeSort_perm (entries.map fun e => (e.1, e.2.sortKeys)) keyOrder
      have hsorted := hkeyed'.perm hperm.symm
      have hhas : Entries.has ((entries.map fun e => (e.1, e.2.sortKeys)).mergeSort keyOrder) referenceKey =
          Entries.has entries referenceKey := has_mergeSort_sortKeys hkeyed
      have hself := sortKeys_sortKeys ht
      have hfits' := (fits_sortKeys_iff ht).mpr hfits
      rw [sortKeys_object_eq_mergeSort] at hself hfits' ⊢
      cases hown : Entries.has entries referenceKey with
      | true => rw [canonical_reference (hhas.trans hown), canonical_reference hown, hself, sortKeys_object_eq_mergeSort]
      | false =>
        rw [canonical_eq (hhas.trans hown) hsorted.nodup hfits', canonical_eq hown hkeyed.nodup hfits,
          schemaType_mergeSort_sortKeys hkeyed]
        have hkept := (concise_perm hkeyed' hperm.symm).symm
        rw [concise_map_sortKeys] at hkept
        rw [sortKeys_object_congr (textKeyed_concise hsorted) hkept fun _ _ => rfl, List.map_map]
        refine sortKeys_object_congr (textKeyed_concise hkeyed) (.refl _) fun e he => ?_
        rcases mem_concise_cases he with hmem | rfl
        · have hlt : sizeOf e.2 < sizeOf (object entries) := sizeOf_entry_lt hmem
          have hjson := entriesAreJson_iff.mp ht.2 e hmem
          exact sortKeys_canonicalValue hjson
            (fun htype hkey => ih _ hlt hjson (fits_items ht hfits hown hmem htype hkey) rfl)
            fun htype hkey schemas hschemas x hx =>
              have hjson' : (Tree.object schemas).IsJson := hschemas ▸ hjson
              have hlt' : sizeOf (object schemas) < sizeOf (object entries) := hschemas ▸ hlt
              ih _ ((sizeOf_entry_lt hx).trans hlt') (entriesAreJson_iff.mp hjson'.2 x hx)
                (fun _ _ => fits_property ht hfits hown hmem htype hkey hschemas hx) rfl
        · rfl
    | list items =>
      rw [sortKeys_list, canonical_of_not_object (by simp), canonical_of_not_object (by simp), ← sortKeys_list,
        sortKeys_sortKeys ht]
    | scalar a => rfl
    | pair | set | enclosing => exact ht.elim

end Tree

end DeviceApi
