import DeviceApi.Proofs.Json.Reordering
import DeviceApi.Proofs.Schema.Shapes

/-!
# Bare schemas

The shape key of a schema is the text of the bare schema: without descriptions, with required names in order and with
the keys of every object in order. The bare schema is made from those of the schemas below. It does not depend on the
order of keys, and neither does whether there is one.
-/

namespace DeviceApi

/-- What holds of all items holds of the sorted ones. -/
theorem Sorting.forall_of_sort {ε α : Type} {less : α → α → Except ε Bool} {P : α → Prop} {items answer : List α}
    (h : ∀ x ∈ items, P x) (hsort : sort less items = .ok answer) : ∀ x ∈ answer, P x := by
  obtain ⟨xs, rfl⟩ : ∃ xs : List { x : α // P x }, items = xs.map Subtype.val :=
    ⟨items.attach.map fun x => ⟨x.1, h x.1 x.2⟩, by simp⟩
  rw [sort_map] at hsort
  cases hsorted : sort (fun x y : { x : α // P x } => less x.1 y.1) xs with
  | error m =>
    rw [hsorted] at hsort
    cases hsort
  | ok ys =>
    rw [hsorted] at hsort
    obtain rfl := Except.ok.inj hsort
    intro x hx
    obtain ⟨y, -, rfl⟩ := List.mem_map.mp hx
    exact y.2

namespace Tree

variable {t u v : Tree} {items : List Tree} {entries entries' : List (Scalar × Tree)} {key : Scalar}
  {values values' : List (Scalar × Option Tree)}

/-! ## Schemas without descriptions -/

/-- The entries of a schema without descriptions come one by one from those that are no descriptions. -/
theorem forall₂_of_withoutDescriptionEntries (h : withoutDescriptionEntries entries = .ok entries') :
    List.Forall₂ (fun e e' => e'.1 = e.1 ∧ undescribed e.1 e.2 = .ok e'.2)
      (entries.filter fun e => decide (e.1 ≠ .text "description")) entries' := by
  induction entries generalizing entries' with
  | nil =>
    rw [withoutDescriptionEntries] at h
    obtain rfl := Except.ok.inj h
    exact .nil
  | cons e rest ih =>
    obtain ⟨key, t⟩ := e
    rw [withoutDescriptionEntries] at h
    by_cases hkey : key = .text "description"
    · rw [if_pos hkey] at h
      rw [List.filter_cons_of_neg (by simpa using hkey)]
      exact ih h
    · rw [if_neg hkey] at h
      rw [List.filter_cons_of_pos (by simpa using hkey)]
      cases hvalue : undescribed key t with
      | error m =>
        rw [hvalue] at h
        cases h
      | ok v =>
        cases hrest : withoutDescriptionEntries rest with
        | error m =>
          rw [hvalue, hrest] at h
          cases h
        | ok kept =>
          rw [hvalue, hrest] at h
          obtain rfl := Except.ok.inj h
          exact .cons ⟨rfl, hvalue⟩ (ih hrest)

/-- The schemas of properties without descriptions come one by one from the schemas. -/
theorem forall₂_of_withoutDescriptionProperties (h : withoutDescriptionProperties entries = .ok entries') :
    List.Forall₂ (fun e e' => e'.1 = e.1 ∧ e.2.withoutDescriptions = .ok e'.2) entries entries' := by
  induction entries generalizing entries' with
  | nil =>
    rw [withoutDescriptionProperties] at h
    obtain rfl := Except.ok.inj h
    exact .nil
  | cons e rest ih =>
    obtain ⟨name, t⟩ := e
    rw [withoutDescriptionProperties] at h
    cases hfirst : t.withoutDescriptions with
    | error m =>
      rw [hfirst] at h
      cases h
    | ok v =>
      cases hrest : withoutDescriptionProperties rest with
      | error m =>
        rw [hfirst, hrest] at h
        cases h
      | ok kept =>
        rw [hfirst, hrest] at h
        obtain rfl := Except.ok.inj h
        exact .cons ⟨rfl, hfirst⟩ (ih hrest)

/-- An object without descriptions is made of the entries that are no descriptions. -/
theorem exists_entries_of_withoutDescriptions (h : (Tree.object entries).withoutDescriptions = .ok u) :
    ∃ kept, u = .object kept ∧ List.Forall₂ (fun e e' => e'.1 = e.1 ∧ undescribed e.1 e.2 = .ok e'.2)
      (entries.filter fun e => decide (e.1 ≠ .text "description")) kept := by
  rw [Tree.withoutDescriptions] at h
  cases hentries : withoutDescriptionEntries entries with
  | error m =>
    rw [hentries] at h
    cases h
  | ok kept =>
    rw [hentries] at h
    exact ⟨kept, (Except.ok.inj h).symm, forall₂_of_withoutDescriptionEntries hentries⟩

theorem exists_object_of_withoutDescriptions (h : t.withoutDescriptions = .ok (.object entries)) :
    ∃ fields, t = .object fields := by
  cases t with
  | object fields => exact ⟨fields, rfl⟩
  | scalar | list | pair | set | enclosing =>
    rw [Tree.withoutDescriptions] at h
    · cases h
    · simp

theorem undescribed_items : undescribed "items" t = t.withoutDescriptions := by
  cases t <;> rw [undescribed, withoutDescriptions] <;> simp [pure, Except.pure]

/-- Only properties, items and required names change when descriptions are removed. -/
theorem undescribed_cases (h : undescribed key t = .ok u) :
    (key = .text "properties" ∧ ∃ schemas schemas', t = .object schemas ∧ u = .object schemas' ∧
        withoutDescriptionProperties schemas = .ok schemas') ∨
      (key = .text "items" ∧ t.withoutDescriptions = .ok u) ∨
      (key = .text "required" ∧ ∃ items sorted, t = .list items ∧ u = .list sorted ∧
        Sorting.sort less items = .ok sorted) ∨ u = t := by
  cases t with
  | object entries =>
    rw [undescribed] at h
    by_cases hproperties : key = .text "properties"
    · rw [if_pos hproperties] at h
      cases hschemas : withoutDescriptionProperties entries with
      | error m =>
        rw [hschemas] at h
        cases h
      | ok schemas =>
        rw [hschemas] at h
        exact .inl ⟨hproperties, entries, schemas, rfl, (Except.ok.inj h).symm, hschemas⟩
    rw [if_neg hproperties] at h
    by_cases hitems : key = .text "items"
    · rw [if_pos hitems] at h
      exact .inr (.inl ⟨hitems, by rw [Tree.withoutDescriptions, h]⟩)
    · rw [if_neg hitems] at h
      exact .inr (.inr (.inr (Except.ok.inj h).symm))
  | list items =>
    rw [undescribed] at h
    by_cases hrequired : key = .text "required"
    · rw [if_pos hrequired] at h
      cases hsort : Sorting.sort less items with
      | error m =>
        rw [hsort] at h
        cases h
      | ok sorted =>
        rw [hsort] at h
        exact .inr (.inr (.inl ⟨hrequired, items, sorted, rfl, (Except.ok.inj h).symm, hsort⟩))
    · rw [if_neg hrequired] at h
      exact .inr (.inr (.inr (Except.ok.inj h).symm))
  | scalar | pair | set | enclosing =>
    rw [undescribed] at h
    · exact .inr (.inr (.inr (Except.ok.inj h).symm))
    all_goals simp

/-- A schema without descriptions is a JSON tree like the schema. -/
theorem IsJson.withoutDescriptions (ht : t.IsJson) (h : t.withoutDescriptions = .ok u) : u.IsJson := by
  induction hsize : sizeOf t using Nat.strong_induction_on generalizing t u with
  | _ n ih =>
    subst hsize
    cases t with
    | object entries =>
      obtain ⟨kept, rfl, hkept⟩ := exists_entries_of_withoutDescriptions h
      have hkeyed : Entries.TextKeyed kept := (ht.1.filter (p := fun e => decide (e.1 ≠ .text "description"))).of_keys_perm
        (.of_eq (Entries.keys_eq_of_forall₂ hkept fun _ _ he => he.1))
      refine ⟨hkeyed, entriesAreJson_iff.mpr fun e' he' => ?_⟩
      obtain ⟨e, he, -, hvalue⟩ := exists_mem_of_forall₂_right hkept he'
      have hmem : e ∈ entries := (List.mem_filter.mp he).1
      have hjson := entriesAreJson_iff.mp ht.2 e hmem
      have hlt : sizeOf e.2 < sizeOf (object entries) := sizeOf_entry_lt hmem
      rcases undescribed_cases hvalue with ⟨-, schemas, schemas', hs, hs', hschemas⟩ | ⟨-, hitems⟩ |
        ⟨-, items, sorted, hl, hl', hsort⟩ | hsame
      · rw [hs] at hjson hlt
        rw [hs']
        have hbelow := forall₂_of_withoutDescriptionProperties hschemas
        refine ⟨hjson.1.of_keys_perm (.of_eq (Entries.keys_eq_of_forall₂ hbelow fun _ _ hx => hx.1)),
          entriesAreJson_iff.mpr fun x' hx' => ?_⟩
        obtain ⟨x, hx, -, hschema⟩ := exists_mem_of_forall₂_right hbelow hx'
        exact ih _ ((sizeOf_entry_lt hx).trans hlt) (entriesAreJson_iff.mp hjson.2 x hx) hschema rfl
      · exact ih _ hlt hjson hitems rfl
      · rw [hl] at hjson
        rw [hl']
        exact areJson_iff.mpr (Sorting.forall_of_sort (areJson_iff.mp hjson) hsort)
      · exact hsame ▸ hjson
    | scalar | list | pair | set | enclosing =>
      rw [Tree.withoutDescriptions] at h
      · exact Except.ok.inj h ▸ ht
      · simp

/-! ## Values under keys -/

/-- The entries with their values, if all of them have one. -/
def collect (values : List (Scalar × Option Tree)) : Option (List (Scalar × Tree)) :=
  if values.all fun e => e.2.isSome then some (values.filterMap fun e => e.2.map (e.1, ·)) else none

/-- The object of values with its keys in order, if all entries have a value. -/
def gather (values : List (Scalar × Option Tree)) : Option Tree :=
  (collect values).map fun kept => .object (kept.mergeSort keyOrder)

theorem collect_cons {o : Option Tree} :
    collect ((key, o) :: values) = o.bind fun v => (collect values).map ((key, v) :: ·) := by
  cases o with
  | none => rfl
  | some v =>
    simp only [collect, List.all_cons, Option.isSome_some, Bool.true_and, Option.bind_some]
    split <;> rfl

theorem keys_filterMap_sublist : (Entries.keys (values.filterMap fun e => e.2.map (e.1, ·))).Sublist
    (Entries.keys values) := by
  induction values with
  | nil => exact .slnil
  | cons e rest ih =>
    obtain ⟨key, o⟩ := e
    cases o with
    | none => exact ih.cons key
    | some v => exact ih.cons_cons key

/-- The order of the values makes no difference to their object. -/
theorem gather_eq_of_perm (hkeyed : Entries.TextKeyed values) (hperm : values.Perm values') :
    gather values = gather values' := by
  rw [gather, gather, collect, collect, hperm.all_eq]
  split
  · have hkept : Entries.TextKeyed (values.filterMap fun e => e.2.map (e.1, ·)) :=
      hkeyed.of_sublist keys_filterMap_sublist
    exact congrArg (fun kept => some (object kept)) (Entries.mergeSort_eq_of_perm hkept (hperm.filterMap _))
  · rfl

/-! ## Bare schemas -/

/-- The bare schema that a shape key is the text of. -/
def bare (t : Tree) : Option Tree := t.withoutDescriptions.toOption.map sortKeys

/-- The value that a keyword other than a description has in the bare schema. -/
def bareValue (key : Scalar) (t : Tree) : Option Tree := (undescribed key t).toOption.map sortKeys

/-- The values that the entries of a schema have in the bare schema. -/
def bareValues (entries : List (Scalar × Tree)) : List (Scalar × Option Tree) :=
  (entries.filter fun e => decide (e.1 ≠ .text "description")).map fun e => (e.1, bareValue e.1 e.2)

theorem collect_bareValues : collect (bareValues entries) =
    (withoutDescriptionEntries entries).toOption.map fun kept => kept.map fun e => (e.1, e.2.sortKeys) := by
  induction entries with
  | nil =>
    rw [withoutDescriptionEntries]
    rfl
  | cons e rest ih =>
    obtain ⟨key, t⟩ := e
    rw [bareValues] at ih ⊢
    rw [withoutDescriptionEntries]
    by_cases hkey : key = .text "description"
    · rw [if_pos hkey, List.filter_cons_of_neg (by simpa using hkey)]
      exact ih
    · rw [if_neg hkey, List.filter_cons_of_pos (by simpa using hkey), List.map_cons, collect_cons]
      rw [ih, bareValue]
      cases undescribed key t with
      | error m => rfl
      | ok v => cases withoutDescriptionEntries rest <;> rfl

theorem collect_bare : collect (entries.map fun e => (e.1, bare e.2)) =
    (withoutDescriptionProperties entries).toOption.map fun kept => kept.map fun e => (e.1, e.2.sortKeys) := by
  induction entries with
  | nil =>
    rw [withoutDescriptionProperties]
    rfl
  | cons e rest ih =>
    obtain ⟨name, t⟩ := e
    rw [withoutDescriptionProperties, List.map_cons, collect_cons, ih, bare]
    cases t.withoutDescriptions with
    | error m => rfl
    | ok v => cases withoutDescriptionProperties rest <;> rfl

theorem bare_object : bare (.object entries) = gather (bareValues entries) := by
  rw [gather, collect_bareValues, bare, withoutDescriptions]
  cases withoutDescriptionEntries entries with
  | error m => rfl
  | ok kept => exact congrArg some sortKeys_object_eq_mergeSort

theorem bareValue_properties : bareValue "properties" (.object entries) =
    gather (entries.map fun e => (e.1, bare e.2)) := by
  rw [gather, collect_bare, bareValue, undescribed, if_pos rfl]
  cases withoutDescriptionProperties entries with
  | error m => rfl
  | ok kept => exact congrArg some sortKeys_object_eq_mergeSort

theorem bareValue_items : bareValue "items" t = bare t := by
  rw [bareValue, undescribed_items, bare]

theorem bareValue_required : bareValue "required" (.list items) =
    (Sorting.sort less items).toOption.map fun sorted => .list (sorted.map sortKeys) := by
  rw [bareValue, undescribed, if_pos rfl]
  cases Sorting.sort less items with
  | error m => rfl
  | ok sorted => exact congrArg some sortKeys_list

/-- Under other keywords a value stays as it is. -/
theorem bareValue_other (hobject : ∀ entries, t = .object entries → key ≠ .text "properties" ∧ key ≠ .text "items")
    (hlist : ∀ items, t = .list items → key ≠ .text "required") : bareValue key t = some t.sortKeys := by
  rw [bareValue]
  cases t with
  | object entries =>
    obtain ⟨hproperties, hitems⟩ := hobject entries rfl
    rw [undescribed, if_neg hproperties, if_neg hitems]
    rfl
  | list items =>
    rw [undescribed, if_neg (hlist items rfl)]
    rfl
  | scalar | pair | set | enclosing =>
    rw [undescribed]
    all_goals simp [Except.toOption]

theorem bare_of_not_object (h : ∀ entries, t ≠ .object entries) : bare t = some t.sortKeys := by
  rw [bare, withoutDescriptions]
  · rfl
  · exact h

/-! ## The order of keys -/

theorem perm_bareValues (h : entries.Perm entries') : (bareValues entries).Perm (bareValues entries') :=
  (h.filter _).map _

theorem textKeyed_bareValues (h : Entries.TextKeyed entries) : Entries.TextKeyed (bareValues entries) :=
  (h.filter (p := fun e => decide (e.1 ≠ .text "description"))).of_keys_perm (.of_eq Entries.keys_map_value)

/-- The value of a keyword does not depend on the order of keys if the bare schemas do not. -/
theorem bareValue_sortKeys (ht : t.IsJson)
    (ih : ∀ u : Tree, sizeOf u ≤ sizeOf t → u.IsJson → bare u.sortKeys = bare u) :
    bareValue key t.sortKeys = bareValue key t := by
  cases t with
  | object entries =>
    by_cases hitems : key = .text "items"
    · rw [hitems, bareValue_items, bareValue_items]
      exact ih _ le_rfl ht
    by_cases hproperties : key = .text "properties"
    · have hperm := List.mergeSort_perm (entries.map fun e => (e.1, e.2.sortKeys)) keyOrder
      have hkeyed : Entries.TextKeyed ((entries.map fun e => (e.1, e.2.sortKeys)).map fun e => (e.1, bare e.2)) :=
        (textKeyed_map_sortKeys ht.1).of_keys_perm (.of_eq Entries.keys_map_value)
      rw [hproperties, sortKeys_object_eq_mergeSort, bareValue_properties, bareValue_properties,
        ← gather_eq_of_perm hkeyed (hperm.symm.map _), List.map_map]
      refine congrArg gather (List.map_congr_left fun e he => ?_)
      exact congrArg (e.1, ·) (ih e.2 (sizeOf_entry_lt he).le (entriesAreJson_iff.mp ht.2 e he))
    · have hself := sortKeys_sortKeys ht
      have hother : ∀ es : List (Scalar × Tree), bareValue key (.object es) = some (Tree.object es).sortKeys := fun es =>
        bareValue_other (fun _ _ => ⟨hproperties, hitems⟩) (by simp)
      rw [sortKeys_object_eq_mergeSort] at hself ⊢
      rw [hother, hother, hself, sortKeys_object_eq_mergeSort]
  | list items =>
    by_cases hrequired : key = .text "required"
    · rw [hrequired, sortKeys_list, bareValue_required, bareValue_required, sort_map_sortKeys (areJson_iff.mp ht)]
      cases hsort : Sorting.sort less items with
      | error m => rfl
      | ok sorted =>
        have hjson := Sorting.forall_of_sort (areJson_iff.mp ht) hsort
        simp only [Except.map, Except.toOption, Option.map_some, List.map_map]
        exact congrArg (fun us => some (list us)) (List.map_congr_left fun u hu => sortKeys_sortKeys (hjson u hu))
    · have hself := sortKeys_sortKeys ht
      have hother : ∀ us, bareValue key (.list us) = some (Tree.list us).sortKeys := fun us =>
        bareValue_other (by simp) fun _ _ => hrequired
      rw [sortKeys_list] at hself ⊢
      rw [hother, hother, hself, sortKeys_list]
  | scalar a => rfl
  | pair | set | enclosing => exact ht.elim

/-- The bare schema does not depend on the order of keys. -/
theorem bare_sortKeys (ht : t.IsJson) : bare t.sortKeys = bare t := by
  induction hsize : sizeOf t using Nat.strong_induction_on generalizing t with
  | _ n ih =>
    subst hsize
    cases t with
    | object entries =>
      have hperm := List.mergeSort_perm (entries.map fun e => (e.1, e.2.sortKeys)) keyOrder
      have hkeyed := textKeyed_bareValues (textKeyed_map_sortKeys ht.1)
      rw [sortKeys_object_eq_mergeSort, bare_object, bare_object,
        ← gather_eq_of_perm hkeyed (perm_bareValues hperm.symm), bareValues, bareValues, List.filter_map, List.map_map]
      refine congrArg gather (List.map_congr_left fun e he => ?_)
      have hmem : e ∈ entries := (List.mem_filter.mp he).1
      have hlt : sizeOf e.2 < sizeOf (object entries) := sizeOf_entry_lt hmem
      refine congrArg (e.1, ·) (bareValue_sortKeys (entriesAreJson_iff.mp ht.2 e hmem) fun u hu hjson => ?_)
      exact ih _ (hu.trans_lt hlt) hjson rfl
    | list items =>
      rw [bare_of_not_object, bare_of_not_object, sortKeys_sortKeys ht]
      · simp
      · simp [sortKeys]
    | scalar a => rfl
    | pair | set | enclosing => exact ht.elim

/-! ## Shape keys -/

/-- The shape key of a schema is the text of the bare schema. -/
theorem shapeKey_eq_ok_iff (ht : t.IsJson) {text : String} :
    t.shapeKey = .ok text ↔ ∃ w, bare t = some w ∧ Json.write Json.sortedLine w = .ok text := by
  rw [shapeKey, bare]
  cases h : t.withoutDescriptions with
  | error m => simp [bind, Except.bind, Except.toOption]
  | ok u =>
    have hwrite : Json.write Json.sortedLine u.sortKeys = Json.write Json.sortedLine u :=
      Json.writeAt_sortKeys (ht.withoutDescriptions h)
    simp [bind, Except.bind, Except.toOption, hwrite]

end Tree

end DeviceApi
