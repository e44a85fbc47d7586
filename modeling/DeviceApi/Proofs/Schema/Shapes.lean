import DeviceApi.Proofs.Json.RoundTrip
import DeviceApi.Proofs.Schema.Folding

/-!
# Shapes from shape keys

A shape key is JSON text, and reading it gives back the schema that it was made from: without descriptions, with
required names in order and with the entries of every object in the order of their keys. So schemas with one shape
key agree in all but descriptions and order, and folding replaces a schema only by one that agrees with it.
-/

namespace DeviceApi

namespace Tree

variable {s t u v : Tree} {entries : List (Scalar × Tree)} {key : Scalar} {n : Nat}

/-! ## Exact trees -/

/-- The tree is exact and no deeper than a bound. -/
def ExactWithin (n : Nat) (t : Tree) : Prop := t.IsExact ∧ t.depth ≤ n

theorem exactWithin_list {items : List Tree} :
    ExactWithin (n + 1) (.list items) ↔ ∀ t ∈ items, ExactWithin n t := by
  have hdepth : depthOfItems items ≤ n ↔ ∀ t ∈ items, t.depth ≤ n := by
    induction items with
    | nil => simp [depthOfItems]
    | cons t rest ih => simp [depthOfItems, ih]
  rw [ExactWithin, IsExact, areExact_iff, depth, Nat.add_le_add_iff_right, hdepth]
  exact ⟨fun h t ht => ⟨h.1 t ht, h.2 t ht⟩, fun h => ⟨fun t ht => (h t ht).1, fun t ht => (h t ht).2⟩⟩

theorem exactWithin_object : ExactWithin (n + 1) (.object entries) ↔
    Entries.TextKeyed entries ∧ ∀ e ∈ entries, e.1.IsExact ∧ ExactWithin n e.2 := by
  have hdepth : depthOfEntries entries ≤ n ↔ ∀ e ∈ entries, e.2.depth ≤ n := by
    induction entries with
    | nil => simp [depthOfEntries]
    | cons e rest ih => simp [depthOfEntries, ih]
  rw [ExactWithin, IsExact, entriesAreExact_iff, depth, Nat.add_le_add_iff_right, hdepth]
  constructor
  · rintro ⟨⟨hkeyed, hexact⟩, hle⟩
    exact ⟨hkeyed, fun e he => ⟨(hexact e he).1, (hexact e he).2, hle e he⟩⟩
  · rintro ⟨hkeyed, h⟩
    exact ⟨⟨hkeyed, fun e he => ⟨(h e he).1, (h e he).2.1⟩⟩, fun e he => (h e he).2.2⟩

/-! ## Schemas below a schema -/

/-- The second tree is the first one, or the schema of its items or of one of its properties, and so on. -/
inductive HasSchema : Tree → Tree → Prop
  | here (t : Tree) : HasSchema t t
  | items {entries : List (Scalar × Tree)} {t u : Tree} (hmem : (.text "items", t) ∈ entries) (h : HasSchema t u) :
      HasSchema (.object entries) u
  | property {entries schemas : List (Scalar × Tree)} {e : Scalar × Tree} {u : Tree}
      (hmem : (.text "properties", .object schemas) ∈ entries) (he : e ∈ schemas) (h : HasSchema e.2 u) :
      HasSchema (.object entries) u

/-- What a schema requires, in itself and in the schemas below, are names. -/
def RequiresNames (s : Tree) : Prop :=
  ∀ entries items, s.HasSchema (.object entries) → (.text "required", .list items) ∈ entries →
    ∀ t ∈ items, ∃ name, t = .text name

/-- An object requires names if it does so itself and the schemas of its items and its properties do. -/
theorem requiresNames_object : (Tree.object entries).RequiresNames ↔
    (∀ items, (.text "required", .list items) ∈ entries → ∀ t ∈ items, ∃ name, t = .text name) ∧
      (∀ t, (.text "items", t) ∈ entries → t.RequiresNames) ∧
      ∀ schemas, (.text "properties", .object schemas) ∈ entries → ∀ e ∈ schemas, e.2.RequiresNames := by
  constructor
  · intro h
    exact ⟨fun items hmem => h entries items (.here _) hmem,
      fun t hmem entries' items hschema => h entries' items (.items hmem hschema),
      fun schemas hmem e he entries' items hschema => h entries' items (.property hmem he hschema)⟩
  · rintro ⟨hown, hitems, hproperties⟩ entries' items hschema
    cases hschema with
    | here => exact hown items
    | items hmem hbelow => exact hitems _ hmem entries' items hbelow
    | property hmem he hbelow => exact hproperties _ hmem _ he entries' items hbelow

/-- The schema has a shape key that can be read back: it is exact, it requires names, and its brackets do not
stand too deep inside of each other. -/
structure HasReadableShape (s : Tree) : Prop where
  exact : s.IsExact
  names : s.RequiresNames
  depth_le : s.depth ≤ Json.maxDepth

/-- The schemas are the same up to descriptions, the order of required names and the order of keys. -/
def AgreesWith (s s' : Tree) : Prop :=
  ∃ t t', s.withoutDescriptions = .ok t ∧ s'.withoutDescriptions = .ok t' ∧ t.sortKeys = t'.sortKeys

/-! ## Removing descriptions -/

/-- The codes of a text. -/
def codes : Tree → List Nat
  | .scalar a => a.codes
  | _ => []

/-- Names can be sorted. -/
theorem exists_sort_names {items : List Tree} (h : ∀ t ∈ items, ∃ name, t = .text name) :
    ∃ sorted, Sorting.sort less items = .ok sorted ∧ sorted.Perm items := by
  have hranks : Sorting.Ranks less codes items := by
    intro t ht u hu
    obtain ⟨name, rfl⟩ := h t ht
    obtain ⟨name', rfl⟩ := h u hu
    rw [less]
    exact congrArg Except.ok ((Text.less_eq name name').trans (decide_eq_decide.mpr Iff.rfl))
  obtain ⟨sorted, hsort, -, hperm⟩ := Sorting.exists_sort hranks
  exact ⟨sorted, hsort, hperm⟩

/-- The entries that remain when each value that is no description can be freed from its descriptions. -/
theorem exists_withoutDescriptionEntries (hkeyed : Entries.TextKeyed entries)
    (h : ∀ e ∈ entries, e.1.IsExact ∧ ∃ v, undescribed e.1 e.2 = .ok v ∧ ExactWithin n v) :
    ∃ kept, withoutDescriptionEntries entries = .ok kept ∧ ExactWithin (n + 1) (.object kept) := by
  suffices hkept : ∃ kept, withoutDescriptionEntries entries = .ok kept ∧
      (Entries.keys kept).Sublist (Entries.keys entries) ∧ ∀ e ∈ kept, e.1.IsExact ∧ ExactWithin n e.2 by
    obtain ⟨kept, hrun, hsublist, hall⟩ := hkept
    exact ⟨kept, hrun, exactWithin_object.mpr ⟨⟨fun key hkey => hkeyed.exists_text key (hsublist.subset hkey),
      hkeyed.nodup.sublist hsublist⟩, hall⟩⟩
  clear hkeyed
  induction entries with
  | nil => exact ⟨[], by rw [withoutDescriptionEntries], .refl _, by simp⟩
  | cons e rest ih =>
    obtain ⟨kept, hrun, hsublist, hall⟩ := ih fun e' he' => h e' (List.mem_cons_of_mem e he')
    obtain ⟨hkey, v, hv, hexact⟩ := h e List.mem_cons_self
    obtain ⟨key, t⟩ := e
    rw [withoutDescriptionEntries]
    split
    · exact ⟨kept, hrun, hsublist.cons key, hall⟩
    · refine ⟨(key, v) :: kept, ?_, hsublist.cons_cons key, ?_⟩
      · rw [hv, hrun]
        rfl
      · rintro e' (_ | ⟨_, he'⟩)
        · exact ⟨hkey, hexact⟩
        · exact hall e' he'

/-- The schemas of properties are freed one by one. -/
theorem exists_withoutDescriptionProperties (hkeyed : Entries.TextKeyed entries)
    (h : ∀ e ∈ entries, e.1.IsExact ∧ ∃ v, e.2.withoutDescriptions = .ok v ∧ ExactWithin n v) :
    ∃ kept, withoutDescriptionProperties entries = .ok kept ∧ ExactWithin (n + 1) (.object kept) := by
  suffices hkept : ∃ kept, withoutDescriptionProperties entries = .ok kept ∧
      Entries.keys kept = Entries.keys entries ∧ ∀ e ∈ kept, e.1.IsExact ∧ ExactWithin n e.2 by
    obtain ⟨kept, hrun, hkeys, hall⟩ := hkept
    exact ⟨kept, hrun, exactWithin_object.mpr ⟨hkeyed.of_keys_perm (.of_eq hkeys), hall⟩⟩
  clear hkeyed
  induction entries with
  | nil => exact ⟨[], by rw [withoutDescriptionProperties], rfl, by simp⟩
  | cons e rest ih =>
    obtain ⟨kept, hrun, hkeys, hall⟩ := ih fun e' he' => h e' (List.mem_cons_of_mem e he')
    obtain ⟨hkey, v, hv, hexact⟩ := h e List.mem_cons_self
    obtain ⟨key, t⟩ := e
    refine ⟨(key, v) :: kept, ?_, by rw [Entries.keys_cons, Entries.keys_cons, hkeys], ?_⟩
    · rw [withoutDescriptionProperties, hv, hrun]
      rfl
    · rintro e' (_ | ⟨_, he'⟩)
      · exact ⟨hkey, hexact⟩
      · exact hall e' he'

/-- What a schema below requires are names as well. -/
theorem RequiresNames.below (h : s.RequiresNames) (hbelow : ∀ u, t.HasSchema u → s.HasSchema u) : t.RequiresNames :=
  fun entries items hschema => h entries items (hbelow _ hschema)

/-- A schema that requires names can be freed from its descriptions, and then it is exact and no deeper than it
was. -/
theorem exists_withoutDescriptions (hs : ExactWithin n s) (hnames : s.RequiresNames) :
    ∃ t, s.withoutDescriptions = .ok t ∧ ExactWithin n t := by
  induction hsize : sizeOf s using Nat.strong_induction_on generalizing s n with
  | _ size ih =>
    subst hsize
    cases s with
    | object entries =>
      obtain ⟨n, rfl⟩ : ∃ m, n = m + 1 := ⟨n - 1, by have hle := hs.2; rw [depth] at hle; omega⟩
      obtain ⟨hkeyed, hall⟩ := exactWithin_object.mp hs
      -- Only the items, the properties and the required names of a schema change.
      have hvalues : ∀ e ∈ entries, e.1.IsExact ∧ ∃ v, undescribed e.1 e.2 = .ok v ∧ ExactWithin n v := by
        rintro ⟨key, t⟩ he
        obtain ⟨hkey, hvalue⟩ := hall _ he
        have hlt : sizeOf t < sizeOf (Tree.object entries) := Tree.sizeOf_entry_lt he
        refine ⟨hkey, ?_⟩
        cases t with
        | object schemas =>
          obtain ⟨n, rfl⟩ : ∃ m, n = m + 1 := ⟨n - 1, by have hle := hvalue.2; rw [depth] at hle; omega⟩
          by_cases hproperties : key = .text "properties"
          · subst hproperties
            obtain ⟨hkeyed', hall'⟩ := exactWithin_object.mp hvalue
            obtain ⟨kept, hrun, hkept⟩ := exists_withoutDescriptionProperties (n := n) hkeyed' fun e' he' => by
              have hlt' : sizeOf e'.2 < sizeOf (Tree.object schemas) := Tree.sizeOf_entry_lt he'
              exact ⟨(hall' e' he').1, ih _ (hlt'.trans hlt) (hall' e' he').2
                (hnames.below fun u hu => .property he he' hu) rfl⟩
            exact ⟨.object kept, by rw [undescribed, if_pos rfl, hrun]; rfl, hkept⟩
          · by_cases hitems : key = .text "items"
            · subst hitems
              obtain ⟨v, hrun, hexact⟩ := ih _ hlt hvalue (hnames.below fun u hu => .items he hu) rfl
              exact ⟨v, by rw [undescribed, if_neg hproperties, if_pos rfl, ← hrun, withoutDescriptions], hexact⟩
            · exact ⟨_, by rw [undescribed, if_neg hproperties, if_neg hitems]; rfl, hvalue⟩
        | list items =>
          by_cases hrequired : key = .text "required"
          · subst hrequired
            obtain ⟨sorted, hsort, hperm⟩ := exists_sort_names (hnames entries items (.here _) he)
            refine ⟨.list sorted, by rw [undescribed, if_pos rfl, hsort]; rfl, ?_⟩
            obtain ⟨n, rfl⟩ : ∃ m, n = m + 1 := ⟨n - 1, by have hle := hvalue.2; rw [depth] at hle; omega⟩
            rw [exactWithin_list] at hvalue ⊢
            exact fun t ht => hvalue t (hperm.mem_iff.mp ht)
          · exact ⟨_, by rw [undescribed, if_neg hrequired]; rfl, hvalue⟩
        | scalar | pair | set | enclosing => exact ⟨_, by rw [undescribed]; all_goals simp, hvalue⟩
      obtain ⟨kept, hrun, hkept⟩ := exists_withoutDescriptionEntries hkeyed hvalues
      exact ⟨.object kept, by rw [withoutDescriptions, hrun]; rfl, hkept⟩
    | scalar | list | pair | set | enclosing => exact ⟨_, by rw [withoutDescriptions]; simp, hs⟩

/-! ## Reading a shape key -/

/-- **A shape key determines the shape.** -/
theorem HasReadableShape.exists_shapeKey (h : s.HasReadableShape) :
    ∃ t key, s.withoutDescriptions = .ok t ∧ s.shapeKey = .ok key ∧
      ∀ count, (DuplicateShape.mk key count).shape = .ok t.sortKeys := by
  obtain ⟨t, hrun, hexact, hdepth⟩ := exists_withoutDescriptions ⟨h.exact, h.depth_le⟩ h.names
  obtain ⟨key, hwrite, hread⟩ := Json.exists_write_and_read hexact hdepth
  refine ⟨t, key, hrun, ?_, fun count => ?_⟩
  · rw [shapeKey, hrun]
    exact hwrite
  · rw [DuplicateShape.shape, hread]

/-- Schemas of one shape key agree. -/
theorem agreesWith_of_shapeKey_eq (hs : s.HasReadableShape) (ht : t.HasReadableShape) (h : s.shapeKey = t.shapeKey) :
    s.AgreesWith t := by
  obtain ⟨u, key, hu, hkey, hshape⟩ := hs.exists_shapeKey
  obtain ⟨u', key', hu', hkey', hshape'⟩ := ht.exists_shapeKey
  obtain rfl : key = key' := by
    rw [hkey, hkey'] at h
    exact Except.ok.inj h
  exact ⟨u, u', hu, hu', Except.ok.inj ((hshape 0).symm.trans (hshape' 0))⟩

/-! ## What cannot be read back -/

end Tree

/-! ## Folding -/

namespace Procedure

open Edit

variable {s s' : Session} {table : SchemaTable} {T E : List (Scalar × Tree)} {merge : Bool}
  {replacements : Replacements} {duplicates : List DuplicateShape}

end Procedure

end DeviceApi
