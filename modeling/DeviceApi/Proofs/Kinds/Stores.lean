import DeviceApi.Proofs.Kinds.Kind

/-!
# Stores that differ in descriptions

Two documents may differ in the texts of their descriptions, where a description says something about a
parameter, a body, a response or a schema. Everything else in their nodes is the same, and the nodes are
numbered in the same way. What is read from the stores of such documents is the same, and it stays so when nodes
are added or changed in the same way.
-/

namespace DeviceApi

/-- The key of a description. -/
def descriptionKey : String := "description"

/-- Whether a key is not that of a description. -/
def Scalar.isOther (key : Scalar) : Bool := key ≠ .text descriptionKey

theorem isOther_text {t : String} (hne : t ≠ descriptionKey) : Scalar.isOther (.text t) = true := by
  simpa [Scalar.isOther] using hne

namespace Entries

variable {α : Type} {entries entries' others others' : Entries α} {t u : String} {v w : α}

/-- The entries other than descriptions. -/
def undescribed (entries : Entries α) : Entries α := entries.filter fun e => e.1.isOther

theorem get?_undescribed (hne : t ≠ descriptionKey) :
    entries.undescribed.get? (.text t) = entries.get? (.text t) :=
  get?_filter (isOther_text hne)

theorem undescribed_remove (hne : t ≠ descriptionKey) :
    (remove (.text t) entries).undescribed = remove (.text t) entries.undescribed :=
  filter_remove (isOther_text hne)

/-- A description that is there is a text. -/
def IsDescribed (entries : Entries Value) : Prop :=
  ∀ v, entries.get? descriptionKey = some v → ∃ t, v = .text t

/-- The entries are the same, descriptions aside. -/
structure Alike (entries entries' : Entries Value) : Prop where
  others : entries.undescribed = entries'.undescribed
  description : entries.get? descriptionKey = entries'.get? descriptionKey ∨
    entries.IsDescribed ∧ entries'.IsDescribed

namespace Alike

variable {entries entries' others others' : Entries Value} {v w : Value}

theorem refl (entries : Entries Value) : Alike entries entries := ⟨rfl, .inl rfl⟩

theorem get?_eq (h : Alike entries entries') (hne : t ≠ descriptionKey) :
    entries'.get? (.text t) = entries.get? (.text t) := by
  rw [← get?_undescribed hne, ← h.others, get?_undescribed hne]

theorem has_eq (h : Alike entries entries') (hne : t ≠ descriptionKey) :
    entries'.has (.text t) = entries.has (.text t) := by
  rw [has, has, h.get?_eq hne]

/-- Entries that are alike stay so when a key is given the same value in both. -/
theorem put {key : Scalar} (h : Alike entries entries') :
    Alike (Entries.put key w entries) (Entries.put key w entries') where
  others := by
    by_cases hkey : key = .text descriptionKey
    · have hnot : ∀ k : Scalar, k.sameKey key = true → k.isOther = false := fun k hk => by
        simpa [Scalar.isOther, hkey] using hk
      unfold undescribed
      rw [filter_put_of_neg hnot, filter_put_of_neg hnot]
      exact h.others
    · have hother : ∀ k : Scalar, k.sameKey key = true → k.isOther = true := fun k hk => by
        rw [Scalar.isOther, decide_eq_true_eq]
        rintro rfl
        exact hkey (Scalar.text_sameKey.mp hk)
      unfold undescribed
      rw [filter_put_of_pos hother, filter_put_of_pos hother]
      exact congrArg (Entries.put key w) h.others
  description := by
    by_cases hkey : key = .text descriptionKey
    · subst hkey
      rw [get?_put_self, get?_put_self]
      exact .inl rfl
    · simpa only [IsDescribed, get?_put_of_ne hkey] using h.description

theorem remove (h : Alike entries entries') (hne : t ≠ descriptionKey) :
    Alike (Entries.remove (.text t) entries) (Entries.remove (.text t) entries') where
  others := by rw [undescribed_remove hne, undescribed_remove hne, h.others]
  description := by simpa only [IsDescribed, get?_remove_of_ne hne] using h.description

/-- What is put over entries that are alike may itself be alike, if it has a description just where the other
one has. -/
theorem putAll (h : Alike entries entries') (hothers : Alike others others')
    (hkeyed : others.TextKeyed) (hkeyed' : others'.TextKeyed) (hkeys : others.keys = others'.keys) :
    Alike (entries.putAll others) (entries'.putAll others') where
  others := by
    have hleft : (entries.putAll others).undescribed = entries.undescribed.putAll others.undescribed :=
      filter_putAll hkeyed.exists_text
    have hright : (entries'.putAll others').undescribed = entries'.undescribed.putAll others'.undescribed :=
      filter_putAll hkeyed'.exists_text
    rw [hleft, hright, h.others, hothers.others]
  description := by
    simp only [IsDescribed, get?_putAll hkeyed, get?_putAll hkeyed']
    have hhas := has_eq_of_keys_eq (t := descriptionKey) hkeys
    simp only [has] at hhas
    cases hget : others.get? descriptionKey with
    | none =>
      rw [hget, Option.isSome_none, eq_comm, Option.isSome_eq_false_iff, Option.isNone_iff_eq_none] at hhas
      rw [hhas]
      simpa [IsDescribed] using h.description
    | some v =>
      rw [hget, Option.isSome_some, eq_comm, Option.isSome_iff_exists] at hhas
      obtain ⟨w, hw⟩ := hhas
      rw [hw]
      have hdescription := hothers.description
      simp only [IsDescribed, hget, hw] at hdescription
      simpa using hdescription

end Alike

end Entries

/-! ## Nodes -/

/-- The cells of two nodes of one kind are the same, descriptions aside. -/
inductive Cell.Alike (k : Kind) : Cell → Cell → Prop
  | refl (cell : Cell) : Cell.Alike k cell cell
  | object {entries entries' : Entries Value} (hk : k.isDescribed = true) (h : entries.Alike entries')
      (hkeys : k.isSteady = true → entries.keys = entries'.keys) :
      Cell.Alike k (.object entries) (.object entries')

/-- The entries of two objects of one kind are the same, descriptions aside. -/
structure Entries.AlikeIn (kinds : List Kind) (k : Kind) (entries entries' : Entries Value) : Prop where
  alike : entries.Alike entries'
  keys : k.isSteady = true → entries.keys = entries'.keys
  same : k.isDescribed = false → entries = entries'
  fits : (Cell.object entries).Fits kinds k
  fits' : (Cell.object entries').Fits kinds k

/-- The nodes of two stores have the given kinds and are the same, descriptions aside. -/
structure Store.Matches (kinds : List Kind) (s s' : Store) : Prop where
  size : s.cells.size = kinds.length
  size' : s'.cells.size = kinds.length
  cells : ∀ (i : Nat) (k : Kind), kinds[i]? = some k → ∃ cell cell' : Cell, s.cells[i]? = some cell ∧
    s'.cells[i]? = some cell' ∧ cell.Alike k cell' ∧ cell.Fits kinds k ∧ cell'.Fits kinds k

variable {kinds kinds' ks ks' : List Kind} {k : Kind} {s s' : Store} {i : Nat} {v w : Value} {cell cell' : Cell}
  {entries entries' : Entries Value} {name : String}

namespace Entries.AlikeIn

variable (h : entries.AlikeIn kinds k entries')
include h

theorem mono (hgrown : kinds <+: kinds') : entries.AlikeIn kinds' k entries' where
  alike := h.alike
  keys := h.keys
  same := h.same
  fits := h.fits.mono hgrown
  fits' := h.fits'.mono hgrown

theorem get?_eq (hne : name ≠ descriptionKey) : entries'.get? (.text name) = entries.get? (.text name) :=
  h.alike.get?_eq hne

theorem isOf_getD : ((entries.get? (.text name)).getD .null).IsOf kinds (k.below (some (.text name))) := by
  cases hget : entries.get? (.text name) with
  | none => exact Value.isOf_null
  | some v => exact h.fits.get? hget

theorem cells : (Cell.object entries).Alike k (.object entries') := by
  cases hk : k.isDescribed with
  | false => exact h.same hk ▸ .refl _
  | true => exact .object hk h.alike h.keys

end Entries.AlikeIn

theorem Entries.AlikeIn.refl (h : (Cell.object entries).Fits kinds k) : entries.AlikeIn kinds k entries :=
  ⟨.refl _, fun _ => rfl, fun _ => rfl, h, h⟩

theorem Cell.Alike.alikeIn (h : (Cell.object entries).Alike k (.object entries'))
    (hfits : (Cell.object entries).Fits kinds k) (hfits' : (Cell.object entries').Fits kinds k) :
    entries.AlikeIn kinds k entries' := by
  cases h with
  | refl => exact .refl hfits
  | object hk halike hkeys => exact ⟨halike, hkeys, fun hnot => by simp [hk] at hnot, hfits, hfits'⟩

namespace Cell.Fits

theorem isJson_of_textKeyed (h : entries.TextKeyed) : (Cell.object entries).IsJson := by
  refine .object (fun key hkey => ?_) h.nodup
  obtain ⟨t, rfl⟩ := h.exists_text key hkey
  rfl

theorem object (hkeyed : entries.TextKeyed)
    (hentries : ∀ (name : String) v, (.text name, v) ∈ entries → v.IsOf kinds (k.below (some (.text name))))
    (hpointer : k.mayRefer = true → ∀ p, entries.get? referenceKey = some (.text p) → Pointer.Plain p) :
    (Cell.object entries).Fits kinds k where
  json _ := isJson_of_textKeyed hkeyed
  keyed _ entries' heq := Cell.object.inj heq ▸ hkeyed
  places e he := by
    obtain ⟨place, v⟩ := e
    obtain ⟨key, rfl, hmem⟩ := mem_places_object.mp he
    obtain ⟨name, rfl⟩ := hkeyed.exists_text key (List.mem_map_of_mem hmem)
    exact hentries name v hmem
  pointer hk entries' p heq hget := by
    obtain rfl : entries = entries' := by simpa using heq
    exact hpointer hk p hget

theorem list {items : List Value} (hitems : ∀ v ∈ items, v.IsOf kinds k.items) :
    (Cell.list items).Fits kinds k where
  json _ := .list items
  keyed _ entries heq := by cases heq
  places e he := by
    obtain ⟨v, hv, rfl⟩ := List.mem_map.mp he
    exact hitems v hv
  pointer _ entries p heq := by cases heq

theorem textKeyed (h : (Cell.object entries).Fits kinds k) (hk : k.isTextKeyed = true) : entries.TextKeyed :=
  h.keyed hk entries rfl

theorem entry (h : (Cell.object entries).Fits kinds k) {e : Scalar × Value} (he : e ∈ entries) :
    e.2.IsOf kinds (k.below (some e.1)) :=
  h.places (some e.1, e.2) (mem_places_object.mpr ⟨_, rfl, he⟩)

/-- A key may be put if it may be one of the node, and the value if it may stand under the key. -/
theorem putKey {key : Scalar} (h : (Cell.object entries).Fits kinds k) (hkey : key.isJson = true)
    (htext : k.isTextKeyed = true → ∃ t, key = .text t)
    (hw : ∀ other : Scalar, other.sameKey key = true → w.IsOf kinds (k.below (some other)))
    (hpointer : k.mayRefer = true → key ≠ .text referenceKey) : (Cell.object (entries.put key w)).Fits kinds k where
  json hk := by
    cases h.json hk with
    | object hkeys hnodup =>
      refine .object (fun other hother => ?_) (Entries.nodup_keys_put_any hnodup)
      rcases Entries.keys_put_cases with heq | ⟨-, heq⟩
      · exact hkeys other (heq ▸ hother)
      · rcases List.mem_append.mp (heq ▸ hother) with hmem | hmem
        · exact hkeys other hmem
        · exact List.mem_singleton.mp hmem ▸ hkey
  keyed hk entries' heq := by
    obtain ⟨t, rfl⟩ := htext hk
    exact Cell.object.inj heq ▸ (h.textKeyed hk).put
  places e he := by
    obtain ⟨place, v⟩ := e
    obtain ⟨other, rfl, hmem⟩ := mem_places_object.mp he
    rcases Entries.mem_put_cases hmem with hold | ⟨hsame, rfl⟩
    · exact h.entry hold
    · exact hw other hsame
  pointer hk entries' p heq hget := by
    obtain rfl : entries.put key w = entries' := by simpa using heq
    rw [Entries.get?_put_of_ne (hpointer hk)] at hget
    exact h.pointer hk entries p rfl hget

theorem put (h : (Cell.object entries).Fits kinds k) (hw : w.IsOf kinds (k.below (some (.text name))))
    (hpointer : k.mayRefer = true → name ≠ referenceKey) : (Cell.object (entries.put name w)).Fits kinds k :=
  h.putKey rfl (fun _ => ⟨name, rfl⟩) (fun _ hother => Scalar.sameKey_text.mp hother ▸ hw)
    fun hk heq => hpointer hk (Scalar.text.inj heq)

theorem remove (h : (Cell.object entries).Fits kinds k) (hpointer : k.mayRefer = true → name ≠ referenceKey) :
    (Cell.object (entries.remove name)).Fits kinds k where
  json hk := by
    cases h.json hk with
    | object hkeys hnodup =>
      have hremoved := Entries.keys_remove (t := name) hnodup
      exact .object (fun key hkey => hkeys key (List.mem_of_mem_filter (hremoved ▸ hkey)))
        (hremoved ▸ hnodup.filter _)
  keyed hk entries' heq := Cell.object.inj heq ▸ (h.textKeyed hk).remove
  places e he := by
    obtain ⟨place, v⟩ := e
    obtain ⟨key, rfl, hmem⟩ := mem_places_object.mp he
    exact h.entry (Entries.mem_of_mem_remove hmem)
  pointer hk entries' p heq hget := by
    obtain rfl : entries.remove (.text name) = entries' := by simpa using heq
    rw [Entries.get?_remove_of_ne (hpointer hk)] at hget
    exact h.pointer hk entries p rfl hget

end Cell.Fits

namespace Entries.AlikeIn

variable (h : entries.AlikeIn kinds k entries')
include h

theorem put (hw : w.IsOf kinds (k.below (some (.text name)))) (hpointer : k.mayRefer = true → name ≠ referenceKey) :
    (entries.put (.text name) w).AlikeIn kinds k (entries'.put (.text name) w) where
  alike := h.alike.put
  keys hk := by rw [keys_put, keys_put, h.keys hk]
  same hk := by rw [h.same hk]
  fits := h.fits.put hw hpointer
  fits' := h.fits'.put hw hpointer

theorem remove (hne : name ≠ descriptionKey) (hpointer : k.mayRefer = true → name ≠ referenceKey) :
    (entries.remove (.text name)).AlikeIn kinds k (entries'.remove (.text name)) where
  alike := h.alike.remove hne
  keys hk := by
    cases hdescribed : k.isDescribed with
    | false => rw [h.same hdescribed]
    | true =>
      have hkeyed : k.isTextKeyed = true := by cases k <;> simp_all [Kind.isDescribed, Kind.isSteady, Kind.isTextKeyed]
      rw [keys_remove (h.fits.textKeyed hkeyed).nodup, keys_remove (h.fits'.textKeyed hkeyed).nodup, h.keys hk]
  same hk := by rw [h.same hk]
  fits := h.fits.remove hpointer
  fits' := h.fits'.remove hpointer

end Entries.AlikeIn

namespace Store.Matches

section

variable (h : s.Matches kinds s')
include h

/-- A node that says nothing about a type is the same in both stores. -/
theorem cell_eq (hi : kinds[i]? = some k) (hk : k.isDescribed = false) : s'.cells[i]? = s.cells[i]? := by
  obtain ⟨cell, cell', hcell, hcell', halike, -, -⟩ := h.cells i k hi
  cases halike with
  | refl => rw [hcell, hcell']
  | object hdescribed => simp [hk] at hdescribed

theorem fits (hi : kinds[i]? = some k) (hcell : s.cells[i]? = some cell) : cell.Fits kinds k := by
  obtain ⟨cell₁, cell₂, hcell₁, -, -, hfits, -⟩ := h.cells i k hi
  obtain rfl : cell = cell₁ := by simpa [hcell] using hcell₁
  exact hfits

/-- An object is one in both stores. -/
theorem exists_object (hi : kinds[i]? = some k) (hcell : s.cells[i]? = some (.object entries)) :
    ∃ entries', s'.cells[i]? = some (.object entries') ∧ entries.AlikeIn kinds k entries' := by
  obtain ⟨cell, cell', hcell₁, hcell', halike, hfits, hfits'⟩ := h.cells i k hi
  obtain rfl : cell = .object entries := by simpa [hcell] using hcell₁.symm
  cases halike with
  | refl => exact ⟨entries, hcell', .refl hfits⟩
  | @object _ entries' hk hentries hkeys =>
    exact ⟨entries', hcell', (Cell.Alike.object hk hentries hkeys).alikeIn hfits hfits'⟩

/-- What a value is does not differ, or it is an object in both stores. -/
theorem shape_cases (hv : v.IsOf kinds ks) : s'.shape v = s.shape v ∨ ∃ i k entries entries', k ∈ ks ∧
    k.isDescribed = true ∧ kinds[i]? = some k ∧ s.shape v = .object i entries ∧ s'.shape v = .object i entries' ∧
    entries.AlikeIn kinds k entries' := by
  cases v with
  | scalar a => exact .inl rfl
  | node i =>
    obtain ⟨k, hk, hi⟩ := hv
    obtain ⟨cell, cell', hcell, hcell', halike, hfits, hfits'⟩ := h.cells i k hi
    cases halike with
    | refl => exact .inl (by simp only [shape, hcell, hcell'])
    | @object entries entries' hdescribed hentries hkeys =>
      exact .inr ⟨i, k, entries, entries', hk, hdescribed, hi, shape_node hcell, shape_node hcell',
        (Cell.Alike.object hdescribed hentries hkeys).alikeIn hfits hfits'⟩

/-- An object of the first store is one in the second. -/
theorem shape_object (hv : v.IsOf kinds ks) (hshape : s.shape v = .object i entries) :
    ∃ k entries', k ∈ ks ∧ kinds[i]? = some k ∧ s'.shape v = .object i entries' ∧
      entries.AlikeIn kinds k entries' := by
  obtain ⟨rfl, hcell⟩ := shape_eq_object.mp hshape
  obtain ⟨k, hk, hi⟩ := hv
  obtain ⟨entries', hcell', halike⟩ := h.exists_object hi hcell
  exact ⟨k, entries', hk, hi, shape_node hcell', halike⟩

theorem shape_eq (hv : v.IsOf kinds ks) (hks : ∀ k ∈ ks, k.isDescribed = false) : s'.shape v = s.shape v := by
  rcases h.shape_cases hv with heq | ⟨i, k, entries, entries', hk, hdescribed, -⟩
  · exact heq
  · simp [hks k hk] at hdescribed

theorem isNull_eq (hv : v.IsOf kinds ks) : s'.isNull v = s.isNull v := by
  unfold isNull
  rcases h.shape_cases hv with heq | ⟨i, k, entries, entries', -, -, -, hshape, hshape', -⟩
  · rw [heq]
  · rw [hshape, hshape']

theorem isText_eq (hv : v.IsOf kinds ks) : s'.isText v name = s.isText v name := by
  unfold isText
  rcases h.shape_cases hv with heq | ⟨i, k, entries, entries', -, -, -, hshape, hshape', -⟩
  · rw [heq]
  · rw [hshape, hshape']

theorem scalar?_eq (hv : v.IsOf kinds ks) : s'.scalar? v = s.scalar? v := by
  unfold scalar?
  rcases h.shape_cases hv with heq | ⟨i, k, entries, entries', -, -, -, hshape, hshape', -⟩
  · rw [heq]
  · rw [hshape, hshape']

theorem key_eq (hv : v.IsOf kinds ks) : s'.key v = s.key v := by
  unfold key
  rcases h.shape_cases hv with heq | ⟨i, k, entries, entries', -, -, -, hshape, hshape', -⟩
  · rw [heq]
  · rw [hshape, hshape']

/-- A value is no object in either store, or it is one in both. -/
theorem object_cases (hv : v.IsOf kinds ks) : s.entries? v = none ∧ s'.entries? v = none ∨
    ∃ i k entries entries', k ∈ ks ∧ kinds[i]? = some k ∧ s.shape v = .object i entries ∧
      s'.shape v = .object i entries' ∧ entries.AlikeIn kinds k entries' := by
  cases hentries : s.entries? v with
  | some entries =>
    obtain ⟨i, hshape⟩ := entries?_eq_some.mp hentries
    obtain ⟨k, entries', hk, hi, hshape', halike⟩ := h.shape_object hv hshape
    exact .inr ⟨i, k, entries, entries', hk, hi, hshape, hshape', halike⟩
  | none =>
    refine .inl ⟨rfl, ?_⟩
    rcases h.shape_cases hv with heq | ⟨i, k, entries, entries', hk, -, -, hshape, -⟩
    · rwa [entries?, heq]
    · rw [entries?_eq_some.mpr ⟨i, hshape⟩] at hentries
      cases hentries

/-- There are no pairs in a document. -/
theorem shape_ne_pair {key : Value} (hv : v.IsOf kinds ks) (hks : ∀ k ∈ ks, k ≠ .loose) : s.shape v ≠ .pair key w := by
  intro hshape
  cases v with
  | scalar a => cases hshape
  | node i =>
    obtain ⟨k, hk, hi⟩ := hv
    obtain ⟨cell, -, hcell, -, -, hfits, -⟩ := h.cells i k hi
    cases hfits.json (hks k hk) <;> simp [shape, hcell] at hshape

/-- The entries of an object that is the same in both stores. -/
theorem entries?_eq (hv : v.IsOf kinds ks) (hks : ∀ k ∈ ks, k.isDescribed = false) :
    s'.entries? v = s.entries? v := by
  rw [entries?, entries?, h.shape_eq hv hks]

theorem exists_fits (hv : v.IsOf kinds ks) (hentries : s.entries? v = some entries) :
    ∃ k ∈ ks, (Cell.object entries).Fits kinds k := by
  obtain ⟨i, hshape⟩ := entries?_eq_some.mp hentries
  obtain ⟨k, _, hk, -, -, halike⟩ := h.shape_object hv hshape
  exact ⟨k, hk, halike.fits⟩

theorem isOf_field? (hv : v.IsOf kinds ks) (hks : ∀ k ∈ ks, k.below (some (.text name)) ⊆ ks')
    (hfield : s.field? v name = some w) : w.IsOf kinds ks' := by
  unfold field? at hfield
  split at hfield
  · next entries hentries =>
    obtain ⟨k, hk, hfits⟩ := h.exists_fits hv hentries
    exact (hfits.get? hfield).of_subset (hks k hk)
  · cases hfield

theorem isReference_eq (hv : v.IsOf kinds ks) : s'.isReference v = s.isReference v := by
  unfold isReference
  rcases h.object_cases hv with ⟨hnone, hnone'⟩ | ⟨i, k, entries, entries', -, -, hshape, hshape', halike⟩
  · rw [hnone, hnone']
  · rw [entries?_eq_some.mpr ⟨i, hshape⟩, entries?_eq_some.mpr ⟨i, hshape'⟩]
    exact halike.alike.has_eq (by decide)

/-- Whether a value counts as present does not differ, nor what a visit of it meets, if its kind is steady. -/
theorem shape_cases_of_isSteady (hv : v.IsOf kinds ks) (hks : ∀ k ∈ ks, k.isSteady = true) :
    s'.shape v = s.shape v ∨ ∃ i entries entries', s.shape v = .object i entries ∧
      s'.shape v = .object i entries' ∧ entries.keys = entries'.keys := by
  rcases h.shape_cases hv with heq | ⟨i, k, entries, entries', hk, -, -, hshape, hshape', halike⟩
  · exact .inl heq
  · exact .inr ⟨i, entries, entries', hshape, hshape', halike.keys (hks k hk)⟩

theorem isTruthy_eq (hv : v.IsOf kinds ks) (hks : ∀ k ∈ ks, k.isSteady = true) :
    s'.isTruthy v = s.isTruthy v := by
  unfold isTruthy
  rcases h.shape_cases_of_isSteady hv hks with heq | ⟨i, entries, entries', hshape, hshape', hkeys⟩
  · rw [heq]
  · have hempty : entries'.isEmpty = entries.isEmpty := by
      have hkeys' := congrArg List.isEmpty hkeys
      simpa only [Entries.keys, List.isEmpty_map] using hkeys'.symm
    simp only [hshape, hshape', hempty]

theorem elements_eq (hv : v.IsOf kinds ks) (hks : ∀ k ∈ ks, k.isSteady = true) :
    s'.elements v = s.elements v := by
  unfold elements
  rcases h.shape_cases_of_isSteady hv hks with heq | ⟨i, entries, entries', hshape, hshape', hkeys⟩
  · rw [heq]
  · simp only [hshape, hshape', hkeys]

/-- What a visit of a value meets may stand in a list of its kind. -/
theorem isOf_elements {items : List Value} (hv : v.IsOf kinds ks) (hks : ∀ k ∈ ks, k.items ⊆ ks' ∧ k ≠ .loose)
    (hitems : s.elements v = .ok items) (hw : w ∈ items) : w.IsOf kinds ks' := by
  cases v with
  | scalar a =>
    rcases place_of_mem_elements hitems hw with ⟨b, rfl⟩ | ⟨i, cell, heq, -⟩
    · cases a with
      | text t =>
        simp only [elements, shape, Except.ok.injEq] at hitems
        subst hitems
        obtain ⟨c, -, heq⟩ := List.mem_map.mp hw
        exact heq ▸ Value.isOf_text
      | octets bytes =>
        rcases hv with hjson | hloose
        · simp [Scalar.isJson] at hjson
        · exact absurd rfl (hks .loose hloose).2
      | _ => simp [elements, shape] at hitems
    · cases heq
  | node i =>
    obtain ⟨k, hk, hi⟩ := hv
    obtain ⟨hsub, hne⟩ := hks k hk
    obtain ⟨cell, cell', hcell, -, -, hfits, -⟩ := h.cells i k hi
    cases hfits.json hne with
    | list values =>
      simp only [elements, shape, hcell, Except.ok.injEq] at hitems
      subst hitems
      exact (hfits.places (none, w) (List.mem_map.mpr ⟨w, hw, rfl⟩)).of_subset hsub
    | object hkeys =>
      simp only [elements, shape, hcell, Except.ok.injEq] at hitems
      subst hitems
      obtain ⟨key, hkey, rfl⟩ := List.mem_map.mp hw
      exact .inl (hkeys key hkey)

/-! ## Changes -/

/-- Alike nodes may be added to both stores. -/
theorem add (hcell : cell.Alike k cell') (hfits : cell.Fits (kinds ++ [k]) k)
    (hfits' : cell'.Fits (kinds ++ [k]) k) : (s.add cell).2.Matches (kinds ++ [k]) (s'.add cell').2 where
  size := by simp [h.size]
  size' := by simp [h.size']
  cells i k' hi := by
    rw [cells_add, cells_add, h.size, h.size']
    by_cases hnew : i = kinds.length
    · subst hnew
      obtain rfl : k = k' := by simpa using hi
      exact ⟨cell, cell', if_pos rfl, if_pos rfl, hcell, hfits, hfits'⟩
    · have hold : kinds[i]? = some k' := by
        rw [List.getElem?_append] at hi
        split at hi
        · exact hi
        · have := (List.getElem?_eq_some_iff.mp hi).1
          simp only [List.length_singleton] at this
          omega
      obtain ⟨c, c', hc, hc', halike, hf, hf'⟩ := h.cells i k' hold
      rw [if_neg hnew, if_neg hnew]
      exact ⟨c, c', hc, hc', halike, hf.mono (List.prefix_append _ _), hf'.mono (List.prefix_append _ _)⟩

/-- A node may be changed in both stores to what is alike. -/
theorem set (hi : kinds[i]? = some k) (hcell : cell.Alike k cell') (hfits : cell.Fits kinds k)
    (hfits' : cell'.Fits kinds k) : (s.set i cell).Matches kinds (s'.set i cell') where
  size := by simp [h.size]
  size' := by simp [h.size']
  cells j k' hj := by
    have hlt : i < kinds.length := (List.getElem?_eq_some_iff.mp hi).1
    rw [cells_set, cells_set, h.size, h.size']
    by_cases hij : j = i
    · subst hij
      obtain rfl : k = k' := by simpa [hi] using hj
      exact ⟨cell, cell', if_pos ⟨rfl, hlt⟩, if_pos ⟨rfl, hlt⟩, hcell, hfits, hfits'⟩
    · rw [if_neg fun heq => hij heq.1, if_neg fun heq => hij heq.1]
      exact h.cells j k' hj

end

end Store.Matches

end DeviceApi
