import DeviceApi.Document.Tree
import Mathlib.Data.List.Nodup

/-!
# Entries with text keys

The keys of a description are texts, and a text is the same key as itself only. Looking up,
putting and removing then behave as for a finite map that remembers the order of its keys.
-/

namespace DeviceApi

namespace Scalar

@[simp] theorem text_same_text {s t : String} :
    (Scalar.text s).same (.text t) = true ↔ s = t := beq_iff_eq

@[simp] theorem sameKey_text {key : Scalar} {t : String} :
    key.sameKey (.text t) = true ↔ key = .text t := by
  cases key with
  | real x => cases x <;> exact ⟨fun h => absurd h Bool.false_ne_true, nofun⟩
  | text s => exact text_same_text.trans (by rw [Scalar.text.injEq])
  | _ => exact ⟨fun h => absurd h Bool.false_ne_true, nofun⟩

@[simp] theorem text_sameKey {key : Scalar} {t : String} :
    Scalar.sameKey (.text t) key = true ↔ key = .text t := by
  cases key with
  | text s => exact text_same_text.trans (by rw [Scalar.text.injEq, eq_comm])
  | _ => exact ⟨fun h => absurd h Bool.false_ne_true, nofun⟩

theorem eq_text_of_same {a : Scalar} {t : String} (h : a.same (.text t) = true) : a = .text t := by
  cases a with
  | text s => exact congrArg Scalar.text (text_same_text.mp h)
  | _ => exact absurd h Bool.false_ne_true

/-- As a key, every scalar equals itself. -/
theorem sameKey_self (a : Scalar) : a.sameKey a = true := by
  have hquantity : ∀ q : Quantity, q ≠ .undefined → q.equal q = true := by
    intro q hq
    cases q <;> simp_all [Quantity.equal]
  cases a with
  | null | text | octets | undefined => simp [sameKey, same]
  | bool b => exact hquantity (.ofBool b) (by simp [Quantity.ofBool, Quantity.ofInt])
  | int i => exact hquantity (.ofInt i) (by simp [Quantity.ofInt])
  | real x =>
    cases x with
    | nan => rfl
    | infinity negative => cases negative <;> rfl
    | finite negative mantissa exponent =>
      exact hquantity (.ofBinary64 (.finite negative mantissa exponent)) (by simp [Quantity.ofBinary64])
  | stamp t mark =>
    simp only [sameKey, same, Timestamp.same, Timestamp.measures?]
    cases t.time with
    | none => simp
    | some c => cases hoffset : c.offset <;> simp [hoffset]

end Scalar

namespace Entries

variable {α β : Type} {entries others : Entries α} {key k : Scalar} {t u : String} {v w : α}

/-- The keys are texts, and none of them occurs twice. -/
structure TextKeyed (entries : Entries α) : Prop where
  exists_text : ∀ key ∈ entries.keys, ∃ t, key = .text t
  nodup : entries.keys.Nodup

instance (key : Scalar) : Decidable (∃ t, key = .text t) :=
  match key with
  | .text t => .isTrue ⟨t, rfl⟩
  | .null | .bool _ | .int _ | .real _ | .octets _ | .stamp .. | .undefined _ => .isFalse (by simp)

instance (entries : Entries α) : Decidable entries.TextKeyed :=
  decidable_of_iff ((∀ key ∈ entries.keys, ∃ t, key = .text t) ∧ entries.keys.Nodup)
    ⟨fun h => ⟨h.1, h.2⟩, fun h => ⟨h.exists_text, h.nodup⟩⟩

@[simp] theorem keys_nil : keys ([] : Entries α) = [] := rfl

@[simp] theorem keys_cons : Entries.keys ((key, v) :: entries) = key :: entries.keys := rfl

@[simp] theorem get?_nil : get? key ([] : Entries α) = none := rfl

@[simp] theorem put_nil : put key w [] = [(key, w)] := rfl

@[simp] theorem remove_nil : remove key ([] : Entries α) = [] := rfl

theorem get?_cons : get? key ((k, v) :: entries) = if k.sameKey key then some v else get? key entries := rfl

theorem put_cons : put key w ((k, v) :: entries) =
    if k.sameKey key then (k, w) :: entries else (k, v) :: put key w entries := rfl

theorem remove_cons : remove key ((k, v) :: entries) =
    if k.sameKey key then entries else (k, v) :: remove key entries := rfl

theorem get?_cons_text :
    get? (.text t) ((key, v) :: entries) =
      if key = .text t then some v else get? (.text t) entries :=
  if_congr Scalar.sameKey_text rfl rfl

theorem put_cons_text :
    put (.text t) w ((key, v) :: entries) =
      if key = .text t then (key, w) :: entries else (key, v) :: put (.text t) w entries :=
  if_congr Scalar.sameKey_text rfl rfl

theorem remove_cons_text :
    remove (.text t) ((key, v) :: entries) =
      if key = .text t then entries else (key, v) :: remove (.text t) entries :=
  if_congr Scalar.sameKey_text rfl rfl

@[simp] theorem keys_append : Entries.keys (entries ++ others) = entries.keys ++ others.keys :=
  List.map_append

/-- What is made of entries one by one has the same keys if each keeps its key. -/
theorem keys_eq_of_forall₂ {β : Type} {others : Entries β} {R : Scalar × α → Scalar × β → Prop}
    (h : List.Forall₂ R entries others) (hkey : ∀ e b, R e b → b.1 = e.1) : others.keys = entries.keys := by
  induction h with
  | nil => rfl
  | cons he _ ih => rw [keys, List.map_cons, hkey _ _ he]; exact congrArg (_ :: ·) ih

/-! ## Any keys -/

theorem exists_mem_of_get? (h : entries.get? key = some v) : ∃ k, (k, v) ∈ entries := by
  induction entries with
  | nil => simp at h
  | cons entry rest ih =>
    obtain ⟨k, w⟩ := entry
    rw [get?_cons] at h
    split at h
    · obtain rfl := Option.some.inj h
      exact ⟨k, List.mem_cons_self⟩
    · obtain ⟨k', hk'⟩ := ih h
      exact ⟨k', List.mem_cons_of_mem _ hk'⟩

theorem mem_values_of_get?_eq_some (h : entries.get? key = some v) : v ∈ entries.values := by
  obtain ⟨k, hk⟩ := exists_mem_of_get? h
  exact List.mem_map_of_mem (f := Prod.snd) hk

theorem mem_put_cases {e : Scalar × α} (h : e ∈ put key w entries) :
    e ∈ entries ∨ e.1.sameKey key = true ∧ e.2 = w := by
  induction entries with
  | nil =>
    obtain rfl : e = (key, w) := List.mem_singleton.mp h
    exact .inr ⟨Scalar.sameKey_self key, rfl⟩
  | cons entry rest ih =>
    obtain ⟨k, x⟩ := entry
    rw [put_cons] at h
    split at h
    · next hsame =>
      rcases List.mem_cons.mp h with rfl | hmem
      · exact .inr ⟨hsame, rfl⟩
      · exact .inl (List.mem_cons_of_mem _ hmem)
    · rcases List.mem_cons.mp h with rfl | hmem
      · exact .inl List.mem_cons_self
      · exact (ih hmem).imp_left (List.mem_cons_of_mem _)

theorem mem_or_eq_of_mem_put {e : Scalar × α} (h : e ∈ put key w entries) : e ∈ entries ∨ e.2 = w :=
  (mem_put_cases h).imp_right And.right

theorem mem_values_put (h : v ∈ (put key w entries).values) : v ∈ entries.values ∨ v = w := by
  obtain ⟨e, he, rfl⟩ := List.mem_map.mp h
  exact (mem_or_eq_of_mem_put he).imp_left fun hmem => List.mem_map_of_mem hmem

theorem mem_or_of_mem_putAll {e : Scalar × α} (h : e ∈ entries.putAll others) :
    e ∈ entries ∨ e.2 ∈ others.values := by
  induction others generalizing entries with
  | nil => exact .inl h
  | cons entry rest ih =>
    rcases ih h with hput | hrest
    · rcases mem_or_eq_of_mem_put hput with hold | heq
      · exact .inl hold
      · exact .inr (by simp [values, heq])
    · exact .inr (List.mem_cons_of_mem _ hrest)

/-- A value is put under its key, or under one that is the same as a key. -/
theorem exists_mem_put : ∃ k, (k, w) ∈ put key w entries ∧ k.sameKey key = true := by
  induction entries with
  | nil => exact ⟨key, by simp, Scalar.sameKey_self key⟩
  | cons e rest ih =>
    obtain ⟨k, u⟩ := e
    rw [put_cons]
    split
    · next hsame => exact ⟨k, by simp, hsame⟩
    · obtain ⟨k', hk', hsame⟩ := ih
      exact ⟨k', List.mem_cons_of_mem _ hk', hsame⟩

/-- Putting a value takes no key away. -/
theorem exists_mem_put_of_mem {e : Scalar × α} (h : e ∈ entries) : ∃ u, (e.1, u) ∈ put key w entries := by
  induction entries with
  | nil => simp at h
  | cons e' rest ih =>
    rw [put_cons]
    rcases List.mem_cons.mp h with rfl | hrest
    · split
      · exact ⟨w, by simp⟩
      · exact ⟨e.2, by simp⟩
    · split
      · exact ⟨e.2, List.mem_cons_of_mem _ hrest⟩
      · obtain ⟨u, hu⟩ := ih hrest
        exact ⟨u, List.mem_cons_of_mem _ hu⟩

/-- Removing a key leaves the entries under other keys. -/
theorem mem_remove_of_ne {e : Scalar × α} (h : e ∈ entries) (hne : e.1 ≠ .text t) :
    e ∈ remove (.text t) entries := by
  induction entries with
  | nil => simp at h
  | cons e' rest ih =>
    rw [remove_cons_text]
    rcases List.mem_cons.mp h with rfl | hrest
    · rw [if_neg hne]
      exact List.mem_cons_self
    · split
      · exact hrest
      · exact List.mem_cons_of_mem _ (ih hrest)

theorem notMem_keys_of_get?_eq_none (h : entries.get? key = none) : key ∉ entries.keys := by
  induction entries with
  | nil => simp
  | cons entry rest ih =>
    obtain ⟨k, x⟩ := entry
    rw [get?_cons] at h
    split at h
    · cases h
    · next hne =>
      rw [keys_cons, List.mem_cons, not_or]
      refine ⟨?_, ih h⟩
      rintro rfl
      exact hne (Scalar.sameKey_self _)

/-- Putting a value under a key gives a key that is there already no second place. -/
theorem keys_put_cases : (put key w entries).keys = entries.keys ∨
    entries.get? key = none ∧ (put key w entries).keys = entries.keys ++ [key] := by
  induction entries with
  | nil => exact .inr ⟨rfl, rfl⟩
  | cons entry rest ih =>
    obtain ⟨k, x⟩ := entry
    rw [put_cons, get?_cons]
    split
    · exact .inl rfl
    · refine ih.imp (fun h => ?_) fun h => ⟨h.1, ?_⟩
      · rw [keys_cons, keys_cons, h]
      · rw [keys_cons, keys_cons, h.2, List.cons_append]

/-- Keys that do not repeat never do so by putting. -/
theorem nodup_keys_put_any (h : entries.keys.Nodup) : (put key w entries).keys.Nodup := by
  rcases keys_put_cases with heq | ⟨hnone, heq⟩
  · rwa [heq]
  · rw [heq, List.nodup_append]
    refine ⟨h, List.nodup_singleton key, fun k hk k' hk' hkk' => ?_⟩
    obtain rfl := List.mem_singleton.mp hk'
    exact notMem_keys_of_get?_eq_none hnone (hkk' ▸ hk)

theorem nodup_keys_putAll (h : entries.keys.Nodup) : (entries.putAll others).keys.Nodup := by
  induction others generalizing entries with
  | nil => exact h
  | cons entry rest ih => exact ih (nodup_keys_put_any h)

/-! ## Looking up -/

theorem has_eq_false : entries.has key = false ↔ entries.get? key = none := by
  rw [has, Option.isSome_eq_false_iff, Option.isNone_iff_eq_none]

theorem get?_map {β : Type} {f : α → β} :
    get? key (entries.map fun e => (e.1, f e.2)) = (entries.get? key).map f := by
  induction entries with
  | nil => rfl
  | cons e rest ih =>
    rw [List.map_cons, get?_cons, get?_cons]
    split
    · rfl
    · exact ih

theorem mem_of_get? (h : get? (.text t) entries = some v) : (.text t, v) ∈ entries := by
  induction entries with
  | nil => simp at h
  | cons entry rest ih =>
    obtain ⟨key, w⟩ := entry
    rw [get?_cons_text] at h
    split at h
    · next hkey =>
      obtain rfl : w = v := by simpa using h
      simp [hkey]
    · exact List.mem_cons_of_mem _ (ih h)

theorem mem_values_of_get? (h : get? (.text t) entries = some v) : v ∈ entries.values :=
  List.mem_map_of_mem (f := Prod.snd) (mem_of_get? h)

theorem get?_of_mem (hnodup : entries.keys.Nodup) (h : (.text t, v) ∈ entries) :
    get? (.text t) entries = some v := by
  induction entries with
  | nil => simp at h
  | cons entry rest ih =>
    obtain ⟨key, w⟩ := entry
    rw [keys_cons, List.nodup_cons] at hnodup
    rw [get?_cons_text]
    rcases List.mem_cons.mp h with heq | hmem
    · obtain ⟨rfl, rfl⟩ : Scalar.text t = key ∧ v = w := by simpa using heq
      simp
    · have hne : key ≠ .text t := by
        rintro rfl
        exact hnodup.1 (List.mem_map.mpr ⟨_, hmem, rfl⟩)
      rw [if_neg hne]
      exact ih hnodup.2 hmem

theorem TextKeyed.exists_of_mem_values (h : entries.TextKeyed) (hv : v ∈ entries.values) :
    ∃ t, get? (.text t) entries = some v := by
  obtain ⟨e, he, rfl⟩ := List.mem_map.mp hv
  obtain ⟨t, ht⟩ := h.exists_text e.1 (List.mem_map_of_mem he)
  exact ⟨t, get?_of_mem h.nodup (ht ▸ he)⟩

theorem get?_eq_none : get? (.text t) entries = none ↔ .text t ∉ entries.keys := by
  induction entries with
  | nil => simp
  | cons entry rest ih =>
    obtain ⟨key, w⟩ := entry
    rw [get?_cons_text, keys_cons, List.mem_cons, not_or, ← ih]
    by_cases hkey : key = .text t
    · simp [hkey]
    · simp [hkey, Ne.symm hkey]

theorem has_text : entries.has (.text t) = true ↔ .text t ∈ entries.keys := by
  rw [has, Option.isSome_iff_ne_none, ne_eq, get?_eq_none, not_not]

theorem has_eq_of_keys_eq {entries : Entries α} {others : Entries β}
    (h : entries.keys = others.keys) : entries.has (.text t) = others.has (.text t) := by
  rw [Bool.eq_iff_iff, has_text, has_text, h]

theorem exists_get? (h : .text t ∈ entries.keys) : ∃ v, get? (.text t) entries = some v := by
  rw [← has_text, has] at h
  exact Option.isSome_iff_exists.mp h

/-! ## Putting -/

theorem get?_put : get? (.text u) (put (.text t) w entries) =
    if t = u then some w else get? (.text u) entries := by
  induction entries with
  | nil => simp [get?_cons_text]
  | cons entry rest ih =>
    obtain ⟨key, v⟩ := entry
    rw [put_cons_text]
    by_cases hkey : key = .text t
    · subst hkey
      by_cases htu : t = u <;> simp [get?_cons_text, htu]
    · rw [if_neg hkey, get?_cons_text, get?_cons_text, ih]
      by_cases htu : t = u
      · subst htu
        simp [hkey]
      · simp [htu]

@[simp] theorem get?_put_self : get? (.text t) (put (.text t) w entries) = some w := by
  simp [get?_put]

/-- Putting a value under another key leaves that of a text. -/
theorem get?_put_of_ne (hne : key ≠ .text t) : get? (.text t) (put key w entries) = get? (.text t) entries := by
  induction entries with
  | nil => rw [put_nil, get?_cons_text, if_neg hne]
  | cons e rest ih =>
    obtain ⟨k, x⟩ := e
    rw [put_cons]
    split
    · next hsame =>
      have hk : k ≠ .text t := by
        rintro rfl
        exact hne (Scalar.text_sameKey.mp hsame)
      rw [get?_cons_text, get?_cons_text, if_neg hk, if_neg hk]
    · rw [get?_cons_text, get?_cons_text, ih]

theorem has_put : (put (.text t) w entries).has (.text u) = (decide (t = u) || entries.has (.text u)) := by
  rw [has, get?_put]
  split <;> simp [*, has]

theorem keys_put : (put (.text t) w entries).keys =
    if .text t ∈ entries.keys then entries.keys else entries.keys ++ [.text t] := by
  induction entries with
  | nil => simp
  | cons entry rest ih =>
    obtain ⟨key, v⟩ := entry
    rw [put_cons_text]
    by_cases hkey : key = .text t
    · simp [hkey]
    · rw [if_neg hkey, keys_cons, keys_cons, ih]
      by_cases hmem : Scalar.text t ∈ keys rest
      · simp [hmem]
      · simp [hmem, Ne.symm hkey]

theorem mem_keys_put : key ∈ (put (.text t) w entries).keys ↔ key ∈ entries.keys ∨ key = .text t := by
  rw [keys_put]
  split
  · next hmem =>
    constructor
    · exact Or.inl
    · rintro (h | rfl)
      · exact h
      · exact hmem
  · simp

theorem nodup_keys_put (h : entries.keys.Nodup) : (put (.text t) w entries).keys.Nodup := by
  rw [keys_put]
  split
  · exact h
  · next hmem => simpa [List.nodup_append] using ⟨h, fun a ha hat => hmem (hat ▸ ha)⟩

theorem put_of_notMem (h : .text t ∉ entries.keys) :
    put (.text t) w entries = entries ++ [(.text t, w)] := by
  induction entries with
  | nil => rfl
  | cons entry rest ih =>
    obtain ⟨key, v⟩ := entry
    rw [keys_cons, List.mem_cons, not_or] at h
    rw [put_cons_text, if_neg (Ne.symm h.1), ih h.2, List.cons_append]

theorem mem_put (h : (key, v) ∈ put (.text t) w entries) :
    (key, v) ∈ entries ∨ key = .text t ∧ v = w := by
  induction entries with
  | nil =>
    obtain ⟨rfl, rfl⟩ : key = .text t ∧ v = w := by simpa [put] using h
    exact .inr ⟨rfl, rfl⟩
  | cons entry rest ih =>
    obtain ⟨k, x⟩ := entry
    rw [put_cons_text] at h
    split at h
    · next hk =>
      rcases List.mem_cons.mp h with heq | hmem
      · obtain ⟨rfl, rfl⟩ : key = k ∧ v = w := by simpa using heq
        exact .inr ⟨hk, rfl⟩
      · exact .inl (List.mem_cons_of_mem _ hmem)
    · rcases List.mem_cons.mp h with heq | hmem
      · exact .inl (heq ▸ List.mem_cons_self)
      · exact (ih hmem).imp_left (List.mem_cons_of_mem _)

theorem TextKeyed.put (h : entries.TextKeyed) : (put (.text t) w entries).TextKeyed where
  exists_text key hkey := by
    rcases mem_keys_put.mp hkey with hmem | rfl
    · exact h.exists_text key hmem
    · exact ⟨t, rfl⟩
  nodup := nodup_keys_put h.nodup

theorem put_of_get? (h : get? (.text t) entries = some v) : put (.text t) v entries = entries := by
  induction entries with
  | nil => simp at h
  | cons entry rest ih =>
    obtain ⟨k, x⟩ := entry
    rw [get?_cons_text] at h
    rw [put_cons_text]
    split at h
    · next hkey => rw [if_pos hkey, Option.some.inj h]
    · next hkey => rw [if_neg hkey, ih h]

/-- A key that does not count may be put anywhere. -/
theorem filterMap_put {f : Scalar × α → Option β} (h : ∀ v, f (.text t, v) = none) :
    (put (.text t) w entries).filterMap f = entries.filterMap f := by
  induction entries with
  | nil => simp [h]
  | cons entry rest ih =>
    obtain ⟨k, x⟩ := entry
    rw [put_cons_text]
    split
    · next hkey => simp [hkey, h]
    · rw [List.filterMap_cons, List.filterMap_cons, ih]

/-! ## Removing -/

theorem keys_remove (h : entries.keys.Nodup) :
    (remove (.text t) entries).keys = entries.keys.filter (· ≠ .text t) := by
  induction entries with
  | nil => rfl
  | cons entry rest ih =>
    obtain ⟨key, v⟩ := entry
    rw [keys_cons, List.nodup_cons] at h
    rw [remove_cons_text]
    by_cases hkey : key = .text t
    · subst hkey
      rw [if_pos rfl, keys_cons, List.filter_cons_of_neg (by simp)]
      refine (List.filter_eq_self.mpr fun k hk => ?_).symm
      simp only [decide_eq_true_eq, ne_eq]
      rintro rfl
      exact h.1 hk
    · rw [if_neg hkey, keys_cons, keys_cons, List.filter_cons_of_pos (by simpa using hkey),
        ih h.2]

theorem remove_eq_filter (h : entries.keys.Nodup) :
    remove (.text t) entries = entries.filter (·.1 ≠ .text t) := by
  induction entries with
  | nil => rfl
  | cons entry rest ih =>
    obtain ⟨key, v⟩ := entry
    rw [keys_cons, List.nodup_cons] at h
    rw [remove_cons_text]
    by_cases hkey : key = .text t
    · subst hkey
      rw [if_pos rfl, List.filter_cons_of_neg (by simp)]
      refine (List.filter_eq_self.mpr fun entry hentry => ?_).symm
      simp only [decide_eq_true_eq, ne_eq]
      intro heq
      exact h.1 (heq ▸ List.mem_map_of_mem hentry)
    · rw [if_neg hkey, List.filter_cons_of_pos (by simpa using hkey), ih h.2]

theorem remove_sublist : (remove key entries).Sublist entries := by
  induction entries with
  | nil => exact .slnil
  | cons e rest ih =>
    rw [remove_cons]
    split
    · exact List.sublist_cons_self _ _
    · exact ih.cons_cons _

theorem nodup_keys_remove (h : entries.keys.Nodup) : (remove key entries).keys.Nodup :=
  h.sublist (remove_sublist.map _)

theorem get?_remove_of_ne (hne : t ≠ u) :
    get? (.text u) (remove (.text t) entries) = get? (.text u) entries := by
  induction entries with
  | nil => rfl
  | cons e rest ih =>
    rw [remove_cons_text]
    split
    · next hkey => rw [get?_cons_text, if_neg (by simpa [hkey] using hne)]
    · rw [get?_cons_text, get?_cons_text, ih]

theorem get?_remove (h : entries.keys.Nodup) : get? (.text u) (remove (.text t) entries) =
    if t = u then none else get? (.text u) entries := by
  induction entries with
  | nil => simp
  | cons entry rest ih =>
    obtain ⟨key, v⟩ := entry
    rw [keys_cons, List.nodup_cons] at h
    rw [remove_cons_text]
    by_cases hkey : key = .text t
    · subst hkey
      by_cases htu : t = u
      · subst htu
        simpa [get?_eq_none] using h.1
      · simp [get?_cons_text, htu]
    · rw [if_neg hkey, get?_cons_text, get?_cons_text, ih h.2]
      by_cases htu : t = u
      · subst htu
        simp [hkey]
      · simp [htu]

theorem mem_of_mem_remove {entry : Scalar × α} (h : entry ∈ remove key entries) :
    entry ∈ entries := by
  induction entries with
  | nil => simp at h
  | cons e rest ih =>
    obtain ⟨k, x⟩ := e
    rw [remove_cons] at h
    split at h
    · exact List.mem_cons_of_mem _ h
    · rcases List.mem_cons.mp h with heq | hmem
      · exact heq ▸ List.mem_cons_self
      · exact List.mem_cons_of_mem _ (ih hmem)

theorem remove_append_cons (h : .text t ∉ entries.keys) :
    remove (.text t) (entries ++ (.text t, v) :: others) = entries ++ others := by
  induction entries with
  | nil => simp [remove_cons_text]
  | cons entry rest ih =>
    obtain ⟨k, x⟩ := entry
    rw [keys_cons, List.mem_cons, not_or] at h
    rw [List.cons_append, remove_cons_text, if_neg (Ne.symm h.1), ih h.2, List.cons_append]

theorem TextKeyed.remove (h : entries.TextKeyed) : (remove (.text t) entries).TextKeyed where
  exists_text key hkey := by
    rw [keys_remove h.nodup] at hkey
    exact h.exists_text key (List.mem_of_mem_filter hkey)
  nodup := by
    rw [keys_remove h.nodup]
    exact h.nodup.filter _

/-! ## Putting many -/

@[simp] theorem putAll_nil : entries.putAll [] = entries := rfl

@[simp] theorem putAll_cons :
    entries.putAll ((key, v) :: others) = (put key v entries).putAll others := rfl

theorem putAll_append {further : Entries α} :
    entries.putAll (others ++ further) = (entries.putAll others).putAll further :=
  List.foldl_append

theorem mem_keys_putAll_of_text (hothers : ∀ key ∈ others.keys, ∃ t, key = .text t) :
    key ∈ (entries.putAll others).keys ↔ key ∈ entries.keys ∨ key ∈ others.keys := by
  induction others generalizing entries with
  | nil => simp
  | cons entry rest ih =>
    obtain ⟨k, x⟩ := entry
    obtain ⟨t, rfl⟩ := hothers k (by simp)
    rw [putAll_cons, ih fun key hkey => hothers key (List.mem_cons_of_mem _ hkey), mem_keys_put, keys_cons,
      List.mem_cons]
    tauto

theorem mem_or_mem_of_mem_putAll {e : Scalar × α} (hothers : ∀ key ∈ others.keys, ∃ t, key = .text t)
    (h : e ∈ entries.putAll others) : e ∈ entries ∨ e ∈ others := by
  induction others generalizing entries with
  | nil => exact .inl h
  | cons entry rest ih =>
    obtain ⟨k, x⟩ := entry
    obtain ⟨t, rfl⟩ := hothers k (by simp)
    rcases ih (fun key hkey => hothers key (List.mem_cons_of_mem _ hkey)) h with hput | hrest
    · rcases mem_put_cases hput with hold | ⟨hkey, hvalue⟩
      · exact .inl hold
      · obtain ⟨key, v⟩ := e
        obtain rfl : key = .text t := Scalar.sameKey_text.mp hkey
        obtain rfl : v = x := hvalue
        exact .inr List.mem_cons_self
    · exact .inr (List.mem_cons_of_mem _ hrest)

theorem get?_putAll (h : others.TextKeyed) : get? (.text u) (entries.putAll others) =
    (get? (.text u) others).or (get? (.text u) entries) := by
  induction others generalizing entries with
  | nil => simp
  | cons entry rest ih =>
    obtain ⟨k, x⟩ := entry
    obtain ⟨t, rfl⟩ := h.exists_text k (by simp)
    have hnodup := List.nodup_cons.mp h.nodup
    have hrest : TextKeyed rest :=
      ⟨fun key hkey => h.exists_text key (List.mem_cons_of_mem _ hkey), hnodup.2⟩
    rw [putAll_cons, ih hrest, get?_put, get?_cons_text]
    by_cases htu : t = u
    · subst htu
      have hnone : get? (.text t) rest = none := get?_eq_none.mpr hnodup.1
      simp [hnone]
    · simp [htu]

theorem TextKeyed.putAll (h : entries.TextKeyed) (hothers : ∀ key ∈ others.keys, ∃ t, key = .text t) :
    (entries.putAll others).TextKeyed := by
  induction others generalizing entries with
  | nil => exact h
  | cons entry rest ih =>
    obtain ⟨k, x⟩ := entry
    obtain ⟨t, rfl⟩ := hothers k (by simp)
    exact ih h.put fun key hkey => hothers key (List.mem_cons_of_mem _ hkey)

/-- What is found under other keys has not been put. -/
theorem mem_of_mem_putAll {e : Scalar × α} (h : entries.TextKeyed) (hothers : others.TextKeyed)
    (he : e ∈ entries.putAll others) (hnot : others.has e.1 = false) : e ∈ entries := by
  obtain ⟨key, x⟩ := e
  have hkeyed := h.putAll hothers.exists_text
  obtain ⟨t, rfl⟩ := hkeyed.exists_text key (List.mem_map_of_mem he)
  have hget := get?_of_mem hkeyed.nodup he
  rw [get?_putAll hothers, has_eq_false.mp hnot, Option.none_or] at hget
  exact mem_of_get? hget

/-- Putting what is there already changes nothing. -/
theorem putAll_of_get? (hothers : others.TextKeyed)
    (h : ∀ t v, others.get? (.text t) = some v → entries.get? (.text t) = some v) :
    entries.putAll others = entries := by
  induction others with
  | nil => rfl
  | cons entry rest ih =>
    obtain ⟨k, x⟩ := entry
    obtain ⟨t, rfl⟩ := hothers.exists_text k (by simp)
    have hnodup := List.nodup_cons.mp hothers.nodup
    rw [putAll_cons, put_of_get? (h t x (by simp [get?_cons_text]))]
    refine ih ⟨fun key hkey => hothers.exists_text key (List.mem_cons_of_mem _ hkey), hnodup.2⟩ ?_
    intro u v hv
    refine h u v ?_
    rw [get?_cons_text, if_neg]
    · exact hv
    · rintro heq
      obtain rfl := Scalar.text.inj heq
      exact hnodup.1 (has_text.mp (by simp [has, hv]))

theorem filterMap_putAll {f : Scalar × α → Option β} (hothers : ∀ key ∈ others.keys, ∃ t, key = .text t)
    (h : ∀ key ∈ others.keys, ∀ v, f (key, v) = none) :
    (entries.putAll others).filterMap f = entries.filterMap f := by
  induction others generalizing entries with
  | nil => rfl
  | cons entry rest ih =>
    obtain ⟨k, x⟩ := entry
    obtain ⟨t, rfl⟩ := hothers k (by simp)
    rw [putAll_cons, ih (fun key hkey => hothers key (List.mem_cons_of_mem _ hkey))
      (fun key hkey => h key (List.mem_cons_of_mem _ hkey)), filterMap_put (h _ (by simp))]

/-- Entries under new keys come behind those that are there. -/
theorem putAll_eq_append (hothers : ∀ key ∈ others.keys, ∃ t, key = .text t)
    (h : (entries.keys ++ others.keys).Nodup) : entries.putAll others = entries ++ others := by
  induction others generalizing entries with
  | nil => simp
  | cons entry rest ih =>
    obtain ⟨k, x⟩ := entry
    obtain ⟨t, rfl⟩ := hothers k (by simp)
    rw [keys_cons, List.append_cons] at h
    have hnew : .text t ∉ entries.keys := fun hmem =>
      (List.nodup_append.mp (List.nodup_append.mp h).1).2.2 _ hmem _ (List.mem_singleton_self _) rfl
    rw [putAll_cons, put_of_notMem hnew, ih (fun key hkey => hothers key (List.mem_cons_of_mem _ hkey))
      (by simpa using h), List.append_assoc, List.singleton_append]

/-! ## Keys that count -/

section

variable {p : Scalar → Bool}

theorem get?_filter (hp : p (.text t) = true) :
    get? (.text t) (entries.filter fun e => p e.1) = get? (.text t) entries := by
  induction entries with
  | nil => rfl
  | cons e rest ih =>
    obtain ⟨key, x⟩ := e
    cases hkey : p key with
    | false =>
      rw [List.filter_cons_of_neg (by simp [hkey]), ih, get?_cons_text, if_neg]
      rintro rfl
      simp [hp] at hkey
    | true => rw [List.filter_cons_of_pos (by simp [hkey]), get?_cons_text, get?_cons_text, ih]

theorem TextKeyed.filter {p : Scalar × α → Bool} (h : entries.TextKeyed) : TextKeyed (entries.filter p) where
  exists_text key hkey := by
    obtain ⟨e, he, rfl⟩ := List.mem_map.mp hkey
    exact h.exists_text e.1 (List.mem_map_of_mem (List.mem_filter.mp he).1)
  nodup := h.nodup.sublist (List.filter_sublist.map Prod.fst)

/-- What does not count may be left out before a key is put that counts. -/
theorem filter_put_of_pos (hp : ∀ k : Scalar, k.sameKey key = true → p k = true) :
    (put key w entries).filter (fun e => p e.1) = put key w (entries.filter fun e => p e.1) := by
  induction entries with
  | nil => simp [put, hp key (Scalar.sameKey_self key)]
  | cons e rest ih =>
    obtain ⟨k, x⟩ := e
    cases hsame : k.sameKey key with
    | true =>
      have hk := hp k hsame
      rw [put, if_pos hsame, List.filter_cons_of_pos (by simp [hk]), List.filter_cons_of_pos (by simp [hk]), put,
        if_pos hsame]
    | false =>
      rw [put, if_neg (by simp [hsame])]
      cases hk : p k with
      | false => rw [List.filter_cons_of_neg (by simp [hk]), List.filter_cons_of_neg (by simp [hk]), ih]
      | true =>
        rw [List.filter_cons_of_pos (by simp [hk]), List.filter_cons_of_pos (by simp [hk]), ih, put,
          if_neg (by simp [hsame])]

theorem filter_put_of_neg (hp : ∀ k : Scalar, k.sameKey key = true → p k = false) :
    (put key w entries).filter (fun e => p e.1) = entries.filter fun e => p e.1 := by
  induction entries with
  | nil => simp [put, hp key (Scalar.sameKey_self key)]
  | cons e rest ih =>
    obtain ⟨k, x⟩ := e
    cases hsame : k.sameKey key with
    | true =>
      have hk := hp k hsame
      rw [put, if_pos hsame, List.filter_cons_of_neg (by simp [hk]), List.filter_cons_of_neg (by simp [hk])]
    | false =>
      rw [put, if_neg (by simp [hsame])]
      cases hk : p k with
      | false => rw [List.filter_cons_of_neg (by simp [hk]), List.filter_cons_of_neg (by simp [hk]), ih]
      | true => rw [List.filter_cons_of_pos (by simp [hk]), List.filter_cons_of_pos (by simp [hk]), ih]

theorem filter_remove (hp : p (.text t) = true) :
    (remove (.text t) entries).filter (fun e => p e.1) = remove (.text t) (entries.filter fun e => p e.1) := by
  induction entries with
  | nil => rfl
  | cons e rest ih =>
    obtain ⟨key, x⟩ := e
    rw [remove_cons_text]
    by_cases hself : key = .text t
    · subst hself
      rw [if_pos rfl, List.filter_cons_of_pos (by simp [hp]), remove_cons_text, if_pos rfl]
    · rw [if_neg hself]
      cases hkey : p key with
      | false => rw [List.filter_cons_of_neg (by simp [hkey]), List.filter_cons_of_neg (by simp [hkey]), ih]
      | true =>
        rw [List.filter_cons_of_pos (by simp [hkey]), List.filter_cons_of_pos (by simp [hkey]), remove_cons_text, if_neg hself, ih]

/-- What does not count may be left out before putting. -/
theorem filter_putAll (hothers : ∀ key ∈ others.keys, ∃ t, key = .text t) :
    (entries.putAll others).filter (fun e => p e.1) =
      Entries.putAll (entries.filter fun e => p e.1) (others.filter fun e => p e.1) := by
  induction others generalizing entries with
  | nil => rfl
  | cons e rest ih =>
    obtain ⟨key, x⟩ := e
    obtain ⟨t, rfl⟩ := hothers key (by simp)
    rw [putAll_cons, ih fun key hkey => hothers key (List.mem_cons_of_mem _ hkey)]
    cases hp : p (.text t) with
    | false => rw [filter_put_of_neg (by simp [hp]), List.filter_cons_of_neg (by simp [hp])]
    | true => rw [filter_put_of_pos (by simp [hp]), List.filter_cons_of_pos (by simp [hp]), putAll_cons]

end

end Entries

end DeviceApi
