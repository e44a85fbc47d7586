import DeviceApi.Proofs.Schema.Unordered

/-!
# Schemas in other words

A schema says the same in other words if it states what holds anyway, lists the names that it requires in another
order, or has its keys in another order. The shape key of its canonical form does not change.
-/

namespace DeviceApi

namespace Tree

variable {t t' u u' v v' : Tree} {type key : Scalar} {name : String} {e : Scalar × Tree}
  {entries entries' before after : List (Scalar × Tree)}

/-! ## One entry among others -/

theorem get?_insert (hne : key ≠ .text name) : Entries.get? (.text name) (before ++ (key, v) :: after) =
    Entries.get? (.text name) (before ++ after) := by
  induction before with
  | nil => rw [List.nil_append, Entries.get?_cons_text, if_neg hne, List.nil_append]
  | cons e rest ih =>
    obtain ⟨k, w⟩ := e
    rw [List.cons_append, Entries.get?_cons_text, ih, List.cons_append, Entries.get?_cons_text]

/-- The value under a key makes no difference to what is found under others. -/
theorem get?_replace (hne : key ≠ .text name) : Entries.get? (.text name) (before ++ (key, v) :: after) =
    Entries.get? (.text name) (before ++ (key, v') :: after) :=
  (get?_insert hne).trans (get?_insert hne).symm

theorem notMem_keys_of_insert (hnodup : (Entries.keys (before ++ e :: after)).Nodup) :
    e.1 ∉ Entries.keys (before ++ after) := by
  rw [Entries.keys, (List.perm_middle.map Prod.fst).nodup_iff] at hnodup
  exact (List.nodup_cons.mp hnodup).1

theorem textKeyed_insert_iff (hnew : .text name ∉ Entries.keys (before ++ after)) :
    Entries.TextKeyed (before ++ (.text name, v) :: after) ↔ Entries.TextKeyed (before ++ after) := by
  have hperm : (before ++ (.text name, v) :: after).Perm ((.text name, v) :: (before ++ after)) := List.perm_middle
  constructor
  · intro h
    exact (h.perm hperm).of_sublist (List.sublist_cons_self _ _)
  · intro h
    have hcons : Entries.TextKeyed ((.text name, v) :: (before ++ after)) := by
      refine ⟨fun key hkey => ?_, List.nodup_cons.mpr ⟨hnew, h.nodup⟩⟩
      rcases List.mem_cons.mp hkey with rfl | hkey
      · exact ⟨name, rfl⟩
      · exact h.exists_text key hkey
    exact hcons.perm hperm.symm

theorem get?_append_cons (hnodup : (Entries.keys (before ++ (.text name, v) :: after)).Nodup) :
    Entries.get? (.text name) (before ++ (.text name, v) :: after) = some v :=
  Entries.get?_of_mem hnodup (by simp)

theorem has_replace (hne : key ≠ .text name) : Entries.has (before ++ (key, v) :: after) (.text name) =
    Entries.has (before ++ (key, v') :: after) (.text name) := by
  rw [Entries.has, Entries.has, get?_replace hne]

theorem schemaType_replace (hne : key ≠ .text "type") :
    schemaType (before ++ (key, v) :: after) = schemaType (before ++ (key, v') :: after) := by
  rw [schemaType, schemaType, get?_replace hne]

theorem keys_replace : Entries.keys (before ++ (key, v) :: after) = Entries.keys (before ++ (key, v') :: after) := by
  simp [Entries.keys]

theorem isJson_replace (h : v.IsJson ↔ v'.IsJson) : (Tree.object (before ++ (key, v) :: after)).IsJson ↔
    (Tree.object (before ++ (key, v') :: after)).IsJson := by
  have hkeyed : Entries.TextKeyed (before ++ (key, v) :: after) ↔ Entries.TextKeyed (before ++ (key, v') :: after) :=
    ⟨fun hkeyed => hkeyed.of_keys_perm (.of_eq keys_replace), fun hkeyed => hkeyed.of_keys_perm (.of_eq keys_replace)⟩
  rw [IsJson, IsJson, entriesAreJson_iff, entriesAreJson_iff]
  refine and_congr hkeyed ?_
  simp only [List.forall_mem_append, List.forall_mem_cons, h]

theorem IsJson.of_entry (h : (Tree.object (before ++ (key, v) :: after)).IsJson) : v.IsJson :=
  entriesAreJson_iff.mp h.2 (key, v) (by simp)

theorem has_insert (hown : Entries.has (before ++ after) referenceKey = false) (hne : key ≠ .text "$ref") :
    Entries.has (before ++ (key, v) :: after) referenceKey = false := by
  have hne' : key ≠ .text referenceKey := hne
  rw [Entries.has, get?_insert hne', ← Entries.has, hown]

theorem schemaType_insert (hne : key ≠ .text "type") :
    schemaType (before ++ (key, v) :: after) = schemaType (before ++ after) := by
  rw [schemaType, schemaType, get?_insert hne]

/-! ## Edits -/

/-- The entry states what a schema with the other entries has anyway. -/
inductive Implied (entries : List (Scalar × Tree)) : Scalar × Tree → Prop
  | text (htype : schemaType entries = .text "string") : Implied entries (.text "default", .text "")
  | no (htype : schemaType entries = .text "boolean") : Implied entries (.text "default", .scalar (.bool false))
  | zero {a : Scalar} (htype : schemaType entries = .text "integer" ∨ schemaType entries = .text "number")
      (ha : a.isZeroNumber = true) : Implied entries (.text "default", .scalar a)
  | format (htype : schemaType entries = .text "integer") :
      Implied entries (.text "format", .text defaultIntegerFormat)
  | minimum {a : Scalar} {bounds : Int × Int} (hbounds : formatBounds? (stated entries) = some bounds)
      (ha : a.isInteger bounds.1 = true) : Implied entries (.text "minimum", .scalar a)
  | maximum {a : Scalar} {bounds : Int × Int} (hbounds : formatBounds? (stated entries) = some bounds)
      (ha : a.isInteger bounds.2 = true) : Implied entries (.text "maximum", .scalar a)

/-- The second tree is the first one with one of the schemas that are visited in other words: it states one thing more
that holds anyway, or it lists the names that it requires in another order. -/
inductive Rewords : Tree → Tree → Prop
  | states {before after : List (Scalar × Tree)} {e : Scalar × Tree}
      (hown : Entries.has (before ++ after) referenceKey = false) (hnew : e.1 ∉ Entries.keys (before ++ after))
      (h : Implied (before ++ after) e) : Rewords (.object (before ++ after)) (.object (before ++ e :: after))
  | requires {before after : List (Scalar × Tree)} {names names' : List String}
      (hown : Entries.has (before ++ after) referenceKey = false) (h : names.Perm names') :
      Rewords (.object (before ++ (.text "required", .list (names.map text)) :: after))
        (.object (before ++ (.text "required", .list (names'.map text)) :: after))
  | items {before after : List (Scalar × Tree)} {t t' : Tree}
      (hown : Entries.has (before ++ after) referenceKey = false)
      (htype : schemaType (before ++ after) = .text "array") (h : Rewords t t') :
      Rewords (.object (before ++ (.text "items", t) :: after)) (.object (before ++ (.text "items", t') :: after))
  | property {before after first last : List (Scalar × Tree)} {name : Scalar} {t t' : Tree}
      (hown : Entries.has (before ++ after) referenceKey = false)
      (htype : schemaType (before ++ after) = .text "object") (h : Rewords t t') :
      Rewords (.object (before ++ (.text "properties", .object (first ++ (name, t) :: last)) :: after))
        (.object (before ++ (.text "properties", .object (first ++ (name, t') :: last)) :: after))

/-- The second tree is the first one with the entries of one object in another order, wherever the object stands. -/
inductive Shuffles : Tree → Tree → Prop
  | here {entries entries' : List (Scalar × Tree)} (h : entries.Perm entries') :
      Shuffles (.object entries) (.object entries')
  | value {before after : List (Scalar × Tree)} {key : Scalar} {t t' : Tree} (h : Shuffles t t') :
      Shuffles (.object (before ++ (key, t) :: after)) (.object (before ++ (key, t') :: after))
  | item {before after : List Tree} {t t' : Tree} (h : Shuffles t t') :
      Shuffles (.list (before ++ t :: after)) (.list (before ++ t' :: after))

/-- The second tree comes from the first one by edits in either direction: what is stated may also be left out. -/
def SaysSame : Tree → Tree → Prop := Relation.EqvGen fun t t' => Rewords t t' ∨ Shuffles t t'

/-! ## Shuffled trees -/

namespace Shuffles

theorem isJson_iff (h : Shuffles t t') : t.IsJson ↔ t'.IsJson := by
  induction h with
  | here hperm =>
    rw [IsJson, IsJson, entriesAreJson_iff, entriesAreJson_iff]
    refine and_congr ⟨fun hkeyed => hkeyed.perm hperm, fun hkeyed => hkeyed.perm hperm.symm⟩ ?_
    exact forall_congr' fun e => by rw [hperm.mem_iff]
  | value _ ih => exact isJson_replace ih
  | item _ ih =>
    rw [IsJson, IsJson, areJson_iff, areJson_iff]
    simp only [List.forall_mem_append, List.forall_mem_cons, ih]

/-- Shuffled trees are the same once their keys are in order. -/
theorem sortKeys_eq (h : Shuffles t t') (ht : t.IsJson) : t.sortKeys = t'.sortKeys := by
  induction h with
  | here hperm =>
    rw [sortKeys_object_eq_mergeSort, sortKeys_object_eq_mergeSort]
    exact congrArg object (Entries.mergeSort_eq_of_perm (textKeyed_map_sortKeys ht.1) (hperm.map _))
  | @value before after key t t' _ ih =>
    have hjson : t.IsJson := ht.of_entry
    rw [sortKeys_object_eq_mergeSort, sortKeys_object_eq_mergeSort]
    simp only [List.map_append, List.map_cons, ih hjson]
  | @item before after t t' _ ih =>
    have hjson : t.IsJson := areJson_iff.mp ht t (by simp)
    rw [sortKeys_list, sortKeys_list]
    simp only [List.map_append, List.map_cons, ih hjson]

end Shuffles

/-! ## Trees of the same shape -/

/-- Either both trees can be brought into canonical form or none, and then what a shape key shows of them is the
same. -/
structure KeyedAlike (t t' : Tree) : Prop where
  fits : t.Fits ↔ t'.Fits
  bare : t.Fits → t.canonical.bare = t'.canonical.bare

namespace KeyedAlike

theorem refl (t : Tree) : KeyedAlike t t := ⟨Iff.rfl, fun _ => rfl⟩

theorem symm (h : KeyedAlike t t') : KeyedAlike t' t :=
  ⟨h.fits.symm, fun hfits => (h.bare (h.fits.mpr hfits)).symm⟩

theorem trans (h : KeyedAlike t u) (h' : KeyedAlike u t') : KeyedAlike t t' :=
  ⟨h.fits.trans h'.fits, fun hfits => (h.bare hfits).trans (h'.bare (h.fits.mp hfits))⟩

/-- Trees that are the same once their keys are in order have the same shape. -/
theorem of_sortKeys_eq (ht : t.IsJson) (ht' : t'.IsJson) (h : t.sortKeys = t'.sortKeys) : KeyedAlike t t' where
  fits := (fits_sortKeys_iff ht).symm.trans (h ▸ fits_sortKeys_iff ht')
  bare hfits := by
    have hsorted : ∀ {u : Tree}, u.IsJson → u.Fits → u.canonical.bare = u.sortKeys.canonical.sortKeys.bare := by
      intro u hu hfits
      rw [sortKeys_canonical_sortKeys hu fun _ _ => hfits, bare_sortKeys (hu.canonical fun _ _ => hfits)]
    have hfits' : t'.Fits := (fits_sortKeys_iff ht').mp (h ▸ (fits_sortKeys_iff ht).mpr hfits)
    rw [hsorted ht hfits, hsorted ht' hfits', h]

end KeyedAlike

/-! ## One schema in other words -/

/-- Under other keys than those that matter to what is kept, a value stays where it is. -/
theorem exists_concise_split (hname : name ∉ ["type", "format", "default", "minimum", "maximum"]) :
    ∃ before' after', ∀ v, concise (before ++ (.text name, v) :: after) = before' ++ (.text name, v) :: after' := by
  simp only [List.mem_cons, List.not_mem_nil, or_false, not_or] at hname
  obtain ⟨htype, hformat, hdefault, hminimum, hmaximum⟩ := hname
  let others := before ++ (.text name, .null) :: after
  let last : List (Scalar × Tree) := if schemaType others = .text "integer" ∧ Entries.has others "format" = false then
    [(.text "format", .text defaultIntegerFormat)] else []
  have hstated : ∀ v, stated (before ++ (.text name, v) :: after) = before ++ (.text name, v) :: (after ++ last) := by
    intro v
    have htype' : schemaType (before ++ (.text name, v) :: after) = schemaType others :=
      schemaType_replace (by simpa using htype)
    have hformat' : Entries.has (before ++ (.text name, v) :: after) "format" = Entries.has others "format" :=
      has_replace (by simpa using hformat)
    rw [stated, htype', hformat']
    simp only [last]
    split <;> simp
  have hrestates : ∀ v, restates (stated (before ++ (.text name, v) :: after)) = restates (stated others) := by
    intro v
    rw [hstated, hstated]
    exact restates_congr (schemaType_replace (by simpa using htype)) (get?_replace (by simpa using hformat))
  refine ⟨before.filter fun e => !restates (stated others) e, (after ++ last).filter fun e => !restates (stated others) e,
    fun v => ?_⟩
  have hkept : restates (stated others) (.text name, v) = false := by
    simp [restates, hdefault, hminimum, hmaximum]
  rw [concise, hrestates v, hstated v, List.filter_append, List.filter_cons_of_pos (by simp [hkept])]

/-- The bare schema depends on a value only by what is shown of it. -/
theorem bare_replace (h : bareValue key v = bareValue key v') :
    bare (.object (before ++ (key, v) :: after)) = bare (.object (before ++ (key, v') :: after)) := by
  rw [bare_object, bare_object, bareValues, bareValues, List.filter_append, List.filter_append, List.filter_cons,
    List.filter_cons]
  split
  · simp only [List.map_append, List.map_cons, h]
  · rfl

/-- Another value under a key gives a schema of the same shape if it fits as well and the same is shown of it. -/
theorem KeyedAlike.replace (hname : name ∉ ["$ref", "type", "format", "default", "minimum", "maximum"])
    (hown : Entries.has (before ++ after) referenceKey = false)
    (ht : (Tree.object (before ++ (.text name, v) :: after)).IsJson)
    (hfits : (Tree.object (before ++ (.text name, v) :: after)).Fits ↔
      (Tree.object (before ++ (.text name, v') :: after)).Fits)
    (hvalue : (Tree.object (before ++ (.text name, v) :: after)).Fits →
      bareValue (.text name) (canonicalValue (schemaType (before ++ after)) (.text name, v)) =
        bareValue (.text name) (canonicalValue (schemaType (before ++ after)) (.text name, v'))) :
    KeyedAlike (.object (before ++ (.text name, v) :: after)) (.object (before ++ (.text name, v') :: after)) where
  fits := hfits
  bare h := by
    obtain ⟨hreference, hothers⟩ := not_or.mp fun hmem => hname (List.mem_cons.mpr hmem)
    have hnotType : name ≠ "type" := fun heq => hothers (heq ▸ List.mem_cons_self)
    have htype : ∀ w, schemaType (before ++ (.text name, w) :: after) = schemaType (before ++ after) := fun w =>
      schemaType_insert (by simpa using hnotType)
    have hown' : ∀ w, Entries.has (before ++ (.text name, w) :: after) referenceKey = false := fun w =>
      has_insert hown (by simpa using hreference)
    have hnodup' : (Entries.keys (before ++ (.text name, v') :: after)).Nodup := keys_replace ▸ ht.1.nodup
    obtain ⟨before', after', hsplit⟩ := @exists_concise_split _ before after hothers
    rw [canonical_eq (hown' v) ht.1.nodup h, canonical_eq (hown' v') hnodup' (hfits.mp h), hsplit, hsplit, htype, htype,
      List.map_append, List.map_append, List.map_cons, List.map_cons]
    exact bare_replace (hvalue h)

/-- What a schema states anyway goes in canonical form. -/
theorem restates_of_implied (h : Implied entries e) (hkey : e.1 ≠ .text "format") :
    restates (stated entries) e = true := by
  have htype : schemaType (stated entries) = schemaType entries := schemaType_stated
  cases h with
  | text hstring => simp [restates, isImpliedDefault, htype, hstring, scalar?]
  | no hboolean => simp [restates, isImpliedDefault, htype, hboolean, scalar?]
  | zero hnumber ha =>
    rcases hnumber with hinteger | hnumber
    · simp [restates, isImpliedDefault, htype, hinteger, scalar?, ha]
    · simp [restates, isImpliedDefault, htype, hnumber, scalar?, ha]
  | format => exact absurd rfl hkey
  | minimum hbounds ha => simp [restates, hbounds, ha, scalar?]
  | maximum hbounds ha => simp [restates, hbounds, ha, scalar?]

/-- What is implied is a scalar under a text, in a schema that has no schemas below it. -/
theorem Implied.plain (h : Implied entries e) : schemaType entries ≠ .text "array" ∧ schemaType entries ≠ .text "object" ∧
    e.1 ∉ [Scalar.text "$ref", .text "type"] ∧ (∃ name a, e = (.text name, .scalar a)) ∧
      (e.1 = .text "format" → schemaType entries = .text "integer" ∧ e.2 = .text defaultIntegerFormat) := by
  have hinteger : ∀ {bounds}, formatBounds? (stated entries) = some bounds → schemaType entries = .text "integer" := by
    intro bounds hbounds
    rw [formatBounds?, schemaType_stated] at hbounds
    by_contra hnot
    rw [if_neg hnot] at hbounds
    cases hbounds
  cases h with
  | text htype => simp [htype]
  | no htype => simp [htype]
  | zero htype => rcases htype with htype | htype <;> simp [htype]
  | format htype => simp [htype]
  | minimum hbounds => simp [hinteger hbounds]
  | maximum hbounds => simp [hinteger hbounds]

/-- A schema keeps the same, up to its order, if it states one thing more that holds anyway. -/
theorem concise_insert (hkeyed : Entries.TextKeyed (before ++ e :: after)) (h : Implied (before ++ after) e) :
    (concise (before ++ after)).Perm (concise (before ++ e :: after)) := by
  obtain ⟨-, -, hother, -, hformat⟩ := h.plain
  simp only [List.mem_cons, List.not_mem_nil, or_false, not_or] at hother
  have htype : schemaType (before ++ e :: after) = schemaType (before ++ after) := schemaType_insert hother.2
  by_cases hkey : e.1 = .text "format"
  · -- The format that is stated now is the one that has been added so far.
    obtain ⟨hinteger, hvalue⟩ := hformat hkey
    have he : e = (.text "format", .text defaultIntegerFormat) := Prod.ext hkey hvalue
    have hhas : Entries.has (before ++ after) "format" = false := by
      by_contra hnot
      exact notMem_keys_of_insert hkeyed.nodup (hkey ▸ Entries.has_text.mp (by simpa using hnot))
    have hstated : stated (before ++ after) = before ++ after ++ [e] := by rw [stated, if_pos ⟨hinteger, hhas⟩, he]
    have hagain : stated (before ++ after ++ [e]) = before ++ after ++ [e] := by
      have hhas' : Entries.has (before ++ after ++ [e]) "format" = true := Entries.has_text.mpr (by simp [Entries.keys, hkey])
      rw [stated, if_neg fun hif => Bool.false_ne_true (hif.2.symm.trans hhas')]
    have hperm : (before ++ e :: after).Perm (before ++ after ++ [e]) :=
      List.perm_middle.trans (List.perm_append_singleton _ _).symm
    have hsame : concise (before ++ after) = concise (before ++ after ++ [e]) := by rw [concise, hstated, concise, hagain]
    exact hsame ▸ (concise_perm hkeyed hperm).symm
  · have hhas : Entries.has (before ++ e :: after) "format" = Entries.has (before ++ after) "format" := by
      rw [Entries.has, get?_insert hkey, Entries.has]
    obtain ⟨last, hshort, hlong⟩ : ∃ last, stated (before ++ after) = before ++ (after ++ last) ∧
        stated (before ++ e :: after) = before ++ e :: (after ++ last) := by
      rw [stated, stated, htype, hhas]
      split
      · exact ⟨[(.text "format", .text defaultIntegerFormat)], by simp, by simp⟩
      · exact ⟨[], by simp, by simp⟩
    have hrestates : restates (stated (before ++ e :: after)) = restates (stated (before ++ after)) := by
      refine restates_congr (schemaType_stated.trans (htype.trans schemaType_stated.symm)) ?_
      rw [hlong, hshort]
      exact get?_insert hkey
    have hgoes := restates_of_implied h hkey
    rw [concise, concise, hrestates, hlong, List.filter_append, List.filter_cons_of_neg (by simp [hgoes]),
      ← List.filter_append, ← hshort]

/-- A schema that states one thing more that holds anyway has the same shape. -/
theorem sameShape_insert (hown : Entries.has (before ++ after) referenceKey = false)
    (ht : (Tree.object (before ++ after)).IsJson) (ht' : (Tree.object (before ++ e :: after)).IsJson)
    (h : Implied (before ++ after) e) : KeyedAlike (.object (before ++ after)) (.object (before ++ e :: after)) := by
  obtain ⟨harray, hobject, hother, -, hformat⟩ := h.plain
  simp only [List.mem_cons, List.not_mem_nil, or_false, not_or] at hother
  have htype : schemaType (before ++ e :: after) = schemaType (before ++ after) := schemaType_insert hother.2
  have hown' : Entries.has (before ++ e :: after) referenceKey = false := has_insert hown hother.1
  have hfits : (Tree.object (before ++ after)).Fits ↔ (Tree.object (before ++ e :: after)).Fits := by
    rw [fits_plain_iff hown harray hobject, fits_plain_iff hown' (htype ▸ harray) (htype ▸ hobject), htype]
    by_cases hkey : e.1 = .text "format"
    · obtain ⟨key, v⟩ := e
      obtain rfl : key = .text "format" := hkey
      obtain ⟨-, rfl⟩ := hformat rfl
      have hnone : Entries.get? "format" (before ++ after) = none :=
        Entries.get?_eq_none.mpr (notMem_keys_of_insert ht'.1.nodup)
      rw [hnone, get?_append_cons ht'.1.nodup]
      simp [scalar?]
    · rw [get?_insert hkey]
  refine ⟨hfits, fun hfit => ?_⟩
  rw [canonical_eq hown ht.1.nodup hfit, canonical_eq hown' ht'.1.nodup (hfits.mp hfit), bare_object, bare_object, htype]
  refine gather_eq_of_perm (textKeyed_bareValues ?_) (perm_bareValues ((concise_insert ht'.1 h).map _))
  exact (textKeyed_concise ht.1).of_keys_perm (.of_eq Entries.keys_map_value)

/-! ## Names in another order -/

/-- Names in another order are sorted alike. -/
theorem sort_names_eq {names names' : List String} (h : names.Perm names') :
    Sorting.sort less (names.map text) = Sorting.sort less (names'.map text) := by
  have hranks : ∀ names : List String, Sorting.Ranks less codes (names.map text) := by
    intro names t ht u hu
    obtain ⟨s, -, rfl⟩ := List.mem_map.mp ht
    obtain ⟨s', -, rfl⟩ := List.mem_map.mp hu
    rw [less]
    exact congrArg Except.ok ((Text.less_eq s s').trans (decide_eq_decide.mpr Iff.rfl))
  obtain ⟨sorted, hsort, hordered, hperm⟩ := Sorting.exists_sort (hranks names')
  rw [hsort]
  refine Sorting.sort_eq_of_perm (hranks names) (fun t ht u hu hcodes => ?_) (hperm.trans (h.map text).symm) hordered
  obtain ⟨s, -, rfl⟩ := List.mem_map.mp ht
  obtain ⟨s', -, rfl⟩ := List.mem_map.mp hu
  exact congrArg text (Text.codes_injective hcodes)

theorem fits_of_get? (h : ∀ name ∈ ["$ref", "type", "format", "items", "properties"],
      Entries.get? (.text name) entries' = Entries.get? (.text name) entries) (hfits : (Tree.object entries).Fits) :
    (Tree.object entries').Fits := by
  have hhas : Entries.has entries' referenceKey = Entries.has entries referenceKey :=
    congrArg Option.isSome (h "$ref" (by simp))
  have htype : schemaType entries' = schemaType entries := by rw [schemaType, schemaType, h "type" (by simp)]
  cases hfits with
  | reference hown => exact .reference (hhas.trans hown)
  | schema hown hformat hitems hmap hproperties =>
    refine .schema (hhas.trans hown) ?_ ?_ ?_ ?_
    · rwa [htype, h "format" (by simp)]
    · rwa [htype, h "items" (by simp)]
    · rwa [htype, h "properties" (by simp)]
    · rwa [htype, h "properties" (by simp)]

/-- A schema that lists the names that it requires in another order has the same shape. -/
theorem sameShape_requires {names names' : List String} (hown : Entries.has (before ++ after) referenceKey = false)
    (h : names.Perm names') (ht : (Tree.object (before ++ (.text "required", .list (names.map text)) :: after)).IsJson) :
    KeyedAlike (.object (before ++ (.text "required", .list (names.map text)) :: after))
      (.object (before ++ (.text "required", .list (names'.map text)) :: after)) := by
  have hget : ∀ {v v' : Tree}, ∀ name ∈ ["$ref", "type", "format", "items", "properties"],
      Entries.get? (.text name) (before ++ (.text "required", v') :: after) =
        Entries.get? (.text name) (before ++ (.text "required", v) :: after) := by
    intro v v' name hname
    refine get?_replace fun heq => ?_
    obtain rfl := Scalar.text.inj heq
    simp at hname
  refine KeyedAlike.replace (by decide) hown ht ⟨fits_of_get? hget, fits_of_get? hget⟩ fun _ => ?_
  rw [canonicalValue_other (by simp) (by simp), canonicalValue_other (by simp) (by simp)]
  rw [bareValue_required, bareValue_required, sort_names_eq h]

/-! ## Schemas below in other words -/

section

variable {fields schemas : List (Scalar × Tree)} (hown : Entries.has (before ++ after) referenceKey = false)
include hown

theorem fits_items_iff (htype : schemaType (before ++ after) = .text "array")
    (ht : (Tree.object (before ++ (.text "items", .object fields) :: after)).IsJson) :
    (Tree.object (before ++ (.text "items", .object fields) :: after)).Fits ↔ (Tree.object fields).Fits := by
  rw [fits_array_iff (has_insert hown (by simp)) ((schemaType_insert (by simp)).trans htype),
    get?_append_cons ht.1.nodup]
  simp

theorem fits_properties_iff (htype : schemaType (before ++ after) = .text "object")
    (ht : (Tree.object (before ++ (.text "properties", .object schemas) :: after)).IsJson) :
    (Tree.object (before ++ (.text "properties", .object schemas) :: after)).Fits ↔ ∀ e ∈ schemas, e.2.Fits := by
  rw [fits_object_iff (has_insert hown (by simp)) ((schemaType_insert (by simp)).trans htype),
    get?_append_cons ht.1.nodup]
  simp only [Option.some.injEq, forall_eq', object.injEq, exists_eq', or_true, true_and, Entries.values,
    List.forall_mem_map]

end

namespace Rewords

theorem isJson_iff (h : Rewords t t') : t.IsJson ↔ t'.IsJson := by
  induction h with
  | @states before after e _ hnew himplied =>
    obtain ⟨-, -, -, ⟨name, a, rfl⟩, -⟩ := himplied.plain
    rw [IsJson, IsJson, entriesAreJson_iff, entriesAreJson_iff]
    refine and_congr (textKeyed_insert_iff hnew).symm ?_
    simp [IsJson, or_imp, forall_and]
  | requires _ _ => exact isJson_replace (iff_of_true (by simp [IsJson]) (by simp [IsJson]))
  | items _ _ _ ih => exact isJson_replace ih
  | property _ _ _ ih => exact isJson_replace (isJson_replace ih)

theorem exists_object (h : Rewords t t') : (∃ entries, t = .object entries) ∧ ∃ entries, t' = .object entries := by
  cases h <;> exact ⟨⟨_, rfl⟩, _, rfl⟩

/-- **One edit keeps the shape.** -/
theorem sameShape (h : Rewords t t') (ht : t.IsJson) : KeyedAlike t t' := by
  have ht' : t'.IsJson := h.isJson_iff.mp ht
  induction h with
  | states hown hnew himplied => exact sameShape_insert hown ht ht' himplied
  | requires hown hperm => exact sameShape_requires hown hperm ht
  | items hown htype h ih =>
    obtain ⟨⟨fields, rfl⟩, fields', rfl⟩ := h.exists_object
    have hbelow := ih ht.of_entry ht'.of_entry
    have hfits := fits_items_iff hown htype ht
    refine .replace (by decide) hown ht (hfits.trans (hbelow.fits.trans (fits_items_iff hown htype ht').symm)) fun h => ?_
    rw [htype, canonicalValue, if_pos ⟨rfl, rfl⟩, canonicalValue, if_pos ⟨rfl, rfl⟩, bareValue_items, bareValue_items]
    exact hbelow.bare (hfits.mp h)
  | @property before after first last name t t' hown htype h ih =>
    have hbelow := ih ht.of_entry.of_entry ht'.of_entry.of_entry
    have hfits := fits_properties_iff hown htype ht
    refine .replace (by decide) hown ht ?_ fun h => ?_
    · rw [hfits, fits_properties_iff hown htype ht']
      simp only [List.forall_mem_append, List.forall_mem_cons, hbelow.fits]
    · have hshown := hbelow.bare (hfits.mp h (name, t) (by simp))
      rw [htype, canonicalValue, if_neg (by simp), canonicalValue, if_neg (by simp)]
      dsimp only
      rw [if_pos ⟨rfl, rfl⟩, if_pos ⟨rfl, rfl⟩, bareValue_properties, bareValue_properties]
      simp only [List.map_append, List.map_cons, hshown]

end Rewords

theorem SaysSame.symm (h : t.SaysSame t') : t'.SaysSame t := Relation.EqvGen.symm _ _ h

theorem SaysSame.trans (h : t.SaysSame u) (h' : u.SaysSame t') : t.SaysSame t' := Relation.EqvGen.trans _ _ _ h h'

/-- Trees that say the same have the same shape. -/
theorem SaysSame.sameShape (h : t.SaysSame t') : (t.IsJson ↔ t'.IsJson) ∧ (t.IsJson → KeyedAlike t t') := by
  induction h with
  | rel t t' hedit =>
    rcases hedit with hreworded | hshuffled
    · exact ⟨hreworded.isJson_iff, hreworded.sameShape⟩
    · exact ⟨hshuffled.isJson_iff, fun ht =>
        .of_sortKeys_eq ht (hshuffled.isJson_iff.mp ht) (hshuffled.sortKeys_eq ht)⟩
  | refl t => exact ⟨Iff.rfl, fun _ => .refl t⟩
  | symm t t' _ ih => exact ⟨ih.1.symm, fun ht' => (ih.2 (ih.1.mpr ht')).symm⟩
  | trans t u t' _ _ ih ih' => exact ⟨ih.1.trans ih'.1, fun ht => (ih.2 ht).trans (ih'.2 (ih.1.mp ht))⟩

end Tree

namespace Edit

open DeviceApi.Tree

variable {s s' r : Store} {t t' : Tree} {key : String}

/-- **Schemas that say the same have the same shape key.** Let a JSON tree be brought into canonical form and have a
shape key then. Another tree says the same if it comes from this one by any number of edits of the schemas that are
visited: stating what holds anyway or leaving it out, listing required names in another order, and bringing the keys of
any object into another order. Then the other tree can be brought into canonical form as well, and it has the same shape
key. -/
theorem canonicalize_shapeKey_of_saysSame (ht : t.IsJson) (h : t.SaysSame t')
    (hrun : Runs (canonicalize (s.load t).1) (s.load t).2 () s') (hkey : s'.shapeKey (s.load t).1 = .ok key) :
    ∃ r', Runs (canonicalize (r.load t').1) (r.load t').2 () r' ∧ r'.shapeKey (r.load t').1 = .ok key := by
  obtain ⟨hjson, hshape⟩ := h.sameShape
  have ht' := hjson.mp ht
  have hfits := (exists_runs_canonicalize_load_iff ht).mp ⟨s', hrun⟩
  have hfits' := (hshape ht).fits.mp hfits
  obtain ⟨r', hrun'⟩ := (exists_runs_canonicalize_load_iff (s := r) ht').mpr hfits'
  refine ⟨r', hrun', ?_⟩
  rw [(holds_canonical_of_load ht hrun).shapeKey_eq, shapeKey_eq_ok_iff (ht.canonical fun _ _ => hfits),
    (hshape ht).bare hfits] at hkey
  rwa [(holds_canonical_of_load ht' hrun').shapeKey_eq, shapeKey_eq_ok_iff (ht'.canonical fun _ _ => hfits')]

/-- The schema of a position in a list with given schemas of its number and its name. -/
def position (names : List String) (number name : Tree) : Tree :=
  .object
    [(.text "type", .text "object"), (.text "required", .list (names.map .text)),
     (.text "properties", .object [(.text "number", number), (.text "name", name)])]

/-- A position whose number states a bound that holds anyway. -/
def boundedPosition : Tree :=
  position ["name", "number"] (.ofFields [("type", .text "integer"), ("maximum", .int 2147483647)])
    (.ofFields [("type", .text "string")])

/-- A position whose number states its format, and whose name states its default. -/
def defaultedPosition : Tree :=
  position ["number", "name"] (.ofFields [("format", .text "int32"), ("type", .text "integer")])
    (.ofFields [("type", .text "string"), ("default", .text "")])

/-- The bound is left out, the format and the default are stated, and names and keys change their places. -/
theorem saysSame_boundedPosition : boundedPosition.SaysSame defaultedPosition := by
  let others (names : List String) : List (Scalar × Tree) :=
    [(.text "type", .text "object"), (.text "required", .list (names.map .text))]
  have hnumber : ∀ {names t t' name}, Rewords t t' → (position names t name).SaysSame (position names t' name) :=
    fun {names t t' name} h => .rel _ _ (.inl
      (@Rewords.property (others names) [] [] [(.text "name", name)] (.text "number") t t' rfl rfl h))
  have hname : ∀ {names number t t'}, Rewords t t' → (position names number t).SaysSame (position names number t') :=
    fun {names number t t'} h => .rel _ _ (.inl
      (@Rewords.property (others names) [] [(.text "number", number)] [] (.text "name") t t' rfl rfl h))
  have hbound : Rewords (.ofFields [("type", .text "integer")])
      (.ofFields [("type", .text "integer"), ("maximum", .int 2147483647)]) :=
    @Rewords.states [(.text "type", .text "integer")] [] (.text "maximum", .int 2147483647) rfl (by decide)
      (@Implied.maximum _ (.int 2147483647) (-2147483648, 2147483647) rfl rfl)
  have hformat : Rewords (.ofFields [("type", .text "integer")])
      (.ofFields [("type", .text "integer"), ("format", .text "int32")]) :=
    @Rewords.states [(.text "type", .text "integer")] [] (.text "format", .text "int32") rfl (by decide) (.format rfl)
  have hdefault : Rewords (.ofFields [("type", .text "string")])
      (.ofFields [("type", .text "string"), ("default", .text "")]) :=
    @Rewords.states [(.text "type", .text "string")] [] (.text "default", .text "") rfl (by decide) (.text rfl)
  have hnames : ∀ number name, (position ["name", "number"] number name).SaysSame
      (position ["number", "name"] number name) := fun number name => .rel _ _ (.inl
    (@Rewords.requires [(.text "type", .text "object")]
      [(.text "properties", .object [(.text "number", number), (.text "name", name)])] _ _ rfl (.swap _ _ _)))
  have hkeys : ∀ names name, (position names (.ofFields [("type", .text "integer"), ("format", .text "int32")]) name).SaysSame
      (position names (.ofFields [("format", .text "int32"), ("type", .text "integer")]) name) :=
    fun names name => .rel _ _ (.inr (@Shuffles.value (others names) [] (.text "properties") _ _
      (@Shuffles.value [] [(.text "name", name)] (.text "number") _ _ (.here (.swap _ _ _)))))
  exact (hnumber hbound).symm.trans <| (hnumber hformat).trans <| (hname hdefault).trans <| (hnames _ _).trans (hkeys _ _)

theorem canonicalize_shapeKey_of_saysSame_positions :
    let start := Store.empty.load boundedPosition
    let other := Store.empty.load defaultedPosition
    boundedPosition.IsJson ∧ boundedPosition.SaysSame defaultedPosition ∧
      ∃ s' key, Runs (canonicalize start.1) start.2 () s' ∧ s'.shapeKey start.1 = .ok key ∧
        ∃ r', Runs (canonicalize other.1) other.2 () r' ∧ r'.shapeKey other.1 = .ok key := by
  intro start other
  have hjson : boundedPosition.IsJson := by decide
  have hpasses : Procedure.passes (Procedure.ofEdit (canonicalize start.1)) ⟨start.2, []⟩
      (fun _ s => (s.store.shapeKey start.1).toOption.isSome) = true := by decide
  obtain ⟨_, _, hrun, hkey⟩ := Procedure.exists_runs_of_passes hpasses
  obtain ⟨s', hcanonical, rfl⟩ := Procedure.runs_ofEdit.mp hrun
  obtain ⟨key, hshape⟩ : ∃ key, s'.shapeKey start.1 = .ok key := by
    cases hshape : s'.shapeKey start.1 with
    | error m => simp [hshape, Except.toOption] at hkey
    | ok key => exact ⟨key, rfl⟩
  exact ⟨hjson, saysSame_boundedPosition, s', key, hcanonical, hshape,
    canonicalize_shapeKey_of_saysSame hjson saysSame_boundedPosition hcanonical hshape⟩

end Edit

end DeviceApi
