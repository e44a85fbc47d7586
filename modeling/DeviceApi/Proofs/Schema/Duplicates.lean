import DeviceApi.Proofs.Schema.Survivors

/-!
# The report of duplicates

Folding reports each shape that several schemas have which are not folded into the catalogue, with the number of
these schemas. The most frequent shapes come first, and shapes of the same frequency come in the order of their first
schemas. The report is the same whether or not the schemas are folded into the first one of their shape.
-/

namespace DeviceApi

/-- Sorting keeps the order of items that the order of the sort does not tell apart. -/
theorem pairwise_mergeSort_of_pairwise {α : Type} {le : α → α → Bool} {R : α → α → Prop} {items : List α}
    (htrans : ∀ a b c, le a b = true → le b c = true → le a c = true) (htotal : ∀ a b, (le a b || le b a) = true)
    (h : items.Pairwise R) : (items.mergeSort le).Pairwise fun a b => le a b = true ∧ (le b a = true → R a b) := by
  refine List.pairwise_iff_forall_sublist.mpr fun {a b} hsub => ?_
  have hab : le a b = true :=
    List.pairwise_iff_forall_sublist.mp (List.pairwise_mergeSort htrans htotal items) hsub
  refine ⟨hab, fun hba => ?_⟩
  -- The items that are as great as the first one stand in the sorted list as they stand in the list.
  let isLike : α → Bool := fun x => le a x && le x a
  have hlike : (items.filter isLike).Pairwise fun x y => le x y = true := by
    refine List.pairwise_of_forall_mem_list fun x hx y hy => ?_
    have hx' : le a x = true ∧ le x a = true := by simpa [isLike] using (List.mem_filter.mp hx).2
    have hy' : le a y = true ∧ le y a = true := by simpa [isLike] using (List.mem_filter.mp hy).2
    exact htrans x a y hx'.2 hy'.1
  have hsorted : (items.mergeSort le).filter isLike = items.filter isLike := by
    have hkept := (List.sublist_mergeSort htrans htotal hlike List.filter_sublist).filter isLike
    simp only [List.filter_filter, Bool.and_self] at hkept
    exact (hkept.eq_of_length ((List.mergeSort_perm items le).filter isLike).length_eq.symm).symm
  have hpair : [a, b].Sublist items := by
    have haa : le a a = true := by simpa using htotal a a
    have hboth : [a, b].filter isLike = [a, b] := by simp [isLike, haa, hab, hba]
    have hkept : ([a, b].filter isLike).Sublist ((items.mergeSort le).filter isLike) := hsub.filter isLike
    rw [hboth, hsorted] at hkept
    exact hkept.trans List.filter_sublist
  exact List.pairwise_iff_forall_sublist.mp h hpair

namespace ShapeCounts

variable {keys : List String} {key : String} {d : DuplicateShape}

/-- A key is counted as often as it occurs. -/
theorem get?_tally : (tally keys).get? (.text key) = if key ∈ keys then some (keys.count key) else none := by
  induction keys using List.reverseRecOn with
  | nil => rfl
  | append_singleton keys last ih =>
    rw [tally_append_singleton, Entries.get?_put]
    by_cases hlast : last = key
    · subst hlast
      rw [if_pos rfl, if_pos (by simp), List.count_append, List.count_singleton_self, ih]
      by_cases hmem : last ∈ keys
      · simp [hmem]
      · simp [hmem, List.count_eq_zero.mpr hmem]
    · rw [if_neg hlast, ih, List.count_append, List.count_singleton]
      simp [hlast, Ne.symm hlast]

theorem textKeyed_tally (keys : List String) : (tally keys).TextKeyed := by
  induction keys using List.reverseRecOn with
  | nil => exact ⟨by simp, by simp⟩
  | append_singleton keys last ih =>
    rw [tally_append_singleton]
    exact ih.put

/-- The keys are counted in the order in which they occur first. -/
theorem pairwise_keys_tally (keys : List String) :
    (tally keys).keys.Pairwise fun a b => keys.idxOf a.display < keys.idxOf b.display := by
  induction keys using List.reverseRecOn with
  | nil => exact .nil
  | append_singleton keys last ih =>
    have hdisplay : ∀ a ∈ (tally keys).keys, a.display ∈ keys := by
      intro a ha
      obtain ⟨key, rfl⟩ := (textKeyed_tally keys).exists_text a ha
      have hhas := Entries.has_text.mpr ha
      rw [Entries.has, get?_tally] at hhas
      by_contra hnot
      change key ∉ keys at hnot
      rw [if_neg hnot] at hhas
      cases hhas
    have hidx : ∀ a ∈ (tally keys).keys, (keys ++ [last]).idxOf a.display = keys.idxOf a.display :=
      fun a ha => List.idxOf_append_of_mem (hdisplay a ha)
    have hold : (tally keys).keys.Pairwise fun a b =>
        (keys ++ [last]).idxOf a.display < (keys ++ [last]).idxOf b.display :=
      ih.imp_of_mem fun ha hb hlt => by rwa [hidx _ ha, hidx _ hb]
    rw [tally_append_singleton, Entries.keys_put]
    split
    · exact hold
    · next hnew =>
      rw [List.pairwise_append]
      refine ⟨hold, List.pairwise_singleton _ _, fun a ha b hb => ?_⟩
      obtain rfl := List.mem_singleton.mp hb
      have hlast : last ∉ keys := by
        rw [← Entries.has_text, Entries.has, get?_tally] at hnew
        exact fun hmem => hnew (by simp [hmem])
      calc (keys ++ [last]).idxOf a.display = keys.idxOf a.display := hidx a ha
        _ < keys.length := List.idxOf_lt_length_of_mem (hdisplay a ha)
        _ ≤ keys.length + [last].idxOf last := Nat.le_add_right _ _
        _ = (keys ++ [last]).idxOf last := (List.idxOf_append_of_notMem hlast).symm

/-- The duplicates are the keys that occur more than once, with the number of times that they do. -/
theorem mem_duplicates_tally : d ∈ (tally keys).duplicates ↔ 2 ≤ keys.count d.key ∧ d.count = keys.count d.key := by
  rw [duplicates, List.mem_mergeSort, List.mem_filterMap]
  constructor
  · rintro ⟨⟨a, n⟩, hmem, hsome⟩
    obtain ⟨key, rfl⟩ := (textKeyed_tally keys).exists_text a (List.mem_map_of_mem hmem)
    have hget := Entries.get?_of_mem (textKeyed_tally keys).nodup hmem
    rw [get?_tally] at hget
    dsimp only at hsome
    split at hsome
    · next hlt =>
      obtain rfl := Option.some.inj hsome
      split at hget
      · obtain rfl := Option.some.inj hget
        exact ⟨hlt, rfl⟩
      · cases hget
    · cases hsome
  · rintro ⟨hle, hcount⟩
    have hmem : d.key ∈ keys := List.count_pos_iff.mp (by omega)
    have hget : (tally keys).get? (.text d.key) = some (keys.count d.key) := by rw [get?_tally, if_pos hmem]
    refine ⟨(.text d.key, keys.count d.key), Entries.mem_of_get? hget, ?_⟩
    dsimp only
    rw [if_pos (by omega), ← hcount]
    rfl

/-- The duplicates are in descending order of their numbers, and then in the order in which their keys occur first. -/
theorem pairwise_duplicates_tally (keys : List String) : (tally keys).duplicates.Pairwise fun d d' =>
    d'.count < d.count ∨ d'.count = d.count ∧ keys.idxOf d.key < keys.idxOf d'.key := by
  have hcounts := pairwise_keys_tally keys
  rw [Entries.keys, List.pairwise_map] at hcounts
  have hrepeated := hcounts.filterMap (S := fun d d' : DuplicateShape => keys.idxOf d.key < keys.idxOf d'.key)
    (fun e => if 1 < e.2 then some ({ key := e.1.display, count := e.2 } : DuplicateShape) else none) (by
      intro e e' hlt d hd d' hd'
      split at hd
      · split at hd'
        · obtain rfl := Option.some.inj hd
          obtain rfl := Option.some.inj hd'
          exact hlt
        · cases hd'
      · cases hd)
  refine (pairwise_mergeSort_of_pairwise (fun a b c hab hbc => ?_) (fun a b => ?_) hrepeated).imp fun hboth => ?_
  · simp only [decide_eq_true_eq] at hab hbc ⊢
    exact hbc.trans hab
  · simpa using le_total b.count a.count
  · obtain ⟨hle, hsame⟩ := hboth
    simp only [decide_eq_true_eq] at hle hsame
    rcases hle.lt_or_eq with hlt | heq
    · exact .inl hlt
    · exact .inr ⟨heq, hsame heq.ge⟩

end ShapeCounts

/-- The report lists the keys that occur more than once, the most frequent first and then in the order of their first
occurrences. -/
structure Reports (keys : List String) (duplicates : List DuplicateShape) : Prop where
  mem_iff : ∀ d, d ∈ duplicates ↔ 2 ≤ keys.count d.key ∧ d.count = keys.count d.key
  ordered : duplicates.Pairwise fun d d' =>
    d'.count < d.count ∨ d'.count = d.count ∧ keys.idxOf d.key < keys.idxOf d'.key

namespace Procedure

open Edit

variable {s s' : Session} {table : SchemaTable} {T E : List (Scalar × Tree)} {merge : Bool}
  {replacements : Replacements} {duplicates : List DuplicateShape}

/-- **The report of duplicates is exact.** Let a table be folded that holds a tree `T` whose keys are texts. The schemas
that are compared have shape keys. The report lists the shape keys that several schemas have which are neither
references nor of the catalogue, by name or by shape. Folding with the other choice about repeated shapes succeeds as
well, with the same report. -/
theorem foldSchemas_reports_duplicates
    (hrun : Runs (foldSchemas table (.object E) merge) s (replacements, duplicates) s')
    (htable : s.store.Holds table.schemas (.object T)) (hT : Entries.TextKeyed T) (hE : (Tree.object E).IsJson) :
    (∀ e ∈ E, ∃ key, e.2.canonical.shapeKey = .ok key) ∧
      (∀ e ∈ T, Entries.has E e.1 = false → e.2.isReference = false → ∃ key, e.2.shapeKey = .ok key) ∧
      Reports (T.filterMap (ownShape? E)) duplicates ∧
      ∀ merge', ∃ replacements' s'', Runs (foldSchemas table (.object E) merge') s (replacements', duplicates) s'' := by
  obtain ⟨K, -, hsurvivors, rfl⟩ := exists_survivors_of_foldSchemas hrun htable hT hE
  refine ⟨hsurvivors.keyed_catalogue, hsurvivors.keyed,
    ⟨fun d => ShapeCounts.mem_duplicates_tally, ShapeCounts.pairwise_duplicates_tally _⟩, fun merge' => ?_⟩
  obtain ⟨replacements', duplicates', s'', hrun'⟩ := exists_runs_foldSchemas_of_runs hrun htable hT hE
  obtain ⟨-, -, -, rfl⟩ := exists_survivors_of_foldSchemas hrun' htable hT hE
  exact ⟨replacements', s'', hrun'⟩

/-- Three shapes that repeat, one of them more often than the others, a reference, and a schema with a shape of the
catalogue. -/
def repeatedShapes : List (String × Tree) :=
  [("Name", .ofFields [("type", .text "string")]),
   ("Flag", .ofFields [("type", .text "boolean")]),
   ("Label", .ofFields [("type", .text "string"), ("description", .text "shown")]),
   ("Alias", .ofFields [("$ref", .text (pointerTo "Label"))]),
   ("Rate", .ofFields [("type", .text "number")]),
   ("Count", .ofFields [("type", .text "integer"), ("format", .text "int32")]),
   ("Switch", .ofFields [("description", .text "on or off"), ("type", .text "boolean")]),
   ("Speed", .ofFields [("type", .text "number")]),
   ("Limit", .ofFields [("type", .text "number")])]

theorem foldSchemas_reports_duplicates_repeatedShapes :
    let T : List (Scalar × Tree) := repeatedShapes.map fun field => (.text field.1, field.2)
    let E : List (Scalar × Tree) := [("Number", .ofFields [("type", .text "integer")])]
    let start := Store.empty.load (.object T)
    let report : List DuplicateShape := [⟨"\x7b\"type\": \"number\"\x7d", 3⟩, ⟨"\x7b\"type\": \"string\"\x7d", 2⟩,
      ⟨"\x7b\"type\": \"boolean\"\x7d", 2⟩]
    ∃ replacements s', Runs (foldSchemas ⟨start.1⟩ (.object E) false) { store := start.2 } (replacements, report) s' ∧
      Reports (T.filterMap (ownShape? E)) report ∧
      ∃ replacements' s'', Runs (foldSchemas ⟨start.1⟩ (.object E) true) { store := start.2 } (replacements', report)
        s'' := by
  intro T E start report
  have hjson : (Tree.ofFields repeatedShapes).IsJson := by decide +kernel
  have hT : start.2.Holds start.1 (.object T) := Store.holds_load hjson Store.empty
  have hE : (Tree.object E).IsJson := by decide
  -- The report is sorted, which is not left to evaluation: the table is gone through, and the rest follows.
  have hmerged : ((do
      let C ← loadCatalogue (.object E)
      let shapes ← catalogueShapes C
      let state ← (← SchemaTable.entries ⟨start.1⟩).foldlM (fun state e =>
        foldSchema ⟨start.1⟩ C shapes false state e.1 e.2) {}
      SchemaTable.merge ⟨start.1⟩ C
      return state : Procedure FoldState).runOn { store := start.2 }).1.toOption.map (fun _ => true) = some true := by
    decide +kernel
  obtain ⟨state, t, hstate, -⟩ := exists_runs hmerged
  obtain ⟨s', hrun⟩ := exists_runs_foldSchemas_of_merged hstate
  have hduplicates : state.counts.duplicates = report := by
    obtain ⟨-, -, -, htally⟩ := exists_survivors_of_foldSchemas hrun hT hjson.1 hE
    have hcounts : ShapeCounts.tally (T.filterMap (ownShape? E)) = [(.text "\x7b\"type\": \"string\"\x7d", 2),
      (.text "\x7b\"type\": \"boolean\"\x7d", 2), (.text "\x7b\"type\": \"number\"\x7d", 3)] := by decide +kernel
    rw [htally, hcounts]
    simp [ShapeCounts.duplicates, List.mergeSort, Scalar.display, report]
  rw [hduplicates] at hrun
  obtain ⟨-, -, hreports, hother⟩ := foldSchemas_reports_duplicates hrun hT hjson.1 hE
  exact ⟨state.replacements, s', hrun, hreports, hother true⟩

end Procedure

end DeviceApi
