import DeviceApi.Proofs.Schema.Survivors

/-!
# Folding repeated shapes

If repeated shapes are folded as well, every shape is left once: in the catalogue, if it is one of its shapes, and
otherwise in the first schema that has it. A schema under a name of the catalogue does not count, since the schema of
the catalogue takes its place.
-/

namespace DeviceApi

namespace Procedure

open Edit

variable {s s' : Session} {table : SchemaTable} {T E K : List (Scalar × Tree)} {replacements : Replacements}
  {duplicates : List DuplicateShape} {e e' : Scalar × Tree} {key : String}

/-- The entries of a table that folding leaves beside the catalogue. -/
def besides (E T : List (Scalar × Tree)) : List (Scalar × Tree) := T.filter fun e => !Entries.has E e.1

/-- The table `T'` is what a table `T` becomes if each shape is folded into the catalogue `E` or into its first
schema. -/
structure FoldsRepeated (T E T' : List (Scalar × Tree)) : Prop where
  keyed : ∀ e ∈ T', e.2.isReference = false → ∃ key, e.2.shapeKey = .ok key
  distinct : ((T'.filter fun e => !e.2.isReference).map fun e => e.2.shapeKey).Nodup
  shapes : ∀ e ∈ besides E T, e.2.isReference = false →
    ∃ key, e.2.shapeKey = .ok key ∧ ∃ e' ∈ T', e'.2.shapeKey = .ok key
  order : (besides E T').Sublist (besides E T)
  kept : ∀ before e after, T = before ++ e :: after → (e ∈ besides E T' ↔ Entries.has E e.1 = false ∧
    (e.2.isReference = true ∨ ∃ key, ownShape? E e = some key ∧ key ∉ before.filterMap (ownShape? E)))

/-! ## Shapes -/

theorem ownShape?_eq_some : ownShape? E e = some key ↔
    Entries.has E e.1 = false ∧ e.2.isReference = false ∧ e.2.shapeKey = .ok key ∧ key ∉ catalogueKeys E := by
  rw [ownShape?]
  cases e.2.shapeKey with
  | error m => simp [Except.toOption]
  | ok key' =>
    by_cases hkey : key' ∈ catalogueKeys E <;>
      cases Entries.has E e.1 <;> cases e.2.isReference <;> simp [Except.toOption, Option.filter, hkey]
    · rintro rfl
      exact hkey
    · intro heq
      exact heq ▸ hkey

/-- A shape of the catalogue is one of a schema in it. -/
theorem mem_catalogueKeys : key ∈ catalogueKeys E ↔ ∃ e ∈ E, e.2.canonical.shapeKey = .ok key := by
  rw [catalogueKeys, List.mem_filterMap]
  refine exists_congr fun e => and_congr_right fun _ => ?_
  cases e.2.canonical.shapeKey <;> simp [Except.toOption]

/-- The first schemas of a table that have the same shape are the same. -/
theorem eq_of_leads (he : e ∈ T) (he' : e' ∈ T) (hkey : ownShape? E e = some key) (hkey' : ownShape? E e' = some key)
    (hfirst : ∀ before after, T = before ++ e :: after → key ∉ before.filterMap (ownShape? E))
    (hfirst' : ∀ before after, T = before ++ e' :: after → key ∉ before.filterMap (ownShape? E)) : e = e' := by
  obtain ⟨before, after, rfl⟩ := List.append_of_mem he
  rcases List.mem_append.mp he' with hbefore | hrest
  · exact absurd (List.mem_filterMap.mpr ⟨e', hbefore, hkey'⟩) (hfirst before after rfl)
  rcases List.mem_cons.mp hrest with rfl | hafter
  · rfl
  · obtain ⟨between, after', rfl⟩ := List.append_of_mem hafter
    have hnot := hfirst' (before ++ e :: between) after' (by simp)
    exact absurd (List.mem_filterMap.mpr ⟨e, by simp, hkey⟩) hnot

/-- Each shape is in a catalogue or has a first schema. -/
theorem exists_first {key : String} (hkey : key ∈ T.filterMap (ownShape? E)) :
    ∃ before e after, T = before ++ e :: after ∧ ownShape? E e = some key ∧
      key ∉ before.filterMap (ownShape? E) := by
  induction T with
  | nil => simp at hkey
  | cons x rest ih =>
    by_cases hx : ownShape? E x = some key
    · exact ⟨[], x, rest, rfl, hx, by simp⟩
    · obtain ⟨y, hy, hykey⟩ := List.mem_filterMap.mp hkey
      have hrest : y ∈ rest := (List.mem_cons.mp hy).resolve_left fun heq => hx (heq ▸ hykey)
      obtain ⟨before, e, after, rfl, he, hnot⟩ := ih (List.mem_filterMap.mpr ⟨y, hrest, hykey⟩)
      refine ⟨x :: before, e, after, rfl, he, fun hmem => ?_⟩
      obtain ⟨z, hz, hzkey⟩ := List.mem_filterMap.mp hmem
      rcases List.mem_cons.mp hz with rfl | hbefore
      · exact hx hzkey
      · exact hnot (List.mem_filterMap.mpr ⟨z, hbefore, hzkey⟩)

/-! ## The catalogue over what is kept -/

namespace Survivors

variable (h : Survivors T E true K) (hT : Entries.TextKeyed T) (hE : Entries.TextKeyed E)

include hE in
theorem textKeyed_canonicalCatalogue : Entries.TextKeyed (canonicalCatalogue E) := by
  have hkeys : Entries.keys (canonicalCatalogue E) = Entries.keys E := by simp [canonicalCatalogue, Entries.keys]
  exact ⟨hkeys ▸ hE.exists_text, hkeys ▸ hE.nodup⟩

include hE in
/-- Beside the catalogue stands what is kept of the table beside it. -/
theorem besides_putAll : besides E (Entries.putAll K (canonicalCatalogue E)) = besides E K := by
  have hnone : (canonicalCatalogue E).filter (fun e => !Entries.has E e.1) = [] := by
    refine List.filter_eq_nil_iff.mpr fun e he => ?_
    have hkey : e.1 ∈ Entries.keys (canonicalCatalogue E) := List.mem_map_of_mem he
    obtain ⟨n, hn⟩ := (textKeyed_canonicalCatalogue hE).exists_text e.1 hkey
    rw [← has_canonicalCatalogue, hn, Entries.has_text.mpr (hn ▸ hkey)]
    simp
  rw [besides, Entries.filter_putAll (p := fun key => !Entries.has E key)
    (textKeyed_canonicalCatalogue hE).exists_text, hnone, Entries.putAll_nil, besides]

include h hT hE in
theorem textKeyed_putAll : Entries.TextKeyed (Entries.putAll K (canonicalCatalogue E)) := by
  have hkeys : (Entries.keys K).Sublist (Entries.keys T) := h.sublist.map _
  have hK : Entries.TextKeyed K :=
    ⟨fun key hkey => hT.exists_text key (hkeys.subset hkey), hT.nodup.sublist hkeys⟩
  exact hK.putAll (textKeyed_canonicalCatalogue hE).exists_text

include h in
/-- An entry beside the catalogue is kept if it is a reference or the first of its shape. -/
theorem mem_besides_iff {before after : List (Scalar × Tree)} (hsplit : T = before ++ e :: after) :
    e ∈ besides E K ↔ Entries.has E e.1 = false ∧
      (e.2.isReference = true ∨ ∃ key, ownShape? E e = some key ∧ key ∉ before.filterMap (ownShape? E)) := by
  rw [besides, List.mem_filter, h.mem_iff rfl before e after hsplit, Bool.not_eq_true', and_comm]
  refine and_congr_right fun hname => ?_
  simp [hname]

include hE in
/-- The whole catalogue is left. -/
theorem mem_putAll {x : Scalar × Tree} (hx : x ∈ E) :
    (x.1, x.2.canonical) ∈ Entries.putAll K (canonicalCatalogue E) := by
  have hkeyed := textKeyed_canonicalCatalogue hE
  have hmem : (x.1, x.2.canonical) ∈ canonicalCatalogue E := List.mem_map_of_mem hx
  obtain ⟨name, tree⟩ := x
  obtain ⟨n, rfl⟩ := hE.exists_text name (List.mem_map_of_mem hx)
  refine Entries.mem_of_get? ?_
  rw [Entries.get?_putAll hkeyed, Entries.get?_of_mem hkeyed.nodup hmem, Option.some_or]

include h hT hE in
/-- An entry that is left is of the catalogue or has been kept beside it. -/
theorem mem_cases (he : e ∈ Entries.putAll K (canonicalCatalogue E)) :
    e ∈ besides E K ∨ ∃ x ∈ E, (x.1, x.2.canonical) = e := by
  rcases hname : Entries.has E e.1 with _ | _
  · exact .inl (besides_putAll hE ▸ List.mem_filter.mpr ⟨he, by simp [hname]⟩)
  · have hkeyed := h.textKeyed_putAll hT hE
    obtain ⟨name, tree⟩ := e
    obtain ⟨n, rfl⟩ := hkeyed.exists_text name (List.mem_map_of_mem he)
    have hget := Entries.get?_of_mem hkeyed.nodup he
    obtain ⟨x, hx⟩ := Option.isSome_iff_exists.mp (has_canonicalCatalogue.trans hname)
    rw [Entries.get?_putAll (textKeyed_canonicalCatalogue hE), hx, Option.some_or] at hget
    obtain rfl := Option.some.inj hget
    exact .inr (List.mem_map.mp (Entries.mem_of_get? hx))

include h in
/-- A schema that is kept beside the catalogue is the first one of a shape which is none of the catalogue. -/
theorem exists_ownShape? (he : e ∈ besides E K) (hreference : e.2.isReference = false) :
    ∃ key, ownShape? E e = some key ∧
      ∀ before after, T = before ++ e :: after → key ∉ before.filterMap (ownShape? E) := by
  obtain ⟨before, after, hsplit⟩ := List.append_of_mem (h.sublist.subset (List.mem_filter.mp he).1)
  obtain ⟨-, hkept⟩ := (h.mem_besides_iff hsplit).mp he
  obtain ⟨key, hkey, -⟩ := hkept.resolve_left (by simp [hreference])
  refine ⟨key, hkey, fun before' after' hsplit' => ?_⟩
  obtain ⟨-, hkept'⟩ := (h.mem_besides_iff hsplit').mp he
  obtain ⟨key', hkey', hnot⟩ := hkept'.resolve_left (by simp [hreference])
  rwa [Option.some.inj (hkey.symm.trans hkey')]

include h hT hE in
/-- Every schema that is left has a shape key. -/
theorem exists_shapeKey (he : e ∈ Entries.putAll K (canonicalCatalogue E)) (hreference : e.2.isReference = false) :
    ∃ key, e.2.shapeKey = .ok key := by
  rcases h.mem_cases hT hE he with hbesides | ⟨x, hx, rfl⟩
  · obtain ⟨key, hkey, -⟩ := h.exists_ownShape? hbesides hreference
    exact ⟨key, (ownShape?_eq_some.mp hkey).2.2.1⟩
  · exact h.keyed_catalogue x hx

include h in
/-- A schema that is kept beside the catalogue has none of its shapes. -/
theorem ne_of_besides (he : e ∈ besides E K) (hreference : e.2.isReference = false) (hkey : e.2.shapeKey = .ok key)
    (he' : e' ∈ E) : e'.2.canonical.shapeKey ≠ .ok key := by
  obtain ⟨key', hown, -⟩ := h.exists_ownShape? he hreference
  obtain ⟨-, -, hkey', hnot⟩ := ownShape?_eq_some.mp hown
  obtain rfl : key' = key := Except.ok.inj (hkey'.symm.trans hkey)
  exact fun heq => hnot (mem_catalogueKeys.mpr ⟨e', he', heq⟩)

include h hT hE in
/-- The schemas that are left are told apart by their shapes. -/
theorem eq_of_shapeKey_eq (hdistinct : (E.map fun e => e.2.canonical.shapeKey).Nodup)
    (he : e ∈ Entries.putAll K (canonicalCatalogue E)) (he' : e' ∈ Entries.putAll K (canonicalCatalogue E))
    (hreference : e.2.isReference = false) (hreference' : e'.2.isReference = false)
    (heq : e.2.shapeKey = e'.2.shapeKey) : e = e' := by
  obtain ⟨key, hkey⟩ := h.exists_shapeKey hT hE he hreference
  have hkey' : e'.2.shapeKey = .ok key := heq ▸ hkey
  rcases h.mem_cases hT hE he with hbesides | ⟨x, hx, rfl⟩
  · rcases h.mem_cases hT hE he' with hbesides' | ⟨y, hy, rfl⟩
    · obtain ⟨key₁, hown, hfirst⟩ := h.exists_ownShape? hbesides hreference
      obtain ⟨key₂, hown', hfirst'⟩ := h.exists_ownShape? hbesides' hreference'
      obtain rfl : key₁ = key := Except.ok.inj ((ownShape?_eq_some.mp hown).2.2.1.symm.trans hkey)
      obtain rfl : key₂ = key₁ := Except.ok.inj ((ownShape?_eq_some.mp hown').2.2.1.symm.trans hkey')
      exact eq_of_leads (h.sublist.subset (List.mem_filter.mp hbesides).1)
        (h.sublist.subset (List.mem_filter.mp hbesides').1) hown hown' hfirst hfirst'
    · exact absurd hkey' (h.ne_of_besides hbesides hreference hkey hy)
  · rcases h.mem_cases hT hE he' with hbesides' | ⟨y, hy, rfl⟩
    · exact absurd hkey (h.ne_of_besides hbesides' hreference' hkey' hx)
    · rw [List.inj_on_of_nodup_map hdistinct hx hy heq]

end Survivors

/-- **Folding repeated shapes leaves each shape once.** Let a table that holds a tree `T` whose keys are texts be folded
with a catalogue `E` whose schemas in canonical form have distinct shapes, and let repeated shapes be folded as well.
Then the table holds a tree whose schemas have distinct shapes. It has every shape that `T` has beside the catalogue.
What it keeps of `T` beside the catalogue are the references and the first schemas of the other shapes, in the order of
`T`. -/
theorem foldSchemas_leaves_shapes_once
    (hrun : Runs (foldSchemas table (.object E) true) s (replacements, duplicates) s')
    (htable : s.store.Holds table.schemas (.object T)) (hT : Entries.TextKeyed T) (hE : (Tree.object E).IsJson)
    (hdistinct : (E.map fun e => e.2.canonical.shapeKey).Nodup) :
    ∃ T', s'.store.Holds table.schemas (.object T') ∧ FoldsRepeated T E T' := by
  obtain ⟨K, hheld, h, -⟩ := exists_survivors_of_foldSchemas hrun htable hT hE
  have hbesides : besides E (Entries.putAll K (canonicalCatalogue E)) = besides E K := Survivors.besides_putAll hE.1
  have hkeyed := h.textKeyed_putAll hT hE.1
  refine ⟨_, hheld, {
    keyed := fun e he hreference => h.exists_shapeKey hT hE.1 he hreference
    distinct := ?_
    shapes := ?_
    order := hbesides ▸ h.sublist.filter _
    kept := fun before e after hsplit => hbesides ▸ h.mem_besides_iff hsplit }⟩
  · have hnodup : (Entries.putAll K (canonicalCatalogue E)).Nodup := List.Nodup.of_map _ hkeyed.nodup
    refine (hnodup.filter _).map_on fun e he e' he' heq => ?_
    obtain ⟨hmem, hreference⟩ := List.mem_filter.mp he
    obtain ⟨hmem', hreference'⟩ := List.mem_filter.mp he'
    exact h.eq_of_shapeKey_eq hT hE.1 hdistinct hmem hmem' (by simpa using hreference) (by simpa using hreference') heq
  · intro e he hreference
    obtain ⟨hmem, hname⟩ := List.mem_filter.mp he
    rw [Bool.not_eq_true'] at hname
    obtain ⟨key, hkey⟩ := h.keyed e hmem hname hreference
    refine ⟨key, hkey, ?_⟩
    by_cases hcatalogue : key ∈ catalogueKeys E
    · obtain ⟨x, hx, hxkey⟩ := mem_catalogueKeys.mp hcatalogue
      exact ⟨(x.1, x.2.canonical), Survivors.mem_putAll hE.1 hx, hxkey⟩
    · have hown := List.mem_filterMap.mpr ⟨e, hmem, ownShape?_eq_some.mpr ⟨hname, hreference, hkey, hcatalogue⟩⟩
      obtain ⟨before, first, after, hsplit, hfirst, hnot⟩ := exists_first hown
      obtain ⟨hname', hreference', hkey', -⟩ := ownShape?_eq_some.mp hfirst
      have hkept : first ∈ besides E K := (h.mem_besides_iff hsplit).mpr ⟨hname', .inr ⟨key, hfirst, hnot⟩⟩
      rw [← hbesides] at hkept
      exact ⟨first, (List.mem_filter.mp hkept).1, hkey'⟩

/-- Two schemas of one shape, a reference to the second of them, a schema with the shape of an integer, and one under
the name that integers have in the catalogue. -/
def shadowedShapes : List (String × Tree) :=
  [("Number", .ofFields [("type", .text "string")]),
   ("Name", .ofFields [("type", .text "string")]),
   ("Label", .ofFields [("type", .text "string"), ("description", .text "shown")]),
   ("Alias", .ofFields [("$ref", .text (pointerTo "Label"))]),
   ("Count", .ofFields [("type", .text "integer"), ("format", .text "int32")]),
   ("Flag", .ofFields [("type", .text "boolean")])]

theorem foldSchemas_leaves_shapes_once_shadowedShapes :
    let T : List (Scalar × Tree) := shadowedShapes.map fun field => (.text field.1, field.2)
    let E : List (Scalar × Tree) := [("Number", .ofFields [("type", .text "integer")])]
    let start := Store.empty.load (.object T)
    let replacements : Replacements := [(.text (pointerTo "Label"), pointerTo "Name"),
      (.text (pointerTo "Count"), pointerTo "Number")]
    (E.map fun e => e.2.canonical.shapeKey).Nodup ∧
      ∃ duplicates s' T', Runs (foldSchemas ⟨start.1⟩ (.object E) true) { store := start.2 }
        (replacements, duplicates) s' ∧ s'.store.Holds start.1 (.object T') ∧ FoldsRepeated T E T' := by
  intro T E start replacements
  have hjson : (Tree.ofFields shadowedShapes).IsJson := by decide
  have hE : (Tree.object E).IsJson := by decide
  have hdistinct : (E.map fun e => e.2.canonical.shapeKey).Nodup := List.nodup_singleton _
  have hT : start.2.Holds start.1 (.object T) := Store.holds_load hjson Store.empty
  have hanswer : ((foldSchemas ⟨start.1⟩ (.object E) true).runOn { store := start.2 }).1.toOption.map
      Prod.fst = some replacements := by decide +kernel
  obtain ⟨⟨R, duplicates⟩, s', hrun, rfl : R = replacements⟩ := exists_runs hanswer
  obtain ⟨T', hT', hfolds⟩ := foldSchemas_leaves_shapes_once hrun hT hjson.1 hE hdistinct
  exact ⟨hdistinct, duplicates, s', T', hrun, hT', hfolds⟩

end Procedure

end DeviceApi
