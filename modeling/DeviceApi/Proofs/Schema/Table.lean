import DeviceApi.Proofs.Document.Gates
import DeviceApi.Proofs.Document.Runs
import DeviceApi.Schema.Table

/-!
# The table in a document

Opening the table of a document leads from the root through its components to the table. In a tidy
document both are gates.
-/

namespace DeviceApi

variable {s s' : Store} {v w : Value} {u : Unit} {entries : Entries Value} {id root : Nat}

namespace Store

theorem shape_add_of_shape {cell : Cell} (h : s.shape v = .object id entries) :
    (s.add cell).2.shape v = .object id entries := by
  obtain ⟨rfl, hcell⟩ := shape_eq_object.mp h
  have hlt : id < s.cells.size := lt_size_of_cell hcell
  refine shape_eq_object.mpr ⟨rfl, ?_⟩
  rw [cells_add, if_neg (by omega), hcell]

theorem shape_set_of_shape {entries' : Entries Value} (h : s.shape v = .object id entries) :
    (s.set id (.object entries')).shape v = .object id entries' := by
  obtain ⟨rfl, hcell⟩ := shape_eq_object.mp h
  exact shape_node (by rw [cells_set, if_pos ⟨rfl, lt_size_of_cell hcell⟩])

/-- An empty object that is added under a missing key leaves a document tidy. -/
theorem Tidy.put_new {key : String} (h : s.Tidy root)
    (hcell : s.cells[id]? = some (.object entries)) :
    ((s.add (.object [])).2.set id
      (.object (entries.put (.text key) (.node s.cells.size)))).Tidy root := by
  have hlt : id < s.cells.size := lt_size_of_cell hcell
  have hstands : ∀ i k x, ((s.add (.object [])).2.set id
      (.object (entries.put (.text key) (.node s.cells.size)))).Stands i k x →
      s.Stands i k x ∨ i = id ∧ k = some (.text key) ∧ x = s.cells.size := by
    rintro i k x ⟨cell, hcell', hplace⟩
    rw [cells_set, size_add] at hcell'
    split at hcell'
    · next hi =>
      obtain ⟨rfl, -⟩ := hi
      obtain rfl := Option.some.inj hcell'
      obtain ⟨k', rfl, hmem⟩ := Cell.mem_places_object.mp hplace
      rcases Entries.mem_put hmem with hold | ⟨rfl, heq⟩
      · exact .inl ((stands_object hcell).mpr ⟨k', rfl, hold⟩)
      · exact .inr ⟨rfl, rfl, by simpa using heq⟩
    · rw [cells_add] at hcell'
      split at hcell'
      · obtain rfl := Option.some.inj hcell'
        simp [Cell.places] at hplace
      · exact .inl ⟨cell, hcell', hplace⟩
  refine ⟨by simpa using h.root_lt.trans (Nat.lt_succ_self _), fun i k x hx => ?_,
    fun i j k k' x hx hx' => ?_⟩
  · rw [size_set, size_add]
    rcases hstands i k x hx with hold | ⟨-, -, rfl⟩
    · obtain ⟨hx, hroot⟩ := h.inside i k x hold
      exact ⟨by omega, hroot⟩
    · have := h.root_lt
      omega
  · rcases hstands i k x hx with hold | ⟨rfl, rfl, rfl⟩ <;>
      rcases hstands j k' _ hx' with hold' | ⟨rfl, rfl, heq⟩
    · exact h.unique i j k k' x hold hold'
    · have := (h.inside i k x hold).1
      omega
    · have := (h.inside j k' _ hold').1
      omega
    · exact ⟨rfl, rfl⟩

end Store

namespace Edit

/-- A missing field is filled with an empty object. -/
theorem runs_fieldOrNew {key : Scalar} (h : Runs (fieldOrNew v key) s w s') :
    ∃ id entries, s.shape v = .object id entries ∧
      ((entries.get? key = some w ∧ s' = s) ∨
        (entries.get? key = none ∧ w = .node s.cells.size ∧
          s' = (s.add (.object [])).2.set id (.object (entries.put key w)))) := by
  simp only [fieldOrNew, runs_bind, runs_entriesOf] at h
  obtain ⟨entries, _, ⟨⟨id, hshape⟩, rfl⟩, h⟩ := h
  refine ⟨id, entries, hshape, ?_⟩
  split at h
  · next w' hget =>
    obtain ⟨rfl, rfl⟩ := runs_pure.mp h
    exact .inl ⟨hget, rfl⟩
  · next hget =>
    simp only [runs_bind, runs_newObject, runs_putField, runs_pure] at h
    obtain ⟨_, _, ⟨rfl, rfl⟩, _, _, ⟨id', entries', hshape', rfl⟩, rfl, rfl⟩ := h
    rw [Store.shape_add_of_shape hshape, Shape.object.injEq] at hshape'
    obtain ⟨rfl, rfl⟩ := hshape'
    exact .inr ⟨hget, rfl, rfl⟩

/-- A field that has been filled is there, other fields are as they were, and the document stays
tidy. -/
theorem tidy_fieldOrNew {key : String} (h : Runs (fieldOrNew (.node id) key) s w s')
    (htidy : s.Tidy root) :
    s'.Tidy root ∧ (∃ before after : Entries Value, s.cells[id]? = some (.object before) ∧
      s'.cells[id]? = some (.object after) ∧ after.get? (.text key) = some w ∧
      ∀ k, k ≠ key → after.get? (.text k) = before.get? (.text k)) ∧
      ∀ i, i ≠ id → i < s.cells.size → s'.cells[i]? = s.cells[i]? := by
  obtain ⟨id', entries, hshape, hcases⟩ := runs_fieldOrNew h
  obtain ⟨heq, hcell⟩ := Store.shape_eq_object.mp hshape
  obtain rfl : id = id' := by simpa using heq
  rcases hcases with ⟨hget, rfl⟩ | ⟨-, rfl, rfl⟩
  · exact ⟨htidy, ⟨entries, entries, hcell, hcell, hget, fun _ _ => rfl⟩, fun _ _ _ => rfl⟩
  · have hlt : id < s.cells.size := Store.lt_size_of_cell hcell
    refine ⟨htidy.put_new hcell, ⟨entries, entries.put (.text key) (.node s.cells.size), hcell, ?_,
      Entries.get?_put_self, fun k hk => by rw [Entries.get?_put, if_neg (Ne.symm hk)]⟩,
      fun i hi hlt' => ?_⟩
    · rw [Store.cells_set, if_pos ⟨rfl, by rw [Store.size_add]; omega⟩]
    · rw [Store.cells_set, if_neg fun hii => hi hii.1, Store.cells_add, if_neg (by omega)]

/-- The gates on the way to the table. -/
def tableGates (root components schemas : Nat) : Set Gate :=
  {⟨root, "components", components⟩, ⟨components, "schemas", schemas⟩}

/-- The gates of a document: those on the way to the table and its paths, if they are a node. -/
def documentGates (root : Nat) (paths : Option Value) (components schemas : Nat) : Set Gate :=
  {g | ∃ p, paths = some (.node p) ∧ g = ⟨root, "paths", p⟩} ∪ tableGates root components schemas

variable {components schemas : Nat} {paths : Option Value} {table : SchemaTable}

theorem tableGates_subset :
    tableGates root components schemas ⊆ documentGates root paths components schemas :=
  Set.subset_union_right

theorem mem_documentGates {g : Gate} : g ∈ documentGates root paths components schemas ↔
    (∃ p, paths = some (.node p) ∧ g = ⟨root, "paths", p⟩) ∨
      g = ⟨root, "components", components⟩ ∨ g = ⟨components, "schemas", schemas⟩ := Iff.rfl

/-- The gates on the way to the table stand under keys of their own. -/
theorem key_mem_wayKeys {g : Gate} (hg : g ∈ documentGates root paths components schemas) :
    g.key ∈ wayKeys := by
  rcases mem_documentGates.mp hg with ⟨p, -, rfl⟩ | rfl | rfl <;> simp [wayKeys]

theorem passage_tableGates : Passage root (tableGates root components schemas) where
  owner g hg := by
    rcases hg with rfl | rfl
    · exact .inl rfl
    · exact .inr ⟨⟨root, "components", components⟩, .inl rfl, rfl⟩
  key g hg := .inl (List.mem_append_left _
    (key_mem_wayKeys (@tableGates_subset _ _ _ none _ hg)))

theorem passage_documentGates : Passage root (documentGates root paths components schemas) where
  owner g hg := by
    rcases mem_documentGates.mp hg with ⟨p, -, rfl⟩ | rfl | rfl
    · exact .inl rfl
    · exact .inl rfl
    · exact .inr ⟨⟨root, "components", components⟩, mem_documentGates.mpr (.inr (.inl rfl)), rfl⟩
  key g hg := .inl (List.mem_append_left _ (key_mem_wayKeys hg))

/-- The root, the components and the table are three nodes. -/
theorem ne_of_gated {view : View}
    (h : View.Gated root (tableGates root components schemas) view) :
    components ≠ root ∧ schemas ≠ root ∧ schemas ≠ components := by
  have hcomponents : (⟨root, "components", components⟩ : Gate) ∈ tableGates root components schemas := by
    simp [tableGates]
  have hschemas : (⟨components, "schemas", schemas⟩ : Gate) ∈ tableGates root components schemas := by
    simp [tableGates]
  obtain ⟨entries, hcell, hget⟩ := h.stands _ hcomponents
  have hstands : view.store.Stands root (some (.text "components")) components :=
    (Store.stands_object hcell).mpr ⟨_, rfl, Entries.mem_of_get? hget⟩
  obtain ⟨entries', hcell', hget'⟩ := h.stands _ hschemas
  have hstands' : view.store.Stands components (some (.text "schemas")) schemas :=
    (Store.stands_object hcell').mpr ⟨_, rfl, Entries.mem_of_get? hget'⟩
  have hne : components ≠ root := (h.known_of_stands _ _ _ h.root_known hstands).2
  have hne' : schemas ≠ root :=
    (h.known_of_stands _ _ _ (h.gate_known _ hcomponents) hstands').2
  refine ⟨hne, hne', ?_⟩
  rintro rfl
  exact hne (h.only _ hschemas _ _ h.root_known hstands).1.symm

theorem owner_ne_of_tableGates {view : View}
    (h : View.Gated root (tableGates root components schemas) view) :
    ∀ g ∈ tableGates root components schemas, g.owner ≠ schemas := by
  obtain ⟨-, hroot, hcomponents⟩ := ne_of_gated h
  rintro g (rfl | rfl)
  · exact hroot.symm
  · exact hcomponents.symm

/-- The paths are a node besides these. -/
theorem paths_ne_of_gated {view : View} {p : Nat}
    (h : View.Gated root (documentGates root (some (.node p)) components schemas) view) :
    p ≠ components ∧ p ≠ schemas := by
  have hpaths : (⟨root, "paths", p⟩ : Gate) ∈
      documentGates root (some (.node p)) components schemas := mem_documentGates.mpr (.inl ⟨p, rfl, rfl⟩)
  obtain ⟨entries, hcell, hget⟩ := h.stands _ hpaths
  have hstands : view.store.Stands root (some (.text "paths")) p :=
    (Store.stands_object hcell).mpr ⟨_, rfl, Entries.mem_of_get? hget⟩
  refine ⟨?_, ?_⟩
  · rintro rfl
    have hkey := (h.only _ (mem_documentGates.mpr (.inr (.inl rfl))) _ _ h.root_known hstands).2
    simp at hkey
  · rintro rfl
    have hkey := (h.only _ (mem_documentGates.mpr (.inr (.inr rfl))) _ _ h.root_known hstands).2
    simp at hkey

/-- None of these gates stands in the paths. -/
theorem not_crowded_documentGates {view : View}
    (h : View.Gated root (documentGates root paths components schemas) view) :
    ¬ Crowded root (documentGates root paths components schemas) id := by
  rintro ⟨hpaths, g, hg, rfl⟩
  obtain ⟨p, rfl, heq⟩ | heq | heq := mem_documentGates.mp hpaths
  · obtain rfl : g.owner = p := by simpa using heq
    obtain ⟨entries, hcell, hget⟩ := h.stands _ hpaths
    have hroot : g.owner ≠ root := (h.known_of_stands _ _ _ h.root_known
      ((Store.stands_object hcell).mpr ⟨_, rfl, Entries.mem_of_get? hget⟩)).2
    rcases mem_documentGates.mp hg with ⟨_, -, rfl⟩ | rfl | rfl
    · exact hroot rfl
    · exact hroot rfl
    · exact (paths_ne_of_gated h).1 rfl
  · simp at heq
  · simp at heq

/-- No gate stands in the table. -/
theorem owner_ne_schemas {view : View}
    (h : View.Gated root (documentGates root paths components schemas) view) :
    ∀ g ∈ documentGates root paths components schemas, g.owner ≠ schemas := by
  rintro g (⟨p, -, rfl⟩ | hg)
  · exact (ne_of_gated (h.of_subset tableGates_subset)).2.1.symm
  · exact owner_ne_of_tableGates (h.of_subset tableGates_subset) g hg

/-- Opening the table changes the root and the components, and of the root at most the field of the
components. -/
theorem cells_openTable (h : Runs (openTable (.node root)) s table s') (htidy : s.Tidy root) :
    s'.Tidy root ∧ ∃ components, ∃ before after inner : Entries Value,
      s.cells[root]? = some (.object before) ∧ s'.cells[root]? = some (.object after) ∧
      (∀ k, k ≠ "components" → after.get? (.text k) = before.get? (.text k)) ∧
      after.get? "components" = some (.node components) ∧
      s'.cells[components]? = some (.object inner) ∧ inner.get? "schemas" = some table.schemas ∧
      ∀ i, i ≠ root → i ≠ components → i < s.cells.size → s'.cells[i]? = s.cells[i]? := by
  simp only [openTable, runs_bind, runs_pure] at h
  obtain ⟨w, s₁, hcomponents, schemas, s₂, hschemas, rfl, rfl⟩ := h
  obtain ⟨htidy₁, ⟨before, after, hbefore, hafter, hget, hothers⟩, hagree₁⟩ :=
    tidy_fieldOrNew hcomponents htidy
  obtain ⟨c, _, hshape, -⟩ := runs_fieldOrNew hschemas
  obtain ⟨rfl, -⟩ := Store.shape_eq_object.mp hshape
  obtain ⟨htidy₂, ⟨_, inner, -, hinner, hget', -⟩, hagree₂⟩ := tidy_fieldOrNew hschemas htidy₁
  have hstands : s₁.Stands root (some (.text "components")) c :=
    (Store.stands_object hafter).mpr ⟨_, rfl, Entries.mem_of_get? hget⟩
  have hsize : s.cells.size ≤ s₁.cells.size := by
    obtain ⟨_, _, -, ⟨-, rfl⟩ | ⟨-, -, rfl⟩⟩ := runs_fieldOrNew hcomponents
    · exact le_rfl
    · simp
  refine ⟨htidy₂, c, before, after, inner, hbefore, ?_, hothers, hget, hinner, hget', ?_⟩
  · exact (hagree₂ root (htidy₁.inside _ _ _ hstands).2.symm htidy₁.root_lt).trans hafter
  · intro i hroot hi hlt
    exact (hagree₂ i hi (hlt.trans_le hsize)).trans (hagree₁ i hroot hlt)

/-- Once the table of a tidy document is open, its paths and what leads to the table are gates. -/
theorem gated_openTable (h : Runs (openTable (.node root)) s table s') (htidy : s.Tidy root)
    (htable : table.schemas = .node schemas) :
    ∃ components entries, s'.cells[root]? = some (.object entries) ∧
      View.Gated root (documentGates root (entries.get? "paths") components schemas)
        ⟨s', {i | i < s'.cells.size}⟩ := by
  obtain ⟨htidy', c, -, after, inner, -, hafter, -, hget, hinner, hget', -⟩ := cells_openTable h htidy
  refine ⟨c, after, hafter, .of_tidy htidy' fun g hg => ?_⟩
  rcases mem_documentGates.mp hg with ⟨p, hp, rfl⟩ | rfl | rfl
  · exact ⟨after, hafter, hp⟩
  · exact ⟨after, hafter, hget⟩
  · exact ⟨inner, hinner, htable ▸ hget'⟩

/-- The root leads through its components to the table. -/
structure TablePath (s : Store) (root c T : Nat) (entries inner V : Entries Value) : Prop where
  root_cell : s.cells[root]? = some (.object entries)
  components_get : entries.get? "components" = some (.node c)
  components_cell : s.cells[c]? = some (.object inner)
  schemas_get : inner.get? "schemas" = some (.node T)
  table_cell : s.cells[T]? = some (.object V)

theorem tablePath_of_gated {c T : Nat} {K : Set Nat} {V : Entries Value}
    (h : View.Gated root (tableGates root c T) ⟨s, K⟩) (hcell : s.cells[T]? = some (.object V)) :
    ∃ entries inner, TablePath s root c T entries inner V := by
  obtain ⟨entries, hroot, hcomponents⟩ := h.stands ⟨root, "components", c⟩ (by simp [tableGates])
  obtain ⟨inner, hinner, hschemas⟩ := h.stands ⟨c, "schemas", T⟩ (by simp [tableGates])
  exact ⟨entries, inner, hroot, hcomponents, hinner, hschemas, hcell⟩

theorem runs_fieldOrNew_of_get? {key : Scalar} (hcell : s.cells[id]? = some (.object entries))
    (hget : entries.get? key = some w) : Runs (fieldOrNew (.node id) key) s w s := by
  refine runs_bind.mpr ⟨entries, s, runs_entriesOf.mpr ⟨⟨id, Store.shape_node hcell⟩, rfl⟩, ?_⟩
  rw [hget]
  exact runs_pure.mpr ⟨rfl, rfl⟩

/-- A table that is there is opened without a change. -/
theorem TablePath.runs_openTable {c T : Nat} {inner V : Entries Value}
    (h : TablePath s root c T entries inner V) : Runs (openTable (.node root)) s ⟨.node T⟩ s :=
  runs_bind.mpr ⟨.node c, s, runs_fieldOrNew_of_get? h.root_cell h.components_get,
    runs_bind.mpr ⟨.node T, s, runs_fieldOrNew_of_get? h.components_cell h.schemas_get,
      runs_pure.mpr ⟨rfl, rfl⟩⟩⟩

end Edit

end DeviceApi
