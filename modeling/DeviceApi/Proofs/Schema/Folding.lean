import DeviceApi.Proofs.Schema.Catalogue

/-!
# Folding loses nothing

While the table is gone through, a schema that is removed has a target of the same shape: a schema
of the catalogue, which is put into the table in the end, or the first schema of the table with
that shape, which is never removed itself. So each name still leads to a schema of its shape, in
one step.
-/

namespace DeviceApi

theorem pointerTo_injective {m n : String} (h : pointerTo m = pointerTo n) : m = n :=
  String.append_right_inj _ |>.mp h

namespace Replacements

variable {replacements : Replacements} {p : Scalar} {q : String}

/-- A pointer that is not replaced takes its own place. -/
theorem follow_of_none (h : replacements.get? p = none) : replacements.follow p = p := by
  unfold follow
  cases replacements.length <;> simp [follow.go, h]

/-- A pointer whose replacement is not replaced is followed in one step. -/
theorem follow_of_some (h : replacements.get? p = some q)
    (hfinal : replacements.get? (.text q) = none) : replacements.follow p = .text q := by
  cases replacements with
  | nil => simp at h
  | cons e rest =>
    unfold follow
    rw [List.length_cons, follow.go, h]
    cases rest.length <;> simp [follow.go, hfinal]

end Replacements

/-- What is known after a shape has been met once more. -/
def FoldState.meet (state : FoldState) (key : String) (name : Scalar) : FoldState :=
  { state with
    counts := state.counts.put key ((state.counts.get? key).getD 0 + 1)
    firstSeen := state.firstSeen.put key ((state.firstSeen.get? key).getD name) }

namespace Procedure

open Edit

variable {s s' : Session} {table : SchemaTable} {catalogue : Entries Value}
  {shapes : Entries Scalar} {merge : Bool} {state state' : FoldState} {name target : Scalar}
  {schema : Value}

/-- Folding a schema removes its name from the table and replaces the pointer to it. -/
theorem runs_foldInto (h : Runs (foldInto table state name target) s state' s') :
    (∃ id entries, s.store.shape table.schemas = .object id entries ∧
      s'.store = s.store.set id (.object (entries.remove name))) ∧
    state' = { state with replacements :=
      state.replacements.put (pointerTo name.display) (pointerTo target.display) } := by
  simp only [foldInto, SchemaTable.remove, runs_bind, runs_monadLift, runs_removeField,
    runs_textOf, runs_report, runs_pure] at h
  obtain ⟨_, _, ⟨store, ⟨id, entries, hshape, -, rfl⟩, rfl⟩, _, _, ⟨_, ⟨⟨-, rfl⟩, rfl⟩, rfl⟩, _, _,
    ⟨_, ⟨⟨-, rfl⟩, rfl⟩, rfl⟩, _, _, rfl, rfl, rfl⟩ := h
  exact ⟨⟨id, entries, hshape, rfl⟩, rfl⟩

/-- What becomes of one schema of the table. -/
theorem foldSchema_cases
    (h : Runs (foldSchema table catalogue shapes merge state name schema) s state' s') :
    ((catalogue.has name = true ∨ s.store.isReference schema = true) ∧ state' = state ∧ s' = s) ∨
    catalogue.has name = false ∧ s.store.isReference schema = false ∧
      ∃ key, s.store.shapeKey schema = .ok key ∧
        ((∃ target, shapes.get? (.text key) = some target ∧
            Runs (foldInto table state name target) s state' s') ∨
          shapes.get? (.text key) = none ∧
            ((merge = true ∧ ((state.firstSeen.get? (.text key)).getD name).same name = false ∧
                Runs (foldInto table (state.meet key name) name
                  ((state.firstSeen.get? (.text key)).getD name)) s state' s') ∨
              (merge = false ∨ ((state.firstSeen.get? (.text key)).getD name).same name = true) ∧
                state' = state.meet key name ∧ s' = s)) := by
  simp only [foldSchema, runs_bind, runs_monadLift, runs_isReference] at h
  obtain ⟨c, t, ⟨_, ⟨rfl, rfl⟩, rfl⟩, h⟩ := h
  split at h
  · next hskip =>
    obtain ⟨rfl, rfl⟩ := runs_pure.mp h
    exact .inl ⟨by simpa using hskip, rfl, rfl⟩
  · next hskip =>
    simp only [Bool.or_eq_true, not_or, Bool.not_eq_true] at hskip
    refine .inr ⟨hskip.1, hskip.2, ?_⟩
    simp only [runs_bind, runs_monadLift, runs_shapeKeyOf] at h
    obtain ⟨key, _, ⟨_, ⟨hkey, rfl⟩, rfl⟩, h⟩ := h
    refine ⟨key, hkey, ?_⟩
    split at h
    · next target htarget => exact .inl ⟨target, htarget, h⟩
    · next hnone =>
      refine .inr ⟨hnone, ?_⟩
      split at h
      · next hmerge =>
        simp only [Bool.and_eq_true, Bool.not_eq_true'] at hmerge
        exact .inl ⟨hmerge.1, hmerge.2, h⟩
      · next hmerge =>
        obtain ⟨rfl, rfl⟩ := runs_pure.mp h
        refine .inr ⟨?_, rfl, rfl⟩
        simpa [Bool.and_eq_true, -not_and, Decidable.not_and_iff_not_or_not] using hmerge

/-! ## The invariant of the loop -/

variable {st : Store} {V C done : Entries Value} {kept : Entries Value} {id : Nat}
  {replacements : Replacements} {key m n : String} {v w : Value}

/-- A schema of the table with a given shape that is done and was not removed. It is no reference. -/
structure Stays (st : Store) (V C done : Entries Value) (replacements : Replacements) (m key : String) :
    Prop where
  mem_done : .text m ∈ done.keys
  notMem_catalogue : C.has (.text m) = false
  not_replaced : replacements.has (.text (pointerTo m)) = false
  shape : ∃ w, V.get? (.text m) = some w ∧ st.isReference w = false ∧ st.shapeKey w = .ok key

/-- What is known once the schemas `done` of the table `V` have been gone through. All shapes are
those of the store `st` in which the schemas `C` of the catalogue have just been added. -/
structure Folded (st : Store) (V C done : Entries Value) (state : FoldState) (kept : Entries Value) :
    Prop where
  textKeyed : kept.TextKeyed
  get?_kept : ∀ n, kept.get? (.text n) =
    if state.replacements.has (.text (pointerTo n)) then none else V.get? (.text n)
  exists_pointer : ∀ p ∈ state.replacements.keys, ∃ n, p = .text (pointerTo n)
  replaced : ∀ n q, state.replacements.get? (.text (pointerTo n)) = some q →
    .text n ∈ done.keys ∧ C.has (.text n) = false ∧ ∃ v key m, V.get? (.text n) = some v ∧
      st.isReference v = false ∧ st.shapeKey v = .ok key ∧ q = pointerTo m ∧
      ((∃ w, C.get? (.text m) = some w ∧ st.shapeKey w = .ok key) ∨
        Stays st V C done state.replacements m key)
  first : ∀ key name, state.firstSeen.get? (.text key) = some name →
    ∃ n, name = .text n ∧ Stays st V C done state.replacements n key
  keyed : ∀ e ∈ done, C.has e.1 = false → st.isReference e.2 = false →
    ∃ key, st.shapeKey e.2 = .ok key

namespace Stays

/-- A schema that stays does so when more schemas have been gone through. -/
theorem append (h : Stays st V C done replacements m key) (rest : Entries Value) :
    Stays st V C (done ++ rest) replacements m key where
  mem_done := by
    rw [Entries.keys_append]
    exact List.mem_append_left _ h.mem_done
  notMem_catalogue := h.notMem_catalogue
  not_replaced := h.not_replaced
  shape := h.shape

/-- A schema that stays is not the one that is removed later. -/
theorem put (h : Stays st V C done replacements m key) (hn : .text n ∉ done.keys) (q : String) :
    Stays st V C done (replacements.put (.text (pointerTo n)) q) m key where
  mem_done := h.mem_done
  notMem_catalogue := h.notMem_catalogue
  not_replaced := by
    have hne : pointerTo n ≠ pointerTo m := by
      intro heq
      exact hn (pointerTo_injective heq ▸ h.mem_done)
    simp [Entries.has_put, hne, h.not_replaced]
  shape := h.shape

end Stays

namespace Folded

theorem init (hV : V.TextKeyed) : Folded st V C [] {} V where
  textKeyed := hV
  get?_kept n := by simp [Entries.has]
  exists_pointer := by simp
  replaced := by simp
  first := by simp
  keyed := by simp

/-- Nothing is replaced that has not been gone through. -/
theorem not_replaced (h : Folded st V C done state kept) (hn : .text n ∉ done.keys) :
    state.replacements.has (.text (pointerTo n)) = false := by
  cases hget : state.replacements.get? (.text (pointerTo n)) with
  | none => simp [Entries.has, hget]
  | some q => exact absurd (h.replaced n q hget).1 hn

theorem append (h : Folded st V C done state kept)
    (hkeyed : C.has name = false → st.isReference schema = false →
      ∃ key, st.shapeKey schema = .ok key) :
    Folded st V C (done ++ [(name, schema)]) state kept where
  textKeyed := h.textKeyed
  get?_kept := h.get?_kept
  exists_pointer := h.exists_pointer
  replaced n q hq := by
    obtain ⟨hmem, hC, v, key, m, hv, hreference, hkey, hpointer, htarget⟩ := h.replaced n q hq
    refine ⟨?_, hC, v, key, m, hv, hreference, hkey, hpointer, htarget.imp_right (·.append _)⟩
    rw [Entries.keys_append]
    exact List.mem_append_left _ hmem
  first key name hname := by
    obtain ⟨n, rfl, hstays⟩ := h.first key name hname
    exact ⟨n, rfl, hstays.append _⟩
  keyed e he := by
    rcases List.mem_append.mp he with hdone | hlast
    · exact h.keyed e hdone
    · obtain rfl := List.mem_singleton.mp hlast
      exact hkeyed

/-- Meeting a shape whose first schema stays. -/
theorem meet (h : Folded st V C done state kept)
    (hfirst : (state.firstSeen.get? (.text key)).getD name = .text n)
    (hstays : Stays st V C done state.replacements n key) :
    Folded st V C done (state.meet key name) kept where
  textKeyed := h.textKeyed
  get?_kept := h.get?_kept
  exists_pointer := h.exists_pointer
  replaced := h.replaced
  first key' name' hname := by
    simp only [FoldState.meet, Entries.get?_put] at hname
    split at hname
    · next heq =>
      refine ⟨n, ?_, heq ▸ hstays⟩
      rw [← hfirst]
      exact (Option.some.inj hname).symm
    · exact h.first key' name' hname
  keyed := h.keyed

/-- Removing a schema in favour of one of the catalogue or of one that stays. -/
theorem remove (h : Folded st V C done state kept) (hn : .text n ∉ done.keys)
    (hv : V.get? (.text n) = some v) (hC : C.has (.text n) = false)
    (hreference : st.isReference v = false) (hkey : st.shapeKey v = .ok key)
    (htarget : (∃ w, C.get? (.text m) = some w ∧ st.shapeKey w = .ok key) ∨
      Stays st V C done state.replacements m key) :
    Folded st V C (done ++ [(.text n, v)])
      { state with replacements := state.replacements.put (.text (pointerTo n)) (pointerTo m) }
      (kept.remove (.text n)) where
  textKeyed := h.textKeyed.remove
  get?_kept k := by
    rw [Entries.get?_remove h.textKeyed.nodup, h.get?_kept, Entries.has_put]
    by_cases hk : n = k
    · simp [hk]
    · have hne : pointerTo n ≠ pointerTo k := fun heq => hk (pointerTo_injective heq)
      simp [hk, hne]
  exists_pointer p hp := by
    rcases Entries.mem_keys_put.mp hp with hold | rfl
    · exact h.exists_pointer p hold
    · exact ⟨n, rfl⟩
  replaced k q hq := by
    rw [Entries.get?_put] at hq
    split at hq
    · next heq =>
      obtain rfl := pointerTo_injective heq
      obtain rfl := Option.some.inj hq
      refine ⟨by simp, hC, v, key, m, hv, hreference, hkey, rfl, ?_⟩
      exact htarget.imp_right fun hstays => (hstays.put hn _).append _
    · obtain ⟨hmem, hCk, v', key', m', hv', hreference', hkey', hpointer, htarget'⟩ :=
        h.replaced k q hq
      refine ⟨by simp [hmem], hCk, v', key', m', hv', hreference', hkey', hpointer, ?_⟩
      exact htarget'.imp_right fun hstays => (hstays.put hn _).append _
  first key' name' hname := by
    obtain ⟨k, rfl, hstays⟩ := h.first key' name' hname
    exact ⟨k, rfl, (hstays.put hn _).append _⟩
  keyed e he := by
    rcases List.mem_append.mp he with hdone | hlast
    · exact h.keyed e hdone
    · obtain rfl := List.mem_singleton.mp hlast
      exact fun _ _ => ⟨key, hkey⟩

end Folded

/-! ## The run -/

/-- What one step of the loop makes of what is known and of the table. Whether schemas are references
and what shapes they have is told by the store `st`. -/
inductive Folds (st : Store) (C : Entries Value) (shapes : Entries Scalar) (merge : Bool) (name : Scalar)
    (schema : Value) (state : FoldState) (kept : Entries Value) : FoldState → Entries Value → Prop
  /-- A schema of the catalogue or a reference is left alone. -/
  | skip (h : C.has name = true ∨ st.isReference schema = true) :
      Folds st C shapes merge name schema state kept state kept
  /-- A schema of the catalogue has the shape. -/
  | replace {key : String} {target : Scalar} (hC : C.has name = false)
      (hreference : st.isReference schema = false) (hkey : st.shapeKey schema = .ok key)
      (htarget : shapes.get? (.text key) = some target) :
      Folds st C shapes merge name schema state kept
        { state with
          replacements := state.replacements.put (pointerTo name.display) (pointerTo target.display) }
        (kept.remove name)
  /-- An earlier schema of the table has the shape. -/
  | merge {key : String} {first : Scalar} (hC : C.has name = false)
      (hreference : st.isReference schema = false) (hkey : st.shapeKey schema = .ok key)
      (hnew : shapes.get? (.text key) = none) (hmerge : merge = true)
      (hfirst : state.firstSeen.get? (.text key) = some first) :
      Folds st C shapes merge name schema state kept
        { (state.meet key name) with
          replacements := state.replacements.put (pointerTo name.display) (pointerTo first.display) }
        (kept.remove name)
  /-- The schema is the first of its shape, or duplicates are left alone. -/
  | meet {key : String} (hC : C.has name = false)
      (hreference : st.isReference schema = false) (hkey : st.shapeKey schema = .ok key)
      (hnew : shapes.get? (.text key) = none)
      (hfirst : merge = false ∨ ((state.firstSeen.get? (.text key)).getD name).same name = true) :
      Folds st C shapes merge name schema state kept (state.meet key name) kept

/-- The table is the node `id`, and the schema lies apart from it. -/
theorem folds_of_runs (htable : table.schemas = .node id) (hid : id < st.cells.size)
    (hschema : st.Apart id schema) (hstore : s.store = st.set id (.object kept))
    (hrun : Runs (foldSchema table C shapes merge state (.text n) schema) s state' s') :
    ∃ kept', Folds st C shapes merge (.text n) schema state kept state' kept' ∧
      s'.store = st.set id (.object kept') := by
  have hfold : ∀ {start : FoldState} {target : Scalar},
      Runs (foldInto table start (.text n) target) s state' s' →
      s'.store = st.set id (.object (kept.remove (.text n))) ∧ state' = { start with
        replacements := start.replacements.put (.text (pointerTo n)) (pointerTo target.display) } := by
    intro start target hrun
    obtain ⟨⟨id', entries, hshape, hstore'⟩, hstate⟩ := runs_foldInto hrun
    rw [hstore, htable, Store.shape_eq_object, Store.cells_set] at hshape
    obtain ⟨heq, hcell⟩ := hshape
    obtain rfl : id = id' := by simpa using heq
    obtain rfl : kept = entries := by simpa [hid] using hcell
    refine ⟨by rw [hstore', hstore, Store.set_set], hstate⟩
  rcases foldSchema_cases hrun with ⟨hskip, rfl, rfl⟩ | ⟨hcatalogue, hreference, key, hkey, hcases⟩
  · rw [hstore, hschema.isReference_set] at hskip
    exact ⟨kept, .skip hskip, hstore⟩
  · rw [hstore, hschema.isReference_set] at hreference
    rw [hstore, hschema.shapeKey_set] at hkey
    rcases hcases with ⟨target, htarget, hinto⟩ | ⟨hnew, ⟨hmerge, hsame, hinto⟩ | ⟨hfirst, rfl, rfl⟩⟩
    · obtain ⟨hstore', rfl⟩ := hfold hinto
      exact ⟨_, .replace hcatalogue hreference hkey htarget, hstore'⟩
    · cases hseen : state.firstSeen.get? (.text key) with
      | none => simp [hseen, Scalar.same] at hsame
      | some first =>
        obtain ⟨hstore', rfl⟩ := hfold hinto
        rw [hseen]
        exact ⟨_, .merge hcatalogue hreference hkey hnew hmerge hseen, hstore'⟩
    · exact ⟨kept, .meet hcatalogue hreference hkey hnew hfirst, hstore⟩

/-- One step of the loop keeps the invariant. -/
theorem Folded.step (h : Folded st V C done state kept) (hV : V.TextKeyed) (hC : C.TextKeyed)
    (hshapes : ∀ key name, shapes.get? (.text key) = some name →
      ∃ v, (name, v) ∈ C ∧ st.shapeKey v = .ok key)
    (hdone : ∃ rest, done ++ (.text n, schema) :: rest = V) {kept' : Entries Value}
    (hfolds : Folds st C shapes merge (.text n) schema state kept state' kept') :
    Folded st V C (done ++ [(.text n, schema)]) state' kept' := by
  obtain ⟨rest, hdone⟩ := hdone
  have hv : V.get? (.text n) = some schema := Entries.get?_of_mem hV.nodup (hdone ▸ by simp)
  have hn : .text n ∉ done.keys := by
    have hnodup := hV.nodup
    rw [← hdone, Entries.keys_append, List.nodup_append] at hnodup
    intro hin
    exact hnodup.2.2 _ hin _ (by simp) rfl
  cases hfolds with
  | skip hskip => exact h.append fun hC hreference => by simp [hC, hreference] at hskip
  | @replace key target hcatalogue hreference hkey htarget =>
    obtain ⟨w, hw, hwkey⟩ := hshapes key target htarget
    obtain ⟨m, rfl⟩ := hC.exists_text target (List.mem_map_of_mem hw)
    exact h.remove hn hv hcatalogue hreference hkey (.inl ⟨w, Entries.get?_of_mem hC.nodup hw, hwkey⟩)
  | @merge key first hcatalogue hreference hkey hnew hmerge hseen =>
    obtain ⟨m, rfl, hstays⟩ := h.first key first hseen
    have hmeet : Folded st V C done (state.meet key (.text n)) kept := h.meet (by simp [hseen]) hstays
    exact hmeet.remove hn hv hcatalogue hreference hkey (.inr hstays)
  | @meet key hcatalogue hreference hkey hnew hfirst =>
    have happend : Folded st V C (done ++ [(.text n, schema)]) state kept :=
      h.append fun _ _ => ⟨key, hkey⟩
    cases hseen : state.firstSeen.get? (.text key) with
    | none =>
      exact happend.meet (by simp [hseen])
        ⟨by simp, hcatalogue, h.not_replaced hn, schema, hv, hreference, hkey⟩
    | some first =>
      obtain ⟨m, rfl, hstays⟩ := happend.first key first hseen
      exact happend.meet (by simp [hseen]) hstays

section

variable {E : List (Scalar × Tree)} {duplicates : List DuplicateShape}
  (hrun : Runs (foldSchemas table (.object E) merge) s (replacements, duplicates) s')
  (htable : table.schemas = .node id) (hcell : s.store.cells[id]? = some (.object V))
  (hV : V.TextKeyed) (hE : Entries.TextKeyed E) (hapart : ∀ v ∈ V.values, s.store.Apart id v)
include hrun htable hcell hV hE hapart

/-- A run of the folding adds the catalogue to the store, goes through the table step by step, and puts
the catalogue over what is kept. What every step keeps from the beginning holds in the end. -/
theorem Runs.foldSchemas_induct
    (I : Store → Entries Value → Entries Scalar → Entries Value → FoldState → Entries Value → Prop)
    (hinit : ∀ st C shapes, I st C shapes [] {} V)
    (hstep : ∀ st C shapes done n schema rest state kept state' kept', C.TextKeyed →
      (∀ key name, shapes.get? (.text key) = some name → ∃ v, (name, v) ∈ C ∧ st.shapeKey v = .ok key) →
      done ++ (.text n, schema) :: rest = V → I st C shapes done state kept →
      Folds st C shapes merge (.text n) schema state kept state' kept' →
      I st C shapes (done ++ [(.text n, schema)]) state' kept') :
    ∃ C t shapes state kept, Runs (loadCatalogue (.object E)) s C t ∧
      Runs (catalogueShapes C) t shapes t ∧ I t.store C shapes V state kept ∧
      state.replacements = replacements ∧ state.counts.duplicates = duplicates ∧
      s'.store = t.store.set id (.object (kept.putAll C)) := by
  simp only [foldSchemas, runs_bind, SchemaTable.entries, runs_monadLift, runs_entriesOf] at hrun
  obtain ⟨C, _, hload, shapes, t, hshapes, V', _, ⟨_, ⟨⟨id', hentries⟩, rfl⟩, rfl⟩, state, t₁, hloop,
    _, t₂, ⟨store, hmerge, rfl⟩, _, t₃, hreport, hanswer⟩ := hrun
  obtain ⟨rfl, hsound⟩ := catalogueShapes_sound hshapes
  obtain ⟨hkeys, hadds⟩ := adds_loadCatalogue hload
  have hC : C.TextKeyed := ⟨hkeys ▸ hE.exists_text, hkeys ▸ hE.nodup⟩
  have hcell' : t.store.cells[id]? = some (.object V) := by
    rw [hadds.agree id (Store.lt_size_of_cell hcell), hcell]
  have hid : id < t.store.cells.size := Store.lt_size_of_cell hcell'
  rw [htable, Store.shape_node hcell', Shape.object.injEq] at hentries
  obtain ⟨rfl, rfl⟩ := hentries
  obtain ⟨kept, hI, hstore⟩ := Runs.foldlM_induct (fun done state u =>
    ∃ kept, I t.store C shapes done state kept ∧ u.store = t.store.set id (.object kept))
    hloop ⟨V, hinit _ _ _, (Store.set_self hcell').symm⟩ fun done e rest c u c' u' hdone hI hrun => by
      obtain ⟨kept, hI, hstore⟩ := hI
      have hmem : e ∈ V := hdone ▸ by simp
      obtain ⟨n, hn⟩ := hV.exists_text e.1 (List.mem_map_of_mem hmem)
      obtain ⟨name, schema⟩ := e
      obtain rfl : name = .text n := hn
      obtain ⟨kept', hfolds, hstore'⟩ := folds_of_runs htable hid
        ((hapart schema (List.mem_map_of_mem hmem)).grow hadds.toGrows) hstore hrun
      exact ⟨kept', hstep _ _ _ done n schema rest c kept c' kept' hC hsound hdone hI hfolds, hstore'⟩
  obtain ⟨heq, rfl⟩ := runs_pure.mp hanswer
  refine ⟨C, t, shapes, state, kept, hload, hshapes, hI, congrArg Prod.fst heq, congrArg Prod.snd heq, ?_⟩
  rw [store_eq_of_forIn_report hreport]
  simp only [SchemaTable.merge, Edit.runs_bind, Prod.exists, runs_objectOf, runs_modify] at hmerge
  obtain ⟨id', entries, _, ⟨hshape, rfl⟩, rfl⟩ := hmerge
  have hcell'' : t₁.store.cells[id]? = some (.object kept) := by
    rw [hstore, Store.cells_set, if_pos ⟨rfl, hid⟩]
  rw [htable, Store.shape_node hcell'', Shape.object.injEq] at hshape
  obtain ⟨rfl, rfl⟩ := hshape
  rw [hstore, Store.set_set]

/-- What a run of the folding leaves behind. The catalogue has been added to the store, the schemas
that were not removed are still the nodes that they were, and the catalogue is put over them. -/
theorem folded_of_foldSchemas :
    ∃ C t state kept, Runs (loadCatalogue (.object E)) s C t ∧
      Folded t.store V C V state kept ∧ state.replacements = replacements ∧
      s'.store = t.store.set id (.object (kept.putAll C)) := by
  obtain ⟨C, t, shapes, state, kept, hload, -, hfolded, hreplacements, -, hstore⟩ :=
    hrun.foldSchemas_induct htable hcell hV hE hapart
      (fun st C shapes done state kept => Folded st V C done state kept) (fun _ _ _ => .init hV)
      fun st C shapes done n schema rest state kept state' kept' hC hsound hdone hI hfolds =>
        hI.step hV hC hsound ⟨rest, hdone⟩ hfolds
  exact ⟨C, t, state, kept, hload, hfolded, hreplacements, hstore⟩

end

/-- Folding leaves all older nodes but the table as they are. -/
theorem cells_foldSchemas {catalogue : Tree} {answer : Replacements × List DuplicateShape} {i : Nat}
    (hrun : Runs (foldSchemas table catalogue merge) s answer s') (htable : table.schemas = .node id)
    (hi : i < s.store.cells.size) (hne : i ≠ id) : s'.store.cells[i]? = s.store.cells[i]? := by
  obtain ⟨E, rfl⟩ : ∃ E, catalogue = .object E := by
    obtain ⟨_, _, hload, -⟩ := runs_bind.mp hrun
    cases catalogue <;> simp [loadCatalogue] at hload ⊢
  simp only [foldSchemas, runs_bind, SchemaTable.entries, runs_monadLift, runs_entriesOf] at hrun
  obtain ⟨C, _, hload, shapes, t, hshapes, V, _, ⟨_, ⟨-, rfl⟩, rfl⟩, state, t₁, hloop,
    _, t₂, ⟨store, hmerge, rfl⟩, _, t₃, hreport, hanswer⟩ := hrun
  obtain ⟨rfl, -⟩ := catalogueShapes_sound hshapes
  have hset : ∀ {store : Store} {v : Nat} {before after : Entries Value},
      store.shape table.schemas = .object v before →
        (store.set v (.object after)).cells[i]? = store.cells[i]? := by
    intro store v before after hshape
    obtain ⟨heq, -⟩ := Store.shape_eq_object.mp hshape
    obtain rfl : id = v := by simpa [htable] using heq
    rw [Store.cells_set, if_neg fun h => hne h.1]
  have hloop' : t₁.store.cells[i]? = t.store.cells[i]? := by
    refine Runs.foldlM_induct (fun _ _ u => u.store.cells[i]? = t.store.cells[i]?) hloop rfl ?_
    rintro done e rest state u state' u' - hsame hstep
    have hinto : ∀ {start : FoldState} {target : Scalar},
        Runs (foldInto table start e.1 target) u state' u' → u'.store.cells[i]? = t.store.cells[i]? := by
      intro start target hrun
      obtain ⟨⟨v, entries, hshape, hstore⟩, -⟩ := runs_foldInto hrun
      rw [hstore, hset hshape, hsame]
    rcases foldSchema_cases hstep with ⟨-, -, rfl⟩ | ⟨-, -, key, -, ⟨target, -, hrun⟩ |
      ⟨-, ⟨-, -, hrun⟩ | ⟨-, -, rfl⟩⟩⟩
    · exact hsame
    · exact hinto hrun
    · exact hinto hrun
    · exact hsame
  obtain ⟨-, rfl⟩ := runs_pure.mp hanswer
  rw [store_eq_of_forIn_report hreport]
  simp only [SchemaTable.merge, Edit.runs_bind, Prod.exists, runs_objectOf, runs_modify] at hmerge
  obtain ⟨v, entries, _, ⟨hshape, rfl⟩, rfl⟩ := hmerge
  rw [hset hshape, hloop', (adds_loadCatalogue hload).2.agree i hi]

/-! ## What is not lost -/

/-- The table `T'` with the replacements has all that the table `T` and the catalogue `E` have. -/
structure LosesNothing (T E T' : Entries Tree) (replacements : Replacements) : Prop where
  /-- A name still leads to a name of the table, and to a schema of the same shape. -/
  followed : ∀ n t, T.get? (.text n) = some t → E.has (.text n) = false →
    ∃ m t', replacements.follow (.text (pointerTo n)) = .text (pointerTo m) ∧
      T'.get? (.text m) = some t' ∧
      (t.isReference = false → ∃ key, t.shapeKey = .ok key ∧ t'.shapeKey = .ok key)
  /-- What is not replaced stays as it is. -/
  kept : ∀ n t, T.get? (.text n) = some t → E.has (.text n) = false →
    replacements.has (.text (pointerTo n)) = false → T'.get? (.text n) = some t
  /-- The names are those that were not removed and those of the catalogue. -/
  names : ∀ n, T'.has (.text n) = true ↔
    (T.has (.text n) = true ∧ replacements.has (.text (pointerTo n)) = false) ∨
      E.has (.text n) = true
  /-- The pointers that are replaced are those to the names that were removed. -/
  replaced : ∀ p, replacements.has (.text p) = true ↔
    ∃ n, p = pointerTo n ∧ T.has (.text n) = true ∧ T'.has (.text n) = false
  /-- A replacement is not replaced itself. -/
  final : ∀ p q, replacements.get? (.text p) = some q → replacements.has (.text q) = false
  /-- One step is enough to follow a pointer. -/
  follow_eq : ∀ p, replacements.follow (.text p) =
    .text ((replacements.get? (.text p)).getD p)
  /-- A pointer that has been followed is at its end. -/
  follow_follow : ∀ p, replacements.follow (replacements.follow (.text p)) =
    replacements.follow (.text p)

/-- A name that is replaced was in the table, and its target is in the new table but is not
replaced. -/
theorem Folded.exists_target (h : Folded st V C V state kept) {p q : String}
    (hq : state.replacements.get? (.text p) = some q) :
    ∃ n m, p = pointerTo n ∧ q = pointerTo m ∧ V.has (.text n) = true ∧
      C.has (.text n) = false ∧ state.replacements.has (.text q) = false := by
  have hmem : .text p ∈ state.replacements.keys :=
    Entries.has_text.mp (by simp [Entries.has, hq])
  obtain ⟨n, heq⟩ := h.exists_pointer _ hmem
  obtain rfl : p = pointerTo n := by simpa using heq
  obtain ⟨-, hC, v, key, m, hv, -, -, rfl, htarget⟩ := h.replaced n q hq
  refine ⟨n, m, rfl, rfl, by simp [Entries.has, hv], hC, ?_⟩
  rcases htarget with ⟨w, hw, -⟩ | hstays
  · cases hm : state.replacements.get? (.text (pointerTo m)) with
    | none => simp [Entries.has, hm]
    | some q' =>
      have hnot := (h.replaced m q' hm).2.1
      simp [Entries.has, hw] at hnot
  · exact hstays.not_replaced

/-- A pointer is replaced once at most. -/
theorem Folded.follow_eq (h : Folded st V C V state kept) (p : String) :
    state.replacements.follow (.text p) =
      .text ((state.replacements.get? (.text p)).getD p) := by
  cases hq : state.replacements.get? (.text p) with
  | none => rw [Replacements.follow_of_none hq, Option.getD_none]
  | some q =>
    obtain ⟨n, m, -, -, -, -, hfinal⟩ := h.exists_target hq
    rw [Replacements.follow_of_some hq (Entries.has_eq_false.mp hfinal), Option.getD_some]

/-- The schema that a name has in the end: that of the catalogue, or else the one that it had. -/
theorem Folded.get?_putAll (h : Folded st V C V state kept) (hC : C.TextKeyed) (n : String) :
    (kept.putAll C).get? (.text n) = (C.get? (.text n)).or
      (if state.replacements.has (.text (pointerTo n)) then none else V.get? (.text n)) := by
  rw [Entries.get?_putAll hC, h.get?_kept]

/-- What a name that is replaced leads to: a schema of the shape that it had, which is one of the catalogue or one of
the table that is no reference. -/
theorem Folded.exists_target_shape (h : Folded st V C V state kept) (hC : C.TextKeyed) {q : String}
    (hv : V.get? (.text n) = some v) (hq : state.replacements.get? (.text (pointerTo n)) = some q) :
    ∃ key m w, st.isReference v = false ∧ st.shapeKey v = .ok key ∧ q = pointerTo m ∧
      (kept.putAll C).get? (.text m) = some w ∧ st.shapeKey w = .ok key ∧
      (C.get? (.text m) = some w ∨ V.get? (.text m) = some w ∧ st.isReference w = false) := by
  obtain ⟨-, -, v', key, m, hv', hreference, hkey, rfl, htarget⟩ := h.replaced n q hq
  obtain rfl : v = v' := by simpa [hv] using hv'
  rcases htarget with ⟨w, hw, hwkey⟩ | ⟨-, hnotC, hnotR, w, hw, hwreference, hwkey⟩
  · refine ⟨key, m, w, hreference, hkey, rfl, ?_, hwkey, .inl hw⟩
    rw [h.get?_putAll hC, hw, Option.some_or]
  · refine ⟨key, m, w, hreference, hkey, rfl, ?_, hwkey, .inr ⟨hw, hwreference⟩⟩
    rw [h.get?_putAll hC, Entries.has_eq_false.mp hnotC, hnotR, hw]
    rfl

/-- The schemas that are in the table in the end were in it before or are those of the catalogue. -/
theorem Folded.mem_values_putAll (h : Folded st V C V state kept) (hC : C.TextKeyed)
    (hw : w ∈ (kept.putAll C).values) : w ∈ V.values ∨ w ∈ C.values := by
  obtain ⟨n, hget⟩ := (h.textKeyed.putAll hC.exists_text).exists_of_mem_values hw
  rw [h.get?_putAll hC, Option.or_eq_some_iff] at hget
  rcases hget with hcatalogue | ⟨-, htable⟩
  · exact .inr (Entries.mem_values_of_get? hcatalogue)
  · split at htable
    · simp at htable
    · exact .inl (Entries.mem_values_of_get? htable)

/-- **Folding loses nothing.** Let the table hold a tree `T` whose keys are texts. If folding it
with a catalogue succeeds, then the table holds a tree in which every name of `T` that is not one of
the catalogue leads to a schema of the shape that it had. -/
theorem foldSchemas_loses_nothing {T E : List (Scalar × Tree)} {duplicates : List DuplicateShape}
    (hrun : Runs (foldSchemas table (.object E) merge) s (replacements, duplicates) s')
    (htable : s.store.Holds table.schemas (.object T)) (hT : Entries.TextKeyed T)
    (hE : Entries.TextKeyed E) :
    ∃ T', s'.store.Holds table.schemas (.object T') ∧ Entries.TextKeyed T' ∧
      LosesNothing T E T' replacements := by
  obtain ⟨id, V, hid, hcell, hheld⟩ := Store.holds_object.mp htable
  have hkeys : V.keys = Entries.keys T := Store.keys_eq_of_holds hheld
  have hV : V.TextKeyed := ⟨hkeys ▸ hT.exists_text, hkeys ▸ hT.nodup⟩
  rw [hid] at htable
  have hapart : ∀ v ∈ V.values, s.store.Apart id v := fun v hv =>
    (htable.of_part hcell hv).elim fun _ h => h.1.apart (htable.not_reaches_of_part hcell hv)
  obtain ⟨C, t, state, kept, hload, hfolded, rfl, hstore⟩ :=
    folded_of_foldSchemas hrun hid hcell hV hE hapart
  obtain ⟨hkeysC, hadds⟩ := adds_loadCatalogue hload
  set st := t.store
  have hlt : id < s.store.cells.size := Store.lt_size_of_cell hcell
  have hC : C.TextKeyed := ⟨hkeysC ▸ hE.exists_text, hkeysC ▸ hE.nodup⟩
  have hhasC : ∀ n, C.has (.text n) = Entries.has E (.text n) := fun n =>
    Entries.has_eq_of_keys_eq hkeysC
  have hhasV : ∀ n, V.has (.text n) = Entries.has T (.text n) := fun n =>
    Entries.has_eq_of_keys_eq hkeys
  have hapartW : ∀ w ∈ (kept.putAll C).values, st.Apart id w ∧ ∃ u, st.Holds w u := by
    intro w hw
    rcases hfolded.mem_values_putAll hC hw with hmem | hmem
    · obtain ⟨u, hu, -⟩ := htable.of_part hcell hmem
      exact ⟨(hapart w hmem).grow hadds.toGrows, u, hu.extend hadds.toGrows⟩
    · exact ⟨hadds.apart hlt hmem, hadds.exists_holds w hmem⟩
  -- The table holds a tree again.
  have hcell' : s'.store.cells[id]? = some (.object (kept.putAll C)) := by
    rw [hstore, Store.cells_set, if_pos ⟨rfl, hlt.trans_le hadds.size_le⟩]
  obtain ⟨t, ht⟩ := Store.exists_holds_of_parts hcell' fun w hw => by
    obtain ⟨hw, u, hu⟩ := hapartW w hw
    exact ⟨u, hstore ▸ hu.set hw.not_reaches⟩
  obtain ⟨T', rfl, hheld'⟩ := ht.object_of_shape (Store.shape_node hcell')
  have hkeys' : (kept.putAll C).keys = Entries.keys T' := Store.keys_eq_of_holds hheld'
  have hhas' : ∀ n, Entries.has T' (.text n) =
      ((Entries.has T (.text n) && !state.replacements.has (.text (pointerTo n))) ||
        Entries.has E (.text n)) := by
    intro n
    rw [← Entries.has_eq_of_keys_eq hkeys', ← hhasC, ← hhasV, Entries.has, hfolded.get?_putAll hC]
    cases state.replacements.has (.text (pointerTo n)) <;> simp [Entries.has, Bool.or_comm]
  have hst : ∀ n t, Entries.get? (.text n) T = some t →
      ∃ v, V.get? (.text n) = some v ∧ st.Holds v t := by
    intro n t hn
    rcases Store.get?_of_holds (.text n) hheld with ⟨-, hnone⟩ | ⟨v, _, hv, hn', hvt⟩
    · simp [hn] at hnone
    · obtain rfl : t = _ := by simpa [hn] using hn'
      exact ⟨v, hv, hvt.extend hadds.toGrows⟩
  have hkept : ∀ n t, Entries.get? (.text n) T = some t → Entries.has E (.text n) = false →
      state.replacements.has (.text (pointerTo n)) = false →
      Entries.get? (.text n) T' = some t := by
    intro n t hn hE' hR
    obtain ⟨v, hv, hvt⟩ := hst n t hn
    have hw : (kept.putAll C).get? (.text n) = some v := by
      rw [hfolded.get?_putAll hC, Entries.has_eq_false.mp ((hhasC n).trans hE'), hR, hv]
      rfl
    rcases Store.get?_of_holds (.text n) hheld' with ⟨hnone, -⟩ | ⟨_, t', hw', ht', hheld⟩
    · simp [hw] at hnone
    · obtain rfl : v = _ := by simpa [hw] using hw'
      have hmem : v ∈ (kept.putAll C).values := Entries.mem_values_of_get? hw
      have hfinal : s'.store.Holds v t := hstore ▸ hvt.set (hapartW v hmem).1.not_reaches
      rw [ht', hheld.unique hfinal]
  have hshape : ∀ m w key, (kept.putAll C).get? (.text m) = some w → st.shapeKey w = .ok key →
      ∃ t', Entries.get? (.text m) T' = some t' ∧ t'.shapeKey = .ok key := by
    intro m w key hw hkey
    have hmem : w ∈ (kept.putAll C).values := Entries.mem_values_of_get? hw
    rcases Store.get?_of_holds (.text m) hheld' with ⟨hnone, -⟩ | ⟨_, t', hw', ht', hheld⟩
    · simp [hw] at hnone
    · obtain rfl : w = _ := by simpa [hw] using hw'
      refine ⟨t', ht', ?_⟩
      rw [← hheld.shapeKey_eq, hstore, (hapartW w hmem).1.shapeKey_set, hkey]
  have hfinal : ∀ p q, state.replacements.get? (.text p) = some q →
      state.replacements.has (.text q) = false := by
    intro p q hq
    obtain ⟨n, m, -, -, -, -, hnot⟩ := hfolded.exists_target hq
    exact hnot
  refine ⟨T', hid ▸ ht, ⟨hkeys' ▸ (hfolded.textKeyed.putAll hC.exists_text).exists_text,
    hkeys' ▸ (hfolded.textKeyed.putAll hC.exists_text).nodup⟩, ?_⟩
  exact {
    followed := by
      intro n t hn hE'
      obtain ⟨v, hv, hvt⟩ := hst n t hn
      cases hq : state.replacements.get? (.text (pointerTo n)) with
      | none =>
        refine ⟨n, t, by simp [hfolded.follow_eq, hq], hkept n t hn hE' (by simp [Entries.has, hq]),
          fun hreference => ?_⟩
        obtain ⟨key, hkey⟩ := hfolded.keyed (.text n, v) (Entries.mem_of_get? hv)
          ((hhasC n).trans hE') (hvt.isReference_eq.trans hreference)
        exact ⟨key, hvt.shapeKey_eq ▸ hkey, hvt.shapeKey_eq ▸ hkey⟩
      | some q =>
        obtain ⟨key, m, w, -, hkey, rfl, hw, hwkey, -⟩ := hfolded.exists_target_shape hC hv hq
        obtain ⟨t', ht', htkey⟩ := hshape m w key hw hwkey
        exact ⟨m, t', by simp [hfolded.follow_eq, hq], ht', fun _ =>
          ⟨key, hvt.shapeKey_eq ▸ hkey, htkey⟩⟩
    kept := hkept
    names := by
      intro n
      simp [hhas']
    replaced := by
      intro p
      constructor
      · intro hp
        obtain ⟨q, hq⟩ := Option.isSome_iff_exists.mp hp
        obtain ⟨n, m, rfl, rfl, hVn, hCn, -⟩ := hfolded.exists_target hq
        exact ⟨n, rfl, hhasV n ▸ hVn, by rw [hhas', hp, ← hhasC, hCn]; simp⟩
      · rintro ⟨n, rfl, hTn, hTn'⟩
        simp only [hhas', hTn, Bool.true_and, Bool.or_eq_false_iff, Bool.not_eq_false'] at hTn'
        exact hTn'.1
    final := hfinal
    follow_eq := hfolded.follow_eq
    follow_follow := by
      intro p
      rw [hfolded.follow_eq p]
      cases hq : state.replacements.get? (.text p) with
      | none => rw [Option.getD_none, Replacements.follow_of_none hq]
      | some q =>
        rw [Option.getD_some]
        exact Replacements.follow_of_none (Entries.has_eq_false.mp (hfinal p q hq)) }

/-- Two schemas of one shape, a reference to the second, and one with the shape of an integer. -/
def sharedShapes : List (String × Tree) :=
  [("Name", .ofFields [("type", .text "string")]),
   ("Label", .ofFields [("type", .text "string"), ("description", .text "shown")]),
   ("Alias", .ofFields [("$ref", .text (pointerTo "Label"))]),
   ("Count", .ofFields [("type", .text "integer"), ("format", .text "int32")])]

theorem foldSchemas_loses_nothing_sharedShapes :
    let T : Entries Tree := sharedShapes.map fun field => (.text field.1, field.2)
    let E : Entries Tree := [("Number", .ofFields [("type", .text "integer")])]
    let start := Store.empty.load (.object T)
    let replacements : Replacements := [(.text (pointerTo "Label"), pointerTo "Name"),
      (.text (pointerTo "Count"), pointerTo "Number")]
    ∃ duplicates s' T', Runs (foldSchemas ⟨start.1⟩ (.object E) true) { store := start.2 }
        (replacements, duplicates) s' ∧
      s'.store.Holds start.1 (.object T') ∧ LosesNothing T E T' replacements := by
  intro T E start replacements
  have hjson : (Tree.ofFields sharedShapes).IsJson := by decide +kernel
  have hT : start.2.Holds start.1 (.object T) := Store.holds_load hjson Store.empty
  have hanswer : ((foldSchemas ⟨start.1⟩ (.object E) true).runOn { store := start.2 }).1.toOption.map
      Prod.fst = some replacements := by decide +kernel
  obtain ⟨⟨R, duplicates⟩, s', hrun, rfl : R = replacements⟩ := exists_runs hanswer
  obtain ⟨T', hT', -, hloses⟩ := foldSchemas_loses_nothing hrun hT hjson.1 ⟨by simp [E], by decide⟩
  exact ⟨duplicates, s', T', hrun, hT', hloses⟩

end Procedure

end DeviceApi
