import DeviceApi.Proofs.Schema.Folding

/-!
# Shapes that occur more than once

Folding counts each shape that is not one of the catalogue, in the order in which the shapes come. The
schemas that are kept have the same shapes in the same order; if repeated shapes are folded as well,
each of them is kept once. So a table that has been folded has nothing left to be folded.
-/

namespace DeviceApi

namespace ShapeCounts

/-- The counts of some keys. -/
def tally (keys : List String) : ShapeCounts :=
  keys.foldl (fun counts key => counts.put key ((counts.get? key).getD 0 + 1)) []

@[simp] theorem tally_nil : tally [] = [] := rfl

theorem tally_append_singleton (keys : List String) (key : String) :
    tally (keys ++ [key]) = (tally keys).put key (((tally keys).get? key).getD 0 + 1) := by
  simp [tally, List.foldl_append]

/-- Keys that do not repeat are counted once. -/
theorem tally_of_nodup {keys : List String} (h : keys.Nodup) :
    tally keys = keys.map fun key => (.text key, 1) := by
  induction keys using List.reverseRecOn with
  | nil => rfl
  | append_singleton keys key ih =>
    rw [List.nodup_append] at h
    have hnew : Scalar.text key ∉ (tally keys).keys := by
      rw [ih h.1]
      simp only [Entries.keys, List.map_map, List.mem_map, Function.comp_apply, Scalar.text.injEq,
        exists_eq_right]
      exact fun hmem => h.2.2 key hmem key (by simp) rfl
    rw [tally_append_singleton, Entries.get?_eq_none.mpr hnew, Entries.put_of_notMem hnew, ih h.1]
    simp

/-- Shapes that occur once are no duplicates. -/
theorem duplicates_tally_of_nodup {keys : List String} (h : keys.Nodup) : (tally keys).duplicates = [] := by
  have hnone : (tally keys).filterMap (fun e =>
      if 1 < e.2 then some ({ key := e.1.display, count := e.2 } : DuplicateShape) else none) = [] := by
    rw [tally_of_nodup h, List.filterMap_map, List.filterMap_eq_nil_iff]
    intro key _
    simp
  rw [duplicates]
  simp only [hnone, List.mergeSort_nil]

end ShapeCounts

namespace Procedure

open Edit

variable {s s' : Session} {table : SchemaTable} {st : Store} {V C W done kept stays : Entries Value}
  {shapes : Entries Scalar} {merge : Bool} {state state' : FoldState} {n : String} {schema : Value}
  {key : String} {e : Scalar × Value}

/-- The shape that is counted for an entry of the table: that of a schema which is neither a reference
nor of the catalogue, and has none of the shapes of the catalogue. -/
def countedShape (st : Store) (C : Entries Value) (shapes : Entries Scalar) (e : Scalar × Value) :
    Option String :=
  if C.has e.1 || st.isReference e.2 then none
  else
    match st.shapeKey e.2 with
    | .ok key => if shapes.has key then none else some key
    | .error _ => none

theorem countedShape_of_skip (h : C.has e.1 = true ∨ st.isReference e.2 = true) :
    countedShape st C shapes e = none := by
  rw [countedShape, if_pos (by simpa using h)]

theorem countedShape_of_key (hC : C.has e.1 = false) (hreference : st.isReference e.2 = false)
    (hkey : st.shapeKey e.2 = .ok key) :
    countedShape st C shapes e = if shapes.has key then none else some key := by
  simp [countedShape, hC, hreference, hkey]

/-- The entry is not folded into the catalogue: it is of the catalogue, or a reference, or it has a shape
that is none of the catalogue. -/
def Remains (st : Store) (C : Entries Value) (shapes : Entries Scalar) (e : Scalar × Value) : Prop :=
  (C.has e.1 = true ∨ st.isReference e.2 = true) ∨ C.has e.1 = false ∧ st.isReference e.2 = false ∧
    ∃ key, st.shapeKey e.2 = .ok key ∧ shapes.get? (.text key) = none

/-- What is known about counts once the schemas `done` have been gone through, of which `stays` are
kept. -/
structure Tallied (st : Store) (C : Entries Value) (shapes : Entries Scalar) (merge : Bool)
    (done stays : Entries Value) (state : FoldState) : Prop where
  counts : state.counts = .tally (done.filterMap (countedShape st C shapes))
  seen : ∀ key name, state.firstSeen.get? (.text key) = some name → name ∈ done.keys
  seen_of_counted : ∀ key ∈ stays.filterMap (countedShape st C shapes), state.firstSeen.has (.text key) = true
  remains : ∀ e ∈ stays, Remains st C shapes e
  unmerged : merge = false →
    stays.filterMap (countedShape st C shapes) = done.filterMap (countedShape st C shapes)
  merged : merge = true → (stays.filterMap (countedShape st C shapes)).Nodup

namespace Tallied

theorem init : Tallied st C shapes merge [] [] {} where
  counts := rfl
  seen := by simp
  seen_of_counted := by simp
  remains := by simp
  unmerged _ := rfl
  merged _ := by simp

/-- One step of the loop keeps the counts. Nothing has been removed from the schemas `rest` yet. -/
theorem step {rest : Entries Value} (h : Tallied st C shapes merge done stays state)
    (hkept : kept = stays ++ (.text n, schema) :: rest) (hnodup : kept.keys.Nodup)
    (hdone : Scalar.text n ∉ done.keys) {kept' : Entries Value}
    (hfolds : Folds st C shapes merge (.text n) schema state kept state' kept') :
    ∃ stays', Tallied st C shapes merge (done ++ [(.text n, schema)]) stays' state' ∧
      kept' = stays' ++ rest := by
  have hremove : kept.remove (.text n) = stays ++ rest := by
    rw [hkept, Entries.keys_append, Entries.keys_cons, List.nodup_append] at hnodup
    have hstays : Scalar.text n ∉ stays.keys := fun hmem => hnodup.2.2 _ hmem _ List.mem_cons_self rfl
    rw [hkept]
    exact Entries.remove_append_cons hstays
  have hmem : ∀ {name : Scalar}, name ∈ done.keys →
      name ∈ Entries.keys (done ++ [(.text n, schema)]) := by
    intro name hname
    rw [Entries.keys_append]
    exact List.mem_append_left _ hname
  -- A shape is met again, or for the first time.
  have hseen : ∀ key key' name, (state.meet key (.text n)).firstSeen.get? (.text key') = some name →
      name ∈ Entries.keys (done ++ [(.text n, schema)]) := by
    intro key key' name hname
    simp only [FoldState.meet, Entries.get?_put] at hname
    split at hname
    · obtain rfl := Option.some.inj hname
      cases hfirst : state.firstSeen.get? (.text key) with
      | none => simp
      | some first => exact hmem (h.seen key first hfirst)
    · exact hmem (h.seen key' name hname)
  have hcounted : ∀ key key', state.firstSeen.has (.text key') = true →
      (state.meet key (.text n)).firstSeen.has (.text key') = true := by
    intro key key' hkey'
    simp [FoldState.meet, Entries.has_put, hkey']
  cases hfolds with
  | skip hskip =>
    have hnone : countedShape st C shapes (.text n, schema) = none := countedShape_of_skip hskip
    refine ⟨stays ++ [(.text n, schema)], ⟨?_, fun key name hname => hmem (h.seen key name hname), ?_, ?_,
      ?_, ?_⟩, by simp [hkept]⟩
    · simp [h.counts, hnone]
    · simpa [hnone] using h.seen_of_counted
    · intro e he
      rcases List.mem_append.mp he with hold | hnew
      · exact h.remains e hold
      · exact List.mem_singleton.mp hnew ▸ .inl hskip
    · simpa [hnone] using h.unmerged
    · simpa [hnone] using h.merged
  | @replace key target hC hreference hkey htarget =>
    have hnone : countedShape st C shapes (.text n, schema) = none := by
      rw [countedShape_of_key hC hreference hkey, Entries.has, htarget]
      rfl
    refine ⟨stays, ⟨?_, fun key name hname => hmem (h.seen key name hname), h.seen_of_counted, h.remains,
      ?_, h.merged⟩, hremove⟩
    · simp [h.counts, hnone]
    · simpa [hnone] using h.unmerged
  | @merge key first hC hreference hkey hnew hmerge hfirst =>
    have hsome : countedShape st C shapes (.text n, schema) = some key := by
      rw [countedShape_of_key hC hreference hkey, Entries.has, hnew]
      rfl
    refine ⟨stays, ⟨?_, hseen key, fun key' hkey' => hcounted key key' (h.seen_of_counted key' hkey'),
      h.remains, fun hfalse => ?_, h.merged⟩, hremove⟩
    · simp [hsome, FoldState.meet, ← h.counts, ShapeCounts.tally_append_singleton]
    · simp [hmerge] at hfalse
  | @meet key hC hreference hkey hnew hfirst =>
    have hsome : countedShape st C shapes (.text n, schema) = some key := by
      rw [countedShape_of_key hC hreference hkey, Entries.has, hnew]
      rfl
    refine ⟨stays ++ [(.text n, schema)], ⟨?_, hseen key, ?_, ?_, ?_, ?_⟩, by simp [hkept]⟩
    · simp [hsome, FoldState.meet, ← h.counts, ShapeCounts.tally_append_singleton]
    · intro key' hkey'
      rw [List.filterMap_append, List.mem_append] at hkey'
      rcases hkey' with hold | hnow
      · exact hcounted key key' (h.seen_of_counted key' hold)
      · obtain rfl : key' = key := by simpa [hsome] using hnow
        simp [FoldState.meet, Entries.has_put]
    · intro e he
      rcases List.mem_append.mp he with hold | hnow
      · exact h.remains e hold
      · exact List.mem_singleton.mp hnow ▸ .inr ⟨hC, hreference, key, hkey, hnew⟩
    · intro hfalse
      simp [h.unmerged hfalse, hsome]
    · intro hmerge
      -- The schema is the first of its shape, so the shape has not been counted.
      have hunseen : state.firstSeen.get? (.text key) = none := by
        cases hseen : state.firstSeen.get? (.text key) with
        | none => rfl
        | some first =>
          have hsame : first.same (.text n) = true := by simpa [hmerge, hseen] using hfirst
          exact absurd (Scalar.eq_text_of_same hsame ▸ h.seen key first hseen) hdone
      rw [List.filterMap_append, List.nodup_append]
      refine ⟨h.merged hmerge, by simp [hsome], fun key' hold key'' hnow => ?_⟩
      obtain rfl : key'' = key := by simpa [hsome] using hnow
      rintro rfl
      have := h.seen_of_counted key' hold
      simp [Entries.has, hunseen] at this

end Tallied

/-- What a run of the folding leaves behind, with what has been counted. -/
theorem tallied_of_foldSchemas {E : List (Scalar × Tree)} {replacements : Replacements}
    {duplicates : List DuplicateShape} {id : Nat}
    (hrun : Runs (foldSchemas table (.object E) merge) s (replacements, duplicates) s')
    (htable : table.schemas = .node id) (hcell : s.store.cells[id]? = some (.object V))
    (hV : V.TextKeyed) (hE : Entries.TextKeyed E) (hapart : ∀ v ∈ V.values, s.store.Apart id v) :
    ∃ C t shapes state kept, Runs (loadCatalogue (.object E)) s C t ∧
      Runs (catalogueShapes C) t shapes t ∧ Folded t.store V C V state kept ∧
      Tallied t.store C shapes merge V kept state ∧ state.replacements = replacements ∧
      state.counts.duplicates = duplicates ∧ s'.store = t.store.set id (.object (kept.putAll C)) := by
  obtain ⟨C, t, shapes, state, kept, hload, hshapes, ⟨hfolded, rest, stays, hrest, hkept, htallied⟩,
      hreplacements, hduplicates, hstore⟩ :=
    hrun.foldSchemas_induct htable hcell hV hE hapart
      (fun st C shapes done state kept => Folded st V C done state kept ∧ ∃ rest stays, done ++ rest = V ∧
        kept = stays ++ rest ∧ Tallied st C shapes merge done stays state)
      (fun _ _ _ => ⟨.init hV, V, [], by simp, by simp, .init⟩) (by
        rintro st C shapes done n schema rest state kept state' kept' hC hsound hdone
          ⟨hfolded, rest', stays, hrest, hkept, htallied⟩ hfolds
        obtain rfl : rest' = (.text n, schema) :: rest := List.append_cancel_left (hrest.trans hdone.symm)
        have hn : Scalar.text n ∉ done.keys := by
          have hnodup := hV.nodup
          rw [← hdone, Entries.keys_append, List.nodup_append] at hnodup
          exact fun hin => hnodup.2.2 _ hin _ (by simp) rfl
        obtain ⟨stays', htallied', hkept'⟩ := htallied.step hkept hfolded.textKeyed.nodup hn hfolds
        exact ⟨hfolded.step hV hC hsound ⟨rest, hdone⟩ hfolds, rest, stays', by simpa using hdone, hkept',
          htallied'⟩)
  obtain rfl : rest = [] := by simpa using hrest
  rw [List.append_nil] at hkept
  exact ⟨C, t, shapes, state, kept, hload, hshapes, hfolded, hkept ▸ htallied, hreplacements,
    hduplicates, hstore⟩

/-! ## Folding once more -/

theorem runs_foldSchema_of_skip {name : Scalar}
    (h : C.has name = true ∨ s.store.isReference schema = true) :
    Runs (foldSchema table C shapes merge state name schema) s state s := by
  refine runs_bind.mpr ⟨s.store.isReference schema, s, runs_monadLift.mpr ⟨_, runs_isReference.mpr ⟨rfl, rfl⟩, rfl⟩, ?_⟩
  rw [if_pos (by simpa using h)]
  exact runs_pure.mpr ⟨rfl, rfl⟩

/-- A schema whose shape is met for the first time, or whose duplicates are left alone, is counted. -/
theorem runs_foldSchema_of_new {name : Scalar} (hC : C.has name = false)
    (hreference : s.store.isReference schema = false) (hkey : s.store.shapeKey schema = .ok key)
    (hnew : shapes.get? (.text key) = none)
    (hfirst : merge = false ∨ ((state.firstSeen.get? (.text key)).getD name).same name = true) :
    Runs (foldSchema table C shapes merge state name schema) s (state.meet key name) s := by
  refine runs_bind.mpr ⟨s.store.isReference schema, s, runs_monadLift.mpr ⟨_, runs_isReference.mpr ⟨rfl, rfl⟩, rfl⟩, ?_⟩
  rw [if_neg (by simp [hC, hreference])]
  refine runs_bind.mpr ⟨key, s, runs_monadLift.mpr ⟨_, runs_shapeKeyOf.mpr ⟨hkey, rfl⟩, rfl⟩, ?_⟩
  rw [hnew]
  dsimp only
  rw [if_neg (by rcases hfirst with h | h <;> simp [h])]
  exact runs_pure.mpr ⟨rfl, rfl⟩

/-- What is known while a table is gone through of which nothing is folded. -/
structure Unfolded (st : Store) (C : Entries Value) (shapes : Entries Scalar) (merge : Bool)
    (done : Entries Value) (state : FoldState) : Prop where
  replacements : state.replacements = []
  counts : state.counts = .tally (done.filterMap (countedShape st C shapes))
  seen : ∀ key, state.firstSeen.has (.text key) = true → key ∈ done.filterMap (countedShape st C shapes)

theorem Unfolded.init : Unfolded st C shapes merge [] {} where
  replacements := rfl
  counts := rfl
  seen := by simp [Entries.has]

/-- Nothing is folded in a table whose schemas remain, if shapes do not repeat or are to be left alone. -/
theorem exists_runs_of_remains {rest : Entries Value} (hW : W.TextKeyed)
    (hremains : ∀ e ∈ W, Remains s.store C shapes e)
    (hmerge : merge = true → (W.filterMap (countedShape s.store C shapes)).Nodup)
    (hdone : done ++ rest = W) (h : Unfolded s.store C shapes merge done state) :
    ∃ state', Runs (rest.foldlM (fun state e => foldSchema table C shapes merge state e.1 e.2) state) s state' s ∧
      Unfolded s.store C shapes merge W state' := by
  induction rest generalizing done state with
  | nil =>
    obtain rfl : done = W := by simpa using hdone
    exact ⟨state, runs_pure.mpr ⟨rfl, rfl⟩, h⟩
  | cons e rest ih =>
    have hmem : e ∈ W := hdone ▸ by simp
    obtain ⟨name, schema⟩ := e
    obtain ⟨n, rfl⟩ := hW.exists_text name (List.mem_map_of_mem hmem)
    obtain ⟨state₁, hstep, hnext⟩ : ∃ state₁, Runs (foldSchema table C shapes merge state (.text n) schema) s
        state₁ s ∧ Unfolded s.store C shapes merge (done ++ [(.text n, schema)]) state₁ := by
      rcases hremains _ hmem with hskip | ⟨hC, hreference, key, hkey, hnew⟩
      · have hnone : countedShape s.store C shapes (.text n, schema) = none := countedShape_of_skip hskip
        exact ⟨state, runs_foldSchema_of_skip hskip, h.replacements, by simp [h.counts, hnone],
          by simpa [hnone] using h.seen⟩
      · have hsome : countedShape s.store C shapes (.text n, schema) = some key := by
          rw [countedShape_of_key hC hreference hkey, Entries.has, hnew]
          rfl
        refine ⟨_, runs_foldSchema_of_new hC hreference hkey hnew ?_, h.replacements, ?_, fun key' hkey' => ?_⟩
        · cases hflag : merge with
          | false => exact .inl rfl
          | true =>
            have hnodup := hmerge hflag
            rw [← hdone, List.filterMap_append, List.filterMap_cons_some hsome, List.nodup_append] at hnodup
            have hunseen : state.firstSeen.get? (.text key) = none := by
              rw [← Entries.has_eq_false, ← Bool.not_eq_true]
              exact fun hseen => hnodup.2.2 key (h.seen key hseen) key List.mem_cons_self rfl
            exact .inr (by simp [hunseen])
        · simp [hsome, FoldState.meet, ← h.counts, ShapeCounts.tally_append_singleton]
        · simp only [FoldState.meet, Entries.has_put, Bool.or_eq_true, decide_eq_true_eq] at hkey'
          rw [List.filterMap_append, List.mem_append]
          rcases hkey' with rfl | hold
          · exact .inr (by simp [hsome])
          · exact .inl (h.seen key' hold)
    obtain ⟨state', hrest, hlast⟩ := ih (by simpa using hdone) hnext
    exact ⟨state', by rw [List.foldlM_cons]; exact runs_bind.mpr ⟨state₁, s, hstep, hrest⟩, hlast⟩

/-- The shapes by which a catalogue is searched depend only on the trees that its schemas hold. -/
theorem runs_catalogueShapes_of_holds {C' : Entries Value} {trees : List (Scalar × Tree)} {t : Session}
    (h : List.Forall₂ s.store.HoldsEntry C trees) (h' : List.Forall₂ t.store.HoldsEntry C' trees)
    (hrun : Runs (catalogueShapes C) s shapes s') : Runs (catalogueShapes C') t shapes t := by
  unfold catalogueShapes at hrun ⊢
  generalize ([] : Entries Scalar) = start at hrun ⊢
  induction trees generalizing C C' s start with
  | nil =>
    obtain rfl := List.forall₂_nil_right_iff.mp h
    obtain rfl := List.forall₂_nil_right_iff.mp h'
    obtain ⟨rfl, rfl⟩ := runs_pure.mp hrun
    exact runs_pure.mpr ⟨rfl, rfl⟩
  | cons tree trees ih =>
    obtain ⟨⟨name, v⟩, rest, hv, hrest, rfl⟩ := List.forall₂_cons_right_iff.mp h
    obtain ⟨⟨name', v'⟩, rest', hv', hrest', rfl⟩ := List.forall₂_cons_right_iff.mp h'
    obtain rfl : name = name' := hv.1.trans hv'.1.symm
    rw [List.foldlM_cons] at hrun ⊢
    obtain ⟨next, s₁, hstep, hloop⟩ := runs_bind.mp hrun
    obtain ⟨key, s₂, hkey, hput⟩ := runs_bind.mp hstep
    obtain ⟨_, hread, rfl⟩ := runs_monadLift.mp hkey
    obtain ⟨hshape, rfl⟩ := runs_shapeKeyOf.mp hread
    have hnext : s₁ = s := by
      split at hput <;> exact (runs_pure.mp hput).2.symm
    subst hnext
    refine runs_bind.mpr ⟨next, t, runs_bind.mpr ⟨key, t, runs_monadLift.mpr ⟨_, runs_shapeKeyOf.mpr
      ⟨hv'.2.shapeKey_eq.trans (hv.2.shapeKey_eq.symm.trans hshape), rfl⟩, rfl⟩, ?_⟩, ih hrest hrest' _ hloop⟩
    split at hput
    · next hhas =>
      rw [if_pos hhas]
      exact runs_pure.mpr ⟨(runs_pure.mp hput).1, rfl⟩
    · next hhas =>
      rw [if_neg hhas]
      exact runs_pure.mpr ⟨(runs_pure.mp hput).1, rfl⟩

/-- Reports do not change the store. -/
theorem exists_runs_forIn_report {α : Type} (level : Log.Level) (message : α → String) (xs : List α)
    (s : Session) : ∃ s', Runs (forIn xs PUnit.unit fun x _ => do
      report level (message x); pure (ForInStep.yield PUnit.unit)) s PUnit.unit s' := by
  induction xs generalizing s with
  | nil => exact ⟨s, runs_pure.mpr ⟨rfl, rfl⟩⟩
  | cons x rest ih =>
    obtain ⟨s', hrun⟩ := ih { s with log := s.log ++ [{ level, stage := none, message := message x, timed := false }] }
    refine ⟨s', ?_⟩
    rw [List.forIn_cons]
    exact runs_bind.mpr ⟨_, _, runs_bind.mpr ⟨(), _, runs_report.mpr rfl, runs_pure.mpr ⟨rfl, rfl⟩⟩, hrun⟩

/-- Folding a table whose schemas remain replaces nothing, reports the shapes that repeat, and puts the
catalogue over the table. -/
theorem exists_runs_foldSchemas {E : List (Scalar × Tree)} {u : Session} {id : Nat}
    (htable : table.schemas = .node id) (hW : W.TextKeyed)
    (hload : Runs (loadCatalogue (.object E)) s C u) (hshapes : Runs (catalogueShapes C) u shapes u)
    (hcell : u.store.cells[id]? = some (.object W)) (hremains : ∀ e ∈ W, Remains u.store C shapes e)
    (hmerge : merge = true → (W.filterMap (countedShape u.store C shapes)).Nodup) :
    ∃ s', Runs (foldSchemas table (.object E) merge) s
        ([], (ShapeCounts.tally (W.filterMap (countedShape u.store C shapes))).duplicates) s' ∧
      s'.store = u.store.set id (.object (W.putAll C)) := by
  obtain ⟨state, hloop, hunfolded⟩ :=
    exists_runs_of_remains hW hremains hmerge (List.nil_append W) Unfolded.init
  have hmerged : Runs (liftM (table.merge C)) u ()
      { u with store := u.store.set id (.object (W.putAll C)) } := by
    refine runs_liftM.mpr ⟨_, Edit.runs_bind.mpr ⟨(id, W), u.store, ?_, runs_modify.mpr rfl⟩, rfl⟩
    exact runs_objectOf.mpr ⟨htable ▸ Store.shape_node hcell, rfl⟩
  obtain ⟨s', hreport⟩ := exists_runs_forIn_report .warning
    (fun duplicate => s!"Found {duplicate.count} schemas with the same shape: {duplicate.key}")
    state.counts.duplicates { u with store := u.store.set id (.object (W.putAll C)) }
  refine ⟨s', ?_, store_eq_of_forIn_report hreport⟩
  refine runs_bind.mpr ⟨C, u, hload, runs_bind.mpr ⟨shapes, u, hshapes, runs_bind.mpr ⟨W, u, ?_,
    runs_bind.mpr ⟨state, u, hloop, runs_bind.mpr ⟨(), _, hmerged, runs_bind.mpr ⟨PUnit.unit, s', hreport, ?_⟩⟩⟩⟩⟩⟩
  · exact runs_liftM.mpr ⟨u.store, runs_entriesOf.mpr ⟨⟨id, htable ▸ Store.shape_node hcell⟩, rfl⟩, rfl⟩
  · exact runs_pure.mpr ⟨by rw [hunfolded.replacements, hunfolded.counts], rfl⟩

end Procedure

end DeviceApi
