import DeviceApi.Normalization
import DeviceApi.Proofs.Document.Gates
import DeviceApi.Proofs.Schema.Envelope

/-!
# The table before folding

Removing the envelopes and bringing the schemas into canonical form changes the schemas of the table
and what lies below them. The gates of the document stay, and no cycle comes in.
-/

namespace DeviceApi

variable {root id : Nat} {gates : Set Gate} {s s' : Store} {K : Set Nat} {v : Value} {u : Unit}
  {table : SchemaTable}

namespace View

/-- Trimming what is free keeps the gates. -/
theorem Gated.trims {region : Nat → Prop} (h : View.Gated root gates ⟨s, K⟩)
    (hpassage : Passage root gates) (htrims : s.Trims s' region)
    (hregion : ∀ i, region i → View.Free root gates ⟨s, K⟩ (.node i)) :
    View.Gated root gates ⟨s', K⟩ := by
  have hstands : ∀ i key x, s'.Stands i key x → s.Stands i key x := by
    rintro i key x ⟨cell, hcell, hplace⟩
    rcases htrims.trimmed i with heq | ⟨before, after, hbefore, hafter, hmem⟩
    · exact ⟨cell, heq ▸ hcell, hplace⟩
    · obtain rfl : cell = .object after := by simpa [hafter] using hcell.symm
      obtain ⟨k, rfl, hentry⟩ := Cell.mem_places_object.mp hplace
      rcases hmem.mem _ hentry with hold | ⟨-, a, ha⟩
      · exact (Store.stands_object hbefore).mpr ⟨k, rfl, hold⟩
      · cases ha
  refine ⟨fun i hi => htrims.size_eq ▸ h.lt i hi, h.root_known, h.gate_known,
    fun i key x hi hx => h.known_of_stands i key x hi (hstands i key x hx),
    fun g hg i key hi hx => h.only g hg i key hi (hstands i key _ hx), fun g hg => ?_⟩
  obtain ⟨entries, hcell, hget⟩ := h.stands g hg
  refine ⟨entries, ?_, hget⟩
  rw [htrims.agree g.owner fun hin => (hregion _ hin).not_owner hpassage g hg rfl, hcell]

/-- Trimming brings in no cycle. -/
theorem Sound.trims {region : Nat → Prop} (h : View.Sound ⟨s, K⟩) (htrims : s.Trims s' region) :
    View.Sound ⟨s', K⟩ where
  exists_holds_node i hi := by
    obtain ⟨t, ht⟩ := h.exists_holds_node i hi
    exact htrims.exists_holds ht
  nodup i entries hi hcell := by
    rcases htrims.trimmed i with heq | ⟨before, after, hbefore, hafter, htrimmed⟩
    · exact h.nodup i entries hi (heq ▸ hcell)
    · obtain rfl : entries = after := by simpa [hafter] using hcell.symm
      exact htrimmed.nodup (h.nodup i before hi hbefore)

end View

namespace Edit

/-- Does something to every schema of a table, references aside. -/
def forSchemas (table : SchemaTable) (body : Scalar → Value → Edit Unit) : Edit Unit := do
  for (name, schema) in ← table.entries do
    if !(← isReference schema) then body name schema

theorem stripEnvelopes_eq : stripEnvelopes table = forSchemas table stripEnvelope := rfl

theorem canonicalizeTable_eq :
    canonicalizeTable table = forSchemas table fun _ schema => canonicalize schema := rfl

/-- Doing something to every schema keeps what is kept each time. The schemas are those that were in
the table in the beginning. -/
theorem Runs.forSchemas_induct {body : Scalar → Value → Edit Unit}
    (h : Runs (forSchemas table body) s u s') (I : Entries Value → Store → Prop) (hinit : I [] s)
    (hstep : ∀ id V done name schema rest t t', s.shape table.schemas = .object id V →
      done ++ (name, schema) :: rest = V → I done t →
      (t.isReference schema = true ∧ t = t' ∨
        t.isReference schema = false ∧ Runs (body name schema) t () t') →
      I (done ++ [(name, schema)]) t') :
    ∃ id V, s.shape table.schemas = .object id V ∧ I V s' := by
  unfold forSchemas at h
  obtain ⟨V, t, hentries, h₁⟩ := runs_bind.mp h
  obtain ⟨⟨id, hshape⟩, rfl⟩ := runs_entriesOf.mp hentries
  obtain ⟨_, last, hloop, hdone⟩ := runs_bind.mp h₁
  obtain ⟨-, rfl⟩ := runs_pure.mp hdone
  refine ⟨id, V, hshape, ?_⟩
  suffices hgeneral : ∀ rest done t u', done ++ rest = V → I done t → Runs (forIn rest PUnit.unit
      fun x _ => do
        if !(← isReference x.2) then body x.1 x.2
        pure (ForInStep.yield PUnit.unit)) t u' last → I V last from
    hgeneral V [] s _ rfl hinit hloop
  intro rest
  induction rest with
  | nil =>
    intro done t u' hV hI hrun
    obtain ⟨-, rfl⟩ := runs_pure.mp hrun
    simpa [← hV] using hI
  | cons e rest ih =>
    obtain ⟨name, schema⟩ := e
    intro done t u' hV hI hrun
    rw [List.forIn_cons, runs_bind] at hrun
    obtain ⟨r, t', hx, hrest⟩ := hrun
    obtain ⟨c, _, href, hx⟩ := runs_bind.mp hx
    obtain ⟨rfl, rfl⟩ := runs_isReference.mp href
    have hnext : I (done ++ [(name, schema)]) t' ∧ r = .yield PUnit.unit := by
      split at hx
      · next hnot =>
        obtain ⟨_, t₁, hbody, hlast⟩ := runs_bind.mp hx
        obtain ⟨rfl, rfl⟩ := runs_pure.mp hlast
        exact ⟨hstep id V done name schema rest t _ hshape hV hI (.inr ⟨by simpa using hnot, hbody⟩), rfl⟩
      · next hnot =>
        obtain ⟨rfl, rfl⟩ := runs_pure.mp hx
        exact ⟨hstep id V done name schema rest t _ hshape hV hI (.inl ⟨by simpa using hnot, rfl⟩), rfl⟩
    obtain ⟨hI', rfl⟩ := hnext
    exact ih (done ++ [(name, schema)]) t' u' (by simpa using hV) hI' hrest

/-- Something can be done to every schema that is no reference, if what is kept each time allows for the
next one. -/
theorem exists_runs_forSchemas {body : Scalar → Value → Edit Unit} {V : Entries Value}
    (hshape : s.shape table.schemas = .object id V) (I : Store → Prop) (hinit : I s)
    (hstep : ∀ e ∈ V, ∀ t, I t → t.isReference e.2 = false → ∃ t', Runs (body e.1 e.2) t () t' ∧ I t') :
    ∃ s', Runs (forSchemas table body) s () s' ∧ I s' := by
  suffices hloop : ∀ (rest : Entries Value) (t : Store), (∀ e ∈ rest, e ∈ V) → I t → ∃ s', Runs (forIn rest PUnit.unit fun x _ => do
      if !(← isReference x.2) then body x.1 x.2
      pure (ForInStep.yield PUnit.unit)) t PUnit.unit s' ∧ I s' by
    obtain ⟨s', hrun, hlast⟩ := hloop V s (fun _ he => he) hinit
    exact ⟨s', runs_bind.mpr ⟨V, s, runs_entriesOf.mpr ⟨⟨id, hshape⟩, rfl⟩,
      runs_bind.mpr ⟨PUnit.unit, s', hrun, runs_pure.mpr ⟨rfl, rfl⟩⟩⟩, hlast⟩
  intro rest
  induction rest with
  | nil => exact fun t _ hI => ⟨t, runs_pure.mpr ⟨rfl, rfl⟩, hI⟩
  | cons e rest ih =>
    intro t hrest hI
    obtain ⟨t', hbody, hI'⟩ : ∃ t', Runs (do
        if !(← isReference e.2) then body e.1 e.2
        pure (ForInStep.yield PUnit.unit)) t (ForInStep.yield PUnit.unit) t' ∧ I t' := by
      cases hreference : t.isReference e.2 with
      | true =>
        exact ⟨t, runs_bind.mpr ⟨true, t, runs_isReference.mpr ⟨hreference, rfl⟩, runs_pure.mpr ⟨rfl, rfl⟩⟩, hI⟩
      | false =>
        obtain ⟨t', hrun, hI'⟩ := hstep e (hrest e List.mem_cons_self) t hI hreference
        exact ⟨t', runs_bind.mpr ⟨false, t, runs_isReference.mpr ⟨hreference, rfl⟩,
          runs_bind.mpr ⟨(), t', hrun, runs_pure.mpr ⟨rfl, rfl⟩⟩⟩, hI'⟩
    obtain ⟨s', hrun, hlast⟩ := ih t' (fun e he => hrest e (List.mem_cons_of_mem _ he)) hI'
    refine ⟨s', ?_, hlast⟩
    rw [List.forIn_cons]
    exact runs_bind.mpr ⟨_, t', hbody, hrun⟩

/-- Removing an envelope changes one of the older nodes only. -/
theorem Strips.cells_eq {role : Role} {entries properties : Entries Value} {i : Nat}
    (h : Strips s s' role id entries properties) (hi : i < s.cells.size) (hne : i ≠ id) :
    s'.cells[i]? = s.cells[i]? := by
  obtain ⟨s₁, entries₁, hs₁, -, hrequired⟩ := h.written
  have hcell₁ : s₁.cells[i]? = s.cells[i]? := by
    rw [hs₁, Store.cells_set, if_neg fun h => hne h.1, Store.cells_add, if_neg hi.ne]
  have hlt₁ : i < s₁.cells.size := by
    rw [hs₁, Store.size_set, Store.size_add]
    omega
  rcases hrequired with ⟨-, rfl⟩ | ⟨required, items, -, -, ⟨-, rfl⟩ | ⟨-, rfl⟩⟩
  · exact hcell₁
  · rw [Store.cells_set, if_neg fun h => hne h.1, hcell₁]
  · rw [Store.cells_set, if_neg fun h => hne h.1, Store.cells_add, if_neg hlt₁.ne, hcell₁]

/-- Removing an envelope only adds nodes. -/
theorem Strips.size_le {role : Role} {entries properties : Entries Value}
    (h : Strips s s' role id entries properties) : s.cells.size ≤ s'.cells.size := by
  obtain ⟨s₁, entries₁, rfl, -, ⟨-, rfl⟩ | ⟨required, items, -, -, ⟨-, rfl⟩ | ⟨-, rfl⟩⟩⟩ := h.written <;>
    simp only [Store.size_set, Store.size_add] <;> omega

/-- A schema does not lie below its properties. -/
theorem Strips.not_reaches_property {role : Role} {entries properties : Entries Value} {w : Value}
    (h : Strips s s' role id entries properties) (hsound : View.Sound ⟨s, K⟩) (hid : id ∈ K)
    (hcell : s.cells[id]? = some (.object entries)) (hw : w ∈ properties.values) : ¬ s.Reaches w id := by
  intro hreach
  have hdeclared := h.declared
  split at hdeclared
  · obtain ⟨map, hshape⟩ := hdeclared
    obtain ⟨hnode, hmap⟩ := Store.shape_eq_object.mp hshape
    exact hsound.not_reaches_part hid hcell
      (Entries.mem_values_of_get? (Store.getD_eq_node.mp hnode)) (.part hmap hw hreach)
  · simp [hdeclared, Entries.values] at hw

theorem Strips.nodup_properties {role : Role} {entries properties : Entries Value}
    (h : Strips s s' role id entries properties) (hsound : View.Sound ⟨s, K⟩)
    (hlinked : View.Linked ⟨s, K⟩ ((entries.get? "properties").getD .null)) :
    properties.keys.Nodup := by
  have hdeclared := h.declared
  split at hdeclared
  · obtain ⟨map, hshape⟩ := hdeclared
    obtain ⟨hnode, hmap⟩ := Store.shape_eq_object.mp hshape
    exact hsound.nodup map _ (hlinked map hnode) hmap
  · simp [hdeclared]

/-- Removing an envelope keeps the gates and brings in no cycle. -/
theorem Strips.gated {role : Role} {entries properties : Entries Value}
    (h : Strips s s' role id entries properties) (hpassage : Passage root gates)
    (hgated : View.Gated root gates ⟨s, K⟩) (hschema : View.Free root gates ⟨s, K⟩ (.node id))
    (hcell : s.cells[id]? = some (.object entries)) :
    ∃ K', K ⊆ K' ∧ View.Gated root gates ⟨s', K'⟩ ∧ (View.Sound ⟨s, K⟩ → View.Sound ⟨s', K'⟩) := by
  have howner : ∀ g ∈ gates, g.owner ≠ id := hschema.not_owner hpassage
  have hid : id ∈ K := (hschema id rfl).1
  have hshape : s.shape (.node id) = .object id entries := Store.shape_node hcell
  have hproperties : ∀ w ∈ properties.values, View.Free root gates ⟨s, K⟩ w := by
    have hdeclared := h.declared
    split at hdeclared
    · obtain ⟨id', hshape'⟩ := hdeclared
      obtain ⟨hnode, hcell'⟩ := Store.shape_eq_object.mp hshape'
      have hfree : View.Free root gates ⟨s, K⟩ ((entries.get? "properties").getD .null) :=
        hgated.free_field_of_free hpassage hschema hshape
      intro w hw
      obtain ⟨e, he, rfl⟩ := List.mem_map.mp hw
      exact hgated.free_of_free hpassage (hnode ▸ hfree) hcell'
        (Cell.mem_places_object.mpr ⟨e.1, rfl, he⟩)
    · simp [hdeclared, Entries.values]
  obtain ⟨s₁, entries₁, hs₁, hentries₁, hrequired⟩ := h.written
  have hkept : ∀ p ∈ (Cell.object (keptProperties role properties)).places,
      View.Free root gates ⟨s, K⟩ p.2 := by
    rintro ⟨key, w⟩ hplace
    obtain ⟨k, -, hmem⟩ := Cell.mem_places_object.mp hplace
    exact hproperties w (List.mem_map_of_mem (List.mem_of_mem_filter hmem))
  obtain ⟨hgated₀, hnew₀⟩ := hgated.add hkept
  have hcell₀ : (s.add (.object (keptProperties role properties))).2.cells[id]? =
      some (.object entries) := by
    rw [Store.cells_add, if_neg (Store.lt_size_of_cell hcell).ne, hcell]
  have hgated₁ : View.Gated root gates ⟨s₁, insert s.cells.size K⟩ := by
    rw [hs₁, hentries₁]
    exact hgated₀.put hcell₀ hnew₀ fun g hg hg' => absurd hg' (howner g hg)
  have hcell₁ : s₁.cells[id]? = some (.object entries₁) := by
    rw [hs₁, Store.cells_set, if_pos ⟨rfl, Store.lt_size_of_cell hcell₀⟩]
  have hsound₁ : View.Sound ⟨s, K⟩ → View.Sound ⟨s₁, insert s.cells.size K⟩ := by
    intro hsound
    rw [hs₁, hentries₁]
    refine hsound.add_put hid hcell (fun w hw => ?_) fun _ heq => ?_
    · obtain ⟨e, he, rfl⟩ := List.mem_map.mp hw
      have he' : e.2 ∈ properties.values := List.mem_map_of_mem (List.mem_of_mem_filter he)
      exact ⟨(hproperties _ he').linked, h.not_reaches_property hsound hid hcell he'⟩
    · obtain rfl := (Cell.object.inj heq).symm
      exact (h.nodup_properties hsound (hgated.linked_field hschema.linked hshape)).sublist (List.filter_sublist.map _)
  rcases hrequired with ⟨-, rfl⟩ | ⟨required, items, hget, hitems, hnames⟩
  · exact ⟨_, Set.subset_insert _ _, hgated₁, hsound₁⟩
  · have hschema₁ : View.Free root gates ⟨s₁, insert s.cells.size K⟩ (.node id) :=
      hschema.mono (Set.subset_insert _ _)
    have hfree : ∀ w ∈ items, View.Free root gates ⟨s₁, insert s.cells.size K⟩ w := by
      have hfield := hgated₁.free_field_of_free (k := "required") hpassage hschema₁
        (Store.shape_node hcell₁)
      rw [hentries₁, Entries.get?_put, if_neg (by decide), hget] at hfield
      exact fun w hw => hgated₁.free_elements hfield.linked hitems hw
    rcases hnames with ⟨-, rfl⟩ | ⟨-, rfl⟩
    · exact ⟨_, Set.subset_insert _ _, hgated₁.set hcell₁
        (fun e he => .inl (Entries.mem_of_mem_remove he)) fun g hg hg' => absurd hg' (howner g hg),
        fun hsound => (hsound₁ hsound).set hcell₁ (fun e he => .inl (Entries.mem_of_mem_remove he))
          (Entries.nodup_keys_remove ((hsound₁ hsound).nodup id _ (.inr hid) hcell₁))⟩
    · have hbeyond : ∀ p ∈ (Cell.list (items.filter (s₁.beyondEnvelope role))).places,
          View.Free root gates ⟨s₁, insert s.cells.size K⟩ p.2 := by
        intro p hp
        obtain ⟨w, hw, rfl⟩ := List.mem_map.mp hp
        exact hfree w (List.mem_of_mem_filter hw)
      obtain ⟨hgated₂, hnew₂⟩ := hgated₁.add hbeyond
      have hcell₂ : (s₁.add (.list (items.filter (s₁.beyondEnvelope role)))).2.cells[id]? =
          some (.object entries₁) := by
        rw [Store.cells_add, if_neg (Store.lt_size_of_cell hcell₁).ne, hcell₁]
      refine ⟨_, (Set.subset_insert _ _).trans (Set.subset_insert _ _),
        hgated₂.put hcell₂ hnew₂ fun g hg hg' => absurd hg' (howner g hg), fun hsound => ?_⟩
      refine (hsound₁ hsound).add_put (.inr hid) hcell₁ (fun w hw => ?_) (by simp)
      have hw' : w ∈ items := List.mem_of_mem_filter hw
      refine ⟨(hfree w hw').linked, fun hreach => ?_⟩
      have hpart : required ∈ (Cell.object entries₁).parts := Entries.mem_values_of_get? (t := "required")
        (by rw [hentries₁, Entries.get?_put, if_neg (by decide), hget])
      rcases Store.place_of_mem_elements hitems hw' with ⟨a, rfl⟩ | ⟨i, cell, rfl, hlist, hplace⟩
      · exact Store.not_reaches_scalar hreach
      · refine (hsound₁ hsound).not_reaches_part (.inr hid) hcell₁ hpart (.part hlist ?_ hreach)
        exact cell.map_snd_places ▸ List.mem_map_of_mem hplace

/-- A schema of the table may stand anywhere. -/
theorem free_of_mem_table {schemas : Nat} {V : Entries Value} {e : Scalar × Value}
    (hgated : View.Gated root gates ⟨s, K⟩) (howner : ∀ g ∈ gates, g.owner ≠ schemas)
    (hknown : schemas ∈ K) (hcell : s.cells[schemas]? = some (.object V)) (he : e ∈ V) :
    View.Free root gates ⟨s, K⟩ e.2 :=
  hgated.free_of_not_owner hknown howner hcell (Cell.mem_places_object.mpr ⟨e.1, rfl, he⟩)

/-- The gates are kept, neither the root nor a gate has been changed, and no cycle has come in. -/
def KeepsGates (root : Nat) (gates : Set Gate) (view : View) (s' : Store) : Prop :=
  ∃ K', view.known ⊆ K' ∧ View.Gated root gates ⟨s', K'⟩ ∧ (view.Sound → View.Sound ⟨s', K'⟩) ∧
    s'.cells[root]? = view.store.cells[root]? ∧ ∀ g ∈ gates, s'.cells[g.node]? = view.store.cells[g.node]?

section

variable {schemas : Nat} (howner : ∀ g ∈ gates, g.owner ≠ schemas)
  (hnode : table.schemas = .node schemas) (hgated : View.Gated root gates ⟨s, K⟩)
  (hknown : schemas ∈ K)
include howner hnode hgated hknown

/-- Doing something to every schema keeps the gates if doing it to a free schema does. -/
theorem keepsGates_forSchemas {body : Scalar → Value → Edit Unit}
    (hbody : ∀ name schema t t' K, View.Gated root gates ⟨t, K⟩ → View.Free root gates ⟨t, K⟩ schema →
      Runs (body name schema) t () t' → KeepsGates root gates ⟨t, K⟩ t')
    (h : Runs (forSchemas table body) s u s') : KeepsGates root gates ⟨s, K⟩ s' := by
  have hstep : ∀ id V done name schema rest t t', s.shape table.schemas = .object id V →
      done ++ (name, schema) :: rest = V → KeepsGates root gates ⟨s, K⟩ t →
      (t.isReference schema = true ∧ t = t' ∨
        t.isReference schema = false ∧ Runs (body name schema) t () t') →
      KeepsGates root gates ⟨s, K⟩ t' := by
    rintro id V done name schema rest t t' hshape hV ⟨K₁, hsub, hgated₁, hsound₁, hroot, hgates⟩ hcases
    rcases hcases with ⟨-, rfl⟩ | ⟨-, hrun⟩
    · exact ⟨K₁, hsub, hgated₁, hsound₁, hroot, hgates⟩
    · obtain ⟨heq, hcell⟩ := Store.shape_eq_object.mp hshape
      obtain rfl : schemas = id := by simpa [hnode] using heq
      have hfree : View.Free root gates ⟨t, K₁⟩ schema :=
        (free_of_mem_table hgated howner hknown hcell (e := (name, schema)) (hV ▸ by simp)).mono hsub
      obtain ⟨K₂, hsub', hgated₂, hsound₂, hroot', hgates'⟩ :=
        hbody name schema t t' K₁ hgated₁ hfree hrun
      exact ⟨K₂, hsub.trans hsub', hgated₂, hsound₂ ∘ hsound₁, hroot'.trans hroot,
        fun g hg => (hgates' g hg).trans (hgates g hg)⟩
  obtain ⟨_, _, -, hlast⟩ := h.forSchemas_induct (fun _ t => KeepsGates root gates ⟨s, K⟩ t)
    ⟨K, subset_rfl, hgated, id, rfl, fun _ _ => rfl⟩ hstep
  exact hlast

variable (hpassage : Passage root gates)
include hpassage

/-- Removing all envelopes keeps the gates and brings in no cycle. -/
theorem keepsGates_stripEnvelopes (h : Runs (stripEnvelopes table) s u s') :
    KeepsGates root gates ⟨s, K⟩ s' := by
  rw [stripEnvelopes_eq] at h
  refine keepsGates_forSchemas howner hnode hgated hknown ?_ h
  intro name schema t t' K₁ hgated₁ hfree hrun
  obtain ⟨id, entries, hshape, hcases⟩ := runs_stripEnvelope hrun
  obtain ⟨rfl, hcell⟩ := Store.shape_eq_object.mp hshape
  rcases hcases with ⟨rfl, -⟩ | ⟨role, properties, -, -, hstrips⟩
  · exact ⟨K₁, subset_rfl, hgated₁, fun h => h, rfl, fun _ _ => rfl⟩
  · obtain ⟨K₂, hsub, hgated₂, hsound⟩ := hstrips.gated hpassage hgated₁ hfree hcell
    exact ⟨K₂, hsub, hgated₂, hsound, hstrips.cells_eq (hgated₁.lt _ hgated₁.root_known)
      fun heq => (hfree id rfl).2.1 heq.symm, fun g hg => hstrips.cells_eq (hgated₁.lt _
        (hgated₁.gate_known g hg)) fun heq => (hfree id rfl).2.2 g hg heq.symm⟩

/-- Bringing all schemas into canonical form keeps the gates and brings in no cycle. -/
theorem keepsGates_canonicalizeTable (h : Runs (canonicalizeTable table) s u s') :
    KeepsGates root gates ⟨s, K⟩ s' := by
  rw [canonicalizeTable_eq] at h
  refine keepsGates_forSchemas howner hnode hgated hknown ?_ h
  intro name schema t t' K₁ hgated₁ hfree hrun
  have htrims := trims_canonicalize hrun
  have hregion : ∀ i, t.Reaches schema i → View.Free root gates ⟨t, K₁⟩ (.node i) := fun i hi =>
    hgated₁.free_of_reaches hpassage hfree hi
  exact ⟨K₁, subset_rfl, hgated₁.trims hpassage htrims hregion, fun h => h.trims htrims,
    htrims.agree root fun hin => (hregion _ hin _ rfl).2.1 rfl, fun g hg => htrims.agree g.node fun hin => (hregion _ hin _ rfl).2.2 g hg rfl⟩

end

/-- Envelopes are removed from tables of objects only. -/
theorem exists_object_of_stripEnvelopes (h : Runs (stripEnvelopes table) s u s') :
    ∃ id V, s.shape table.schemas = .object id V ∧ ∀ e ∈ V, ∀ a, e.2 ≠ .scalar a := by
  rw [stripEnvelopes_eq] at h
  refine h.forSchemas_induct (fun done _ => ∀ e ∈ done, ∀ a, e.2 ≠ .scalar a) (by simp) ?_
  rintro id V done name schema rest t t' - - hdone hstep e he
  rcases List.mem_append.mp he with hmem | hmem
  · exact hdone e hmem
  · obtain rfl := List.mem_singleton.mp hmem
    rintro a rfl
    rcases hstep with ⟨hreference, -⟩ | ⟨-, hrun⟩
    · simp [Store.isReference, Store.entries?, Store.shape] at hreference
    · obtain ⟨_, _, hshape, -⟩ := runs_stripEnvelope hrun
      simp [Store.shape] at hshape

/-- The schemas of a table behind gates may stand anywhere. -/
theorem free_of_mem_values {c T : Nat} {V : Entries Value} {v : Value}
    (hgated : View.Gated root (tableGates root c T) ⟨s, K⟩) (hcell : s.cells[T]? = some (.object V))
    (hv : v ∈ V.values) : View.Free root (tableGates root c T) ⟨s, K⟩ v := by
  obtain ⟨e, he, rfl⟩ := List.mem_map.mp hv
  exact free_of_mem_table hgated (owner_ne_of_tableGates hgated)
    (hgated.gate_known ⟨c, "schemas", T⟩ (by simp [tableGates])) hcell he

/-- A document whose table can be folded: the table has nodes under texts, and it stands behind its
gates, free of cycles. -/
structure Ready (s : Store) (root T : Nat) (V : Entries Value) : Prop where
  textKeyed : V.TextKeyed
  nodes : ∀ e ∈ V, ∀ a, e.2 ≠ .scalar a
  cell : s.cells[T]? = some (.object V)
  exists_gated : ∃ components K, View.Gated root (tableGates root components T) ⟨s, K⟩ ∧
    View.Sound ⟨s, K⟩

namespace Ready

variable {T : Nat} {V : Entries Value} (h : Ready s root T V)
include h

/-- What keeps the gates leaves a document ready. -/
theorem of_keepsGates (hkeeps : ∀ components K, (∀ g ∈ tableGates root components T, g.owner ≠ T) →
    T ∈ K → View.Gated root (tableGates root components T) ⟨s, K⟩ →
    KeepsGates root (tableGates root components T) ⟨s, K⟩ s') : Ready s' root T V := by
  obtain ⟨c, K, hgated, hsound⟩ := h.exists_gated
  have hgate : (⟨c, "schemas", T⟩ : Gate) ∈ tableGates root c T := .inr rfl
  obtain ⟨K', -, hgated', hsound', -, hgates⟩ := hkeeps c K (owner_ne_of_tableGates hgated)
    (hgated.gate_known _ hgate) hgated
  exact ⟨h.textKeyed, h.nodes, (hgates _ hgate).trans h.cell, c, K', hgated', hsound' hsound⟩

/-- The schemas of the table lie apart from it. -/
theorem apart : ∀ v ∈ V.values, s.Apart T v := by
  obtain ⟨c, K, hgated, -⟩ := h.exists_gated
  intro v hv
  have hbelow := fun i (hi : s.Reaches v i) =>
    hgated.free_of_reaches passage_tableGates (free_of_mem_values hgated h.cell hv) hi i rfl
  exact ⟨fun hreach => (hbelow T hreach).2.2 ⟨c, "schemas", T⟩ (by simp [tableGates]) rfl,
    fun i hi => hgated.lt i (hbelow i hi).1⟩

/-- A schema of the table is a node other than the table, and no key comes twice in it. -/
theorem schema {e : Scalar × Value} (he : e ∈ V) :
    ∃ id, e.2 = .node id ∧ id < s.cells.size ∧ id ≠ T ∧
      ∀ entries, s.cells[id]? = some (.object entries) → entries.keys.Nodup := by
  obtain ⟨c, K, hgated, hsound⟩ := h.exists_gated
  have hfree := free_of_mem_values hgated h.cell (List.mem_map_of_mem he)
  cases hid : e.2 with
  | scalar a => exact absurd hid (h.nodes e he a)
  | node id =>
    obtain ⟨hknown, -, hne⟩ := hfree id hid
    exact ⟨id, rfl, hgated.lt id hknown, hne ⟨c, "schemas", T⟩ (by simp [tableGates]),
      fun entries => hsound.nodup id entries hknown⟩

theorem nodup {e : Scalar × Value} (he : e ∈ V) {id : Nat} {entries : Entries Value}
    (hshape : s.shape e.2 = .object id entries) : entries.keys.Nodup := by
  obtain ⟨heq, hcell⟩ := Store.shape_eq_object.mp hshape
  obtain ⟨id', heq', -, -, hnodup⟩ := h.schema he
  obtain rfl : id' = id := by simpa [heq'] using heq
  exact hnodup entries hcell

variable (hnode : table.schemas = .node T)
include hnode

theorem stripEnvelopes (hrun : Runs (stripEnvelopes table) s u s') : Ready s' root T V :=
  h.of_keepsGates fun _ _ howner hknown hgated =>
    keepsGates_stripEnvelopes howner hnode hgated hknown passage_tableGates hrun

theorem canonicalizeTable (hrun : Runs (canonicalizeTable table) s u s') : Ready s' root T V :=
  h.of_keepsGates fun _ _ howner hknown hgated =>
    keepsGates_canonicalizeTable howner hnode hgated hknown passage_tableGates hrun

end Ready

end Edit

end DeviceApi
