import DeviceApi.Proofs.Api.Runs
import DeviceApi.Proofs.Document.Gates

/-!
# Grouped parameters stay behind the gates

The schemas of grouped parameters are new objects. What stands in them is taken from places at which
no gate stands, so the new objects may be put anywhere.
-/

namespace DeviceApi

variable {root : Nat} {gates : Set Gate} {s s' t : Store} {K : Set Nat} {v w : Value} {u : Unit}

namespace View

/-- The store has grown, more nodes are known, and the gates are the same. No cycle has come in. -/
structure Extends (root : Nat) (gates : Set Gate) (view view' : View) : Prop where
  grows : view.store.Grows view'.store
  known_sub : view.known ⊆ view'.known
  gated : view'.Gated root gates
  sound : view.Sound → view'.Sound

theorem Extends.refl {view : View} (h : view.Gated root gates) : view.Extends root gates view :=
  ⟨.refl _, subset_rfl, h, id⟩

theorem Extends.trans {view view' view'' : View} (h : view.Extends root gates view')
    (h' : view'.Extends root gates view'') : view.Extends root gates view'' :=
  ⟨h.grows.trans h'.grows, h.known_sub.trans h'.known_sub, h'.gated, h'.sound ∘ h.sound⟩

/-- Nodes that are added need not become known. -/
theorem Gated.extends_grow (h : View.Gated root gates ⟨s, K⟩) (hgrows : s.Grows s') :
    View.Extends root gates ⟨s, K⟩ ⟨s', K⟩ :=
  ⟨hgrows, subset_rfl, h.grow hgrows, fun hsound => hsound.grow hgrows⟩

/-- A node that is added over free values extends a view. -/
theorem Gated.extends_add (h : View.Gated root gates ⟨s, K⟩) {cell : Cell}
    (hfree : ∀ w ∈ cell.parts, View.Free root gates ⟨s, K⟩ w)
    (hnodup : View.Sound ⟨s, K⟩ → ∀ entries, cell = .object entries → entries.keys.Nodup) :
    View.Extends root gates ⟨s, K⟩ ⟨(s.add cell).2, insert s.cells.size K⟩ ∧
      View.Free root gates ⟨(s.add cell).2, insert s.cells.size K⟩ (s.add cell).1 := by
  obtain ⟨hgated, hnew⟩ := h.add fun p hp =>
    hfree p.2 (cell.map_snd_places ▸ List.mem_map_of_mem hp)
  exact ⟨⟨.add s cell, Set.subset_insert _ _, hgated, fun hsound =>
    hsound.add (fun w hw => (hfree w hw).linked) (hnodup hsound)⟩, hnew⟩

end View

namespace Edit

/-- The node is not older than the store `s`, and free. -/
structure New (root : Nat) (gates : Set Gate) (s : Store) (view : View) (v : Value) : Prop where
  free : view.Free root gates v
  fresh : ∃ x, v = .node x ∧ s.cells.size ≤ x

theorem New.mono {view' : View} (h : New root gates s ⟨t, K⟩ v)
    (hext : View.Extends root gates ⟨t, K⟩ view') : New root gates s view' v :=
  ⟨h.free.mono hext.known_sub, h.fresh⟩

/-- A node that is added over free values is new. -/
theorem extends_add {view : View} (cell : Cell) (hext : View.Extends root gates view ⟨t, K⟩)
    (hparts : ∀ w ∈ cell.parts, View.Free root gates ⟨t, K⟩ w)
    (hnodup : ∀ entries, cell = .object entries → entries.keys.Nodup) (hv : v = (t.add cell).1)
    (hs : s' = (t.add cell).2) :
    ∃ K', K ⊆ K' ∧ View.Extends root gates view ⟨s', K'⟩ ∧
      New root gates view.store ⟨s', K'⟩ v := by
  subst hv hs
  obtain ⟨hadd, hfree⟩ := hext.gated.extends_add hparts fun _ => hnodup
  exact ⟨_, hadd.known_sub, hext.trans hadd, hfree, t.cells.size, rfl, hext.grows.size_le⟩

/-! ## Properties -/

/-- The value of a pair is free. -/
theorem free_pair {key : Scalar} (hgated : View.Gated root gates ⟨s, K⟩)
    (hv : View.Linked ⟨s, K⟩ v) (h : s.pair v = .ok (key, w)) : View.Free root gates ⟨s, K⟩ w := by
  obtain ⟨k, hitems⟩ := Store.exists_elements_of_pair h
  exact hgated.free_elements hv hitems (by simp)

/-- The entries of a new object: they are free, and no key comes twice. -/
structure Fit (root : Nat) (gates : Set Gate) (view : View) (entries : Entries Value) : Prop where
  free : ∀ w ∈ entries.values, view.Free root gates w
  nodup : entries.keys.Nodup

/-- Putting entries over those of an object that has just been added is as good as adding an object
with all of them. -/
theorem add_overlay {entries : Entries Value} (hpassage : Passage root gates)
    (hgated : View.Gated root gates ⟨s, K⟩) (hentries : Fit root gates ⟨s, K⟩ entries)
    (hw : View.Free root gates ⟨s, K⟩ w)
    (h : Runs (overlay (s.add (.object entries)).1 w) (s.add (.object entries)).2 u s') :
    ∃ entries', Fit root gates ⟨s, K⟩ entries' ∧ s' = (s.add (.object entries')).2 := by
  have hgrows : ∀ entries' : Entries Value, s.Grows (s.add (.object entries')).2 := fun _ => .add s _
  have hshape : ∀ entries' : Entries Value, (s.add (.object entries')).2.shape (.node s.cells.size) =
      .object s.cells.size entries' := fun _ =>
    Store.shape_node (by rw [Store.cells_add, if_pos rfl])
  have hentriesAt : ∀ {before entries' : Entries Value}, (s.add (.object entries')).2.cells[s.cells.size]? =
      some (.object before) → before = entries' := by
    intro before entries' hcell
    simpa using (Store.shape_node hcell).symm.trans (hshape entries')
  refine h.overlay_induct (fun t => ∃ entries', Fit root gates ⟨s, K⟩ entries' ∧
    t = (s.add (.object entries')).2) ⟨entries, hentries, rfl⟩ ?_ ?_
  · intro before id' others hbefore hothers
    obtain rfl := hentriesAt hbefore
    refine ⟨before.putAll others, ⟨fun x hx => ?_, Entries.nodup_keys_putAll hentries.nodup⟩,
      Store.add_set⟩
    obtain ⟨e, he, rfl⟩ := List.mem_map.mp hx
    rcases Entries.mem_or_of_mem_putAll he with hold | hmem
    · exact hentries.free e.2 (List.mem_map_of_mem hold)
    · obtain ⟨e', he', heq⟩ := List.mem_map.mp hmem
      obtain ⟨rfl, hcell⟩ := Store.shape_eq_object.mp hothers
      rw [(hgrows before).agree id' (hgated.lt id' (hw id' rfl).1)] at hcell
      exact heq ▸ hgated.free_of_free hpassage hw hcell (Cell.mem_places_object.mpr ⟨e'.1, rfl, he'⟩)
  · rintro items hitems item hitem _ before key value ⟨entries', hfit, rfl⟩ hbefore hpair
    obtain rfl := hentriesAt hbefore
    have hlinked : View.Linked ⟨s, K⟩ item :=
      ((hgated.grow (hgrows entries)).free_elements (hw.mono subset_rfl).linked hitems hitem).linked
    refine ⟨before.put key value, ⟨fun x hx => ?_, Entries.nodup_keys_put_any hfit.nodup⟩, Store.add_set⟩
    rcases Entries.mem_values_put hx with hold | rfl
    · exact hfit.free x hold
    · exact (free_pair (hgated.grow (hgrows before)) (hlinked.mono subset_rfl) hpair).mono subset_rfl

/-- The property for a parameter is a new object. -/
theorem extends_propertyOf {view : View} {id : Nat} {parameter : Entries Value}
    (hpassage : Passage root gates) (hext : View.Extends root gates view ⟨t, K⟩)
    (hw : View.Linked ⟨t, K⟩ w) (hshape : t.shape w = .object id parameter)
    (hid : ¬ Crowded root gates id) (h : Runs (propertyOf parameter) t v s') :
    ∃ K', K ⊆ K' ∧ View.Extends root gates view ⟨s', K'⟩ ∧ New root gates view.store ⟨s', K'⟩ v := by
  have hdescription : View.Free root gates ⟨t, K⟩ ((parameter.get? "description").getD .null) :=
    hext.gated.free_field hw hshape (hpassage.ne_key hid (by decide))
  have hschema : View.Free root gates ⟨t, K⟩ ((parameter.get? "schema").getD .null) :=
    hext.gated.free_field hw hshape (hpassage.ne_key hid (by decide))
  have hfit : Fit root gates ⟨t, K⟩ (describedBy t parameter) := by
    unfold describedBy
    split
    · exact ⟨by simpa [Entries.values] using hdescription, by simp⟩
    · exact ⟨by simp [Entries.values], by simp⟩
  obtain ⟨t₁, hnew, hcases⟩ := runs_propertyOf h
  obtain ⟨rfl, rfl⟩ := runs_newObject.mp hnew
  obtain ⟨entries, hentries, rfl⟩ : ∃ entries, Fit root gates ⟨t, K⟩ entries ∧
      s' = (t.add (.object entries)).2 := by
    rcases hcases with ⟨-, hoverlay⟩ | ⟨-, rfl⟩
    · exact add_overlay hpassage hext.gated hfit hschema hoverlay
    · exact ⟨_, hfit, rfl⟩
  refine extends_add (.object entries) hext hentries.free (fun _ heq => ?_) rfl rfl
  obtain rfl : entries = _ := by simpa using heq
  exact hentries.nodup

/-! ## Groups -/

/-- Where gates stand in the paths, these are neither a parameter nor the schema of an object. -/
def Quiet (root : Nat) (gates : Set Gate) (s : Store) : Prop :=
  ∀ (x : Nat) (entries : Entries Value), Crowded root gates x → s.cells[x]? = some (.object entries) →
    entries.get? "type" ≠ some (.text "object") ∧
      entries.get? "in" ≠ some (.text "path") ∧ entries.get? "in" ≠ some (.text "query")

/-- Parameters are declared for a location other than the path and the query. -/
def Foreign (groups : ParameterGroups) : Prop :=
  ∃ e ∈ groups, e.1 ≠ .text "path" ∧ e.1 ≠ .text "query"

theorem Foreign.put {groups : ParameterGroups} {location : Scalar} {group : ParameterGroup}
    (h : Foreign groups) : Foreign (groups.put location group) := by
  obtain ⟨e, he, hne⟩ := h
  obtain ⟨group', hmem⟩ := Entries.exists_mem_put_of_mem he
  exact ⟨_, hmem, hne⟩

theorem foreign_put {groups : ParameterGroups} {location : Scalar} {group : ParameterGroup}
    (hpath : location ≠ .text "path") (hquery : location ≠ .text "query") :
    Foreign (groups.put location group) := by
  obtain ⟨k, hmem, hsame⟩ := @Entries.exists_mem_put _ groups location group
  refine ⟨_, hmem, ?_, ?_⟩
  · rintro rfl
    exact hpath (Scalar.text_sameKey.mp hsame)
  · rintro rfl
    exact hquery (Scalar.text_sameKey.mp hsame)

theorem not_foreign {groups : ParameterGroups}
    (h : Entries.remove "query" (Entries.remove "path" groups) = []) : ¬ Foreign groups := by
  rintro ⟨e, he, hpath, hquery⟩
  have hmem := Entries.mem_remove_of_ne (Entries.mem_remove_of_ne he hpath) hquery
  rw [h] at hmem
  cases hmem

/-- All that is collected in groups may be put anywhere. -/
def FitGroups (root : Nat) (gates : Set Gate) (view : View) (groups : ParameterGroups) : Prop :=
  ∀ group ∈ groups.values, Fit root gates view group.properties ∧
    ∀ w ∈ group.required, view.Free root gates w

/-- A parameter of the path or of the query becomes a new property. -/
theorem extends_addParameter {view : View} {groups groups' : ParameterGroups}
    (hpassage : Passage root gates) (hquiet : Quiet root gates t)
    (hext : View.Extends root gates view ⟨t, K⟩) (hgroups : FitGroups root gates ⟨t, K⟩ groups)
    (hv : View.Linked ⟨t, K⟩ v) (h : Runs (addParameter (.node root) groups v) t groups' s') :
    Foreign groups' ∨ ∃ K', K ⊆ K' ∧ View.Extends root gates view ⟨s', K'⟩ ∧
      FitGroups root gates ⟨s', K'⟩ groups' := by
  obtain ⟨w, id, parameter, location, property, name, key, hw, hshape, hlocation, hproperty, hname, -,
    rfl⟩ := runs_addParameter h
  by_cases hforeign : location ≠ .text "path" ∧ location ≠ .text "query"
  · exact .inl (foreign_put hforeign.1 hforeign.2)
  refine .inr ?_
  have hid : ¬ Crowded root gates id := by
    intro hcrowded
    obtain ⟨rfl, hcell⟩ := Store.shape_eq_object.mp hshape
    obtain ⟨-, hpath, hquery⟩ := hquiet id parameter hcrowded hcell
    have hin : ∀ place : String, location = .text place → parameter.get? "in" = some (.text place) := by
      rintro place rfl
      exact Store.getD_eq_text.mp (Store.eq_text_of_key hlocation)
    exact hforeign ⟨fun heq => hpath (hin _ heq), fun heq => hquery (hin _ heq)⟩
  have hlinked : View.Linked ⟨t, K⟩ w := hext.gated.linked_dereference hv hw
  obtain ⟨K', hsub, hext', hnew⟩ := extends_propertyOf hpassage hext hlinked hshape hid hproperty
  have hfreeName : View.Free root gates ⟨t, K⟩ name := by
    have hfield := hext.gated.free_field (k := "name") hlinked hshape (hpassage.ne_key hid (by decide))
    rwa [hname] at hfield
  have hold : Fit root gates ⟨t, K⟩ ((groups.get? location).getD {}).properties ∧
      ∀ x ∈ ((groups.get? location).getD {}).required, View.Free root gates ⟨t, K⟩ x := by
    cases hget : groups.get? location with
    | none => exact ⟨⟨by simp [Entries.values], by simp⟩, by simp⟩
    | some group => exact hgroups group (Entries.mem_values_of_get?_eq_some hget)
  refine ⟨K', hsub, hext', fun group hgroup => ?_⟩
  rcases Entries.mem_values_put hgroup with hmem | rfl
  · obtain ⟨hproperties, hrequired⟩ := hgroups group hmem
    exact ⟨⟨fun x hx => (hproperties.free x hx).mono hsub, hproperties.nodup⟩,
      fun x hx => (hrequired x hx).mono hsub⟩
  · refine ⟨⟨fun x hx => ?_, Entries.nodup_keys_put_any hold.1.nodup⟩, fun x hx => ?_⟩
    · rcases Entries.mem_values_put hx with hmem | rfl
      · exact (hold.1.free x hmem).mono hsub
      · exact hnew.free
    · rcases List.mem_append.mp hx with hmem | hmem
      · exact (hold.2 x hmem).mono hsub
      · split at hmem
        · obtain rfl := List.mem_singleton.mp hmem
          exact hfreeName.mono hsub
        · simp at hmem

/-- A group becomes a new object that may be put anywhere and is the schema of an object. -/
theorem extends_groupSchema {view : View} {group : ParameterGroup}
    (hext : View.Extends root gates view ⟨t, K⟩)
    (hproperties : Fit root gates ⟨t, K⟩ group.properties)
    (hrequired : ∀ w ∈ group.required, View.Free root gates ⟨t, K⟩ w)
    (h : Runs (groupSchema group) t v s') :
    ∃ K', K ⊆ K' ∧ View.Extends root gates view ⟨s', K'⟩ ∧
      New root gates view.store ⟨s', K'⟩ v ∧
      ∃ id entries, s'.shape v = .object id entries ∧
        entries.get? "type" = some (.text "object") := by
  obtain ⟨properties, s₁, hnew, hcases⟩ := runs_groupSchema h
  obtain ⟨hv₁, hs₁⟩ := runs_newObject.mp hnew
  obtain ⟨K₁, hsub₁, hext₁, hfree₁⟩ := extends_add (.object group.properties) hext hproperties.free
    (fun _ heq => by obtain rfl : group.properties = _ := by simpa using heq
                     exact hproperties.nodup) hv₁.symm hs₁.symm
  have hshape : ∀ {s₂ : Store} {entries : Entries Value}, Runs (newObject entries) s₂ v s' →
      s'.shape v = .object s₂.cells.size entries := by
    intro s₂ entries hrun
    obtain ⟨rfl, rfl⟩ := runs_newObject.mp hrun
    exact Store.shape_node (by rw [Store.cells_add, if_pos rfl])
  rcases hcases with ⟨-, hlast⟩ | ⟨required, s₂, -, hlist, hlast⟩
  · obtain ⟨hv₂, hs₂⟩ := runs_newObject.mp hlast
    obtain ⟨K₂, hsub₂, hext₂, hnew₂⟩ := extends_add (.object [("type", .text "object"),
      ("properties", properties)]) hext₁ (by
      simpa [Cell.parts, Entries.values] using hfree₁.free) (by
      rintro _ ⟨⟩
      simp) hv₂.symm hs₂.symm
    exact ⟨K₂, hsub₁.trans hsub₂, hext₂, hnew₂, _, _, hshape hlast, by simp [Entries.get?_cons_text]⟩
  · obtain ⟨hv₂, hs₂⟩ := runs_newList.mp hlist
    obtain ⟨K₂, hsub₂, hext₂, hfree₂⟩ := extends_add (.list group.required) hext₁ (fun x hx =>
      (hrequired x hx).mono hsub₁) (by simp) hv₂.symm hs₂.symm
    obtain ⟨hv₃, hs₃⟩ := runs_newObject.mp hlast
    obtain ⟨K₃, hsub₃, hext₃, hnew₃⟩ := extends_add (.object [("type", .text "object"),
      ("properties", properties), ("required", required)]) hext₂ (by
      simpa [Cell.parts, Entries.values] using ⟨hfree₁.free.mono hsub₂, hfree₂.free⟩) (by
      rintro _ ⟨⟩
      simp) hv₃.symm hs₃.symm
    exact ⟨K₃, (hsub₁.trans hsub₂).trans hsub₃, hext₃, hnew₃, _, _, hshape hlast,
      by simp [Entries.get?_cons_text]⟩

/-- The value is a new object that is the schema of an object. -/
structure NewSchema (root : Nat) (gates : Set Gate) (s : Store) (view : View) (v : Value) : Prop
    extends New root gates s view v where
  object : ∃ id entries, view.store.shape v = .object id entries ∧
    entries.get? "type" = some (.text "object")

theorem NewSchema.mono {view view' : View} (h : NewSchema root gates s view v)
    (hext : View.Extends root gates view view') : NewSchema root gates s view' v := by
  refine ⟨⟨h.free.mono hext.known_sub, h.fresh⟩, ?_⟩
  obtain ⟨id, entries, hshape, htype⟩ := h.object
  obtain ⟨rfl, hcell⟩ := Store.shape_eq_object.mp hshape
  exact ⟨id, entries, Store.shape_node
    ((hext.grows.agree id (Store.lt_size_of_cell hcell)).trans hcell), htype⟩

theorem NewSchema.of_grows {view : View} (h : NewSchema root gates t view v) (hgrows : s.Grows t) :
    NewSchema root gates s view v := by
  obtain ⟨x, hx, hle⟩ := h.fresh
  exact ⟨⟨h.free, x, hx, hgrows.size_le.trans hle⟩, h.object⟩

theorem extends_groupSchema? {group : Option ParameterGroup} {schema : Option Value}
    (hgated : View.Gated root gates ⟨t, K⟩)
    (hfit : ∀ g, group = some g → Fit root gates ⟨t, K⟩ g.properties ∧
      ∀ w ∈ g.required, View.Free root gates ⟨t, K⟩ w)
    (h : Runs (groupSchema? group) t schema s') :
    ∃ K', View.Extends root gates ⟨t, K⟩ ⟨s', K'⟩ ∧
      ∀ v, schema = some v → NewSchema root gates t ⟨s', K'⟩ v := by
  cases group with
  | none =>
    obtain ⟨rfl, rfl⟩ := runs_pure.mp h
    exact ⟨K, .refl hgated, by simp⟩
  | some g =>
    simp only [groupSchema?, runs_bind, runs_pure] at h
    obtain ⟨v, t', hv, rfl, rfl⟩ := h
    obtain ⟨hproperties, hrequired⟩ := hfit g rfl
    obtain ⟨K', -, hext, hnew, hobject⟩ :=
      extends_groupSchema (.refl hgated) hproperties hrequired hv
    refine ⟨K', hext, ?_⟩
    intro w hw
    obtain rfl := Option.some.inj hw
    exact ⟨hnew, hobject⟩

/-- Adding nodes keeps the paths quiet. -/
theorem Quiet.grow (h : Quiet root gates s) (hgated : View.Gated root gates ⟨s, K⟩)
    (hgrows : s.Grows s') : Quiet root gates s' := by
  intro x entries hcrowded hcell
  rw [hgrows.agree x (hgated.lt x (hgated.gate_known _ hcrowded.1))] at hcell
  exact h x entries hcrowded hcell

/-- Grouping parameters adds new schemas that may be put anywhere. -/
theorem extends_groupParameters {path query : Option Value} (hpassage : Passage root gates)
    (hquiet : Quiet root gates s) (hgated : View.Gated root gates ⟨s, K⟩) (hv : View.Linked ⟨s, K⟩ v)
    (h : Runs (groupParameters (.node root) v) s (path, query) s') :
    ∃ K', View.Extends root gates ⟨s, K⟩ ⟨s', K'⟩ ∧
      (∀ w, path = some w → NewSchema root gates s ⟨s', K'⟩ w) ∧
      ∀ w, query = some w → NewSchema root gates s ⟨s', K'⟩ w := by
  obtain ⟨items, groups, s₁, s₂, hitems, hgroups, hothers, hpath, hquery⟩ := runs_groupParameters h
  have hlinked : ∀ item ∈ items, View.Linked ⟨s, K⟩ item := fun item hitem =>
    (hgated.free_elements hv hitems hitem).linked
  -- A foreign location is refused in the end, so none comes up on the way.
  obtain hforeign | ⟨K₁, hext₁, hfit₁⟩ := Runs.foldlM_induct (fun _ groups t => Foreign groups ∨ ∃ K',
    View.Extends root gates ⟨s, K⟩ ⟨t, K'⟩ ∧ FitGroups root gates ⟨t, K'⟩ groups) hgroups
    (.inr ⟨K, .refl hgated, by simp [FitGroups, Entries.values]⟩)
    fun done item rest c t c' t' hdone hI hstep => by
      rcases hI with hforeign | ⟨K', hext, hfit⟩
      · obtain ⟨_, _, _, _, _, _, _, _, _, _, _, _, _, rfl⟩ := runs_addParameter hstep
        exact .inl hforeign.put
      · have hitem : item ∈ items := hdone ▸ by simp
        exact (extends_addParameter hpassage (hquiet.grow hgated hext.grows) hext hfit
          ((hlinked item hitem).mono hext.known_sub) hstep).imp_right fun h =>
            h.imp fun _ hK => hK.2
  · exact absurd hforeign (not_foreign hothers)
  obtain ⟨K₂, hext₂, hnew₂⟩ := extends_groupSchema? hext₁.gated (fun g hg =>
    hfit₁ g (Entries.mem_values_of_get?_eq_some hg)) hpath
  obtain ⟨K₃, hext₃, hnew₃⟩ := extends_groupSchema? hext₂.gated (fun g hg => by
    obtain ⟨hproperties, hrequired⟩ := hfit₁ g (Entries.mem_values_of_get?_eq_some hg)
    exact ⟨⟨fun w hw => (hproperties.free w hw).mono hext₂.known_sub, hproperties.nodup⟩,
      fun w hw => (hrequired w hw).mono hext₂.known_sub⟩) hquery
  refine ⟨K₃, (hext₁.trans hext₂).trans hext₃, fun w hw => ?_, fun w hw => ?_⟩
  · exact ((hnew₂ w hw).of_grows hext₁.grows).mono hext₃
  · exact (hnew₃ w hw).of_grows (hext₁.grows.trans hext₂.grows)

end Edit

end DeviceApi
