import DeviceApi.Proofs.Api.Course

/-!
# Trees after a classification

A document that holds a tree still does so after an operation has been classified: no node has come to lie inside of itself.
What is ordinary is given references by name only. The schemas of parameters are made of ordinary values, and so are the
copies of references that the operation is given.
-/

namespace DeviceApi

variable {s t : Store} {v w : Value} {i : Nat} {key : String}

namespace Edit

variable {P : Value → Prop} {ds : List Contribution} {groups : ParameterGroups} {n : Nat}

/-- What holds for the values of contributions holds for all that is gathered. -/
theorem forall_gather (hds : ∀ k d, ds[k]? = some d → P (.node (n + k)) ∧ P d.name)
    (hgroups : ∀ g ∈ groups.values, ∀ w ∈ g.properties.values ++ g.required, P w) :
    ∀ g ∈ (gather groups n ds).values, ∀ w ∈ g.properties.values ++ g.required, P w := by
  induction ds generalizing groups n with
  | nil => exact hgroups
  | cons d ds ih =>
    obtain ⟨hproperty, hname⟩ := hds 0 d rfl
    have hold : ∀ w ∈ ((groups.get? d.location).getD {}).properties.values ++ ((groups.get? d.location).getD {}).required,
        P w := by
      cases hget : groups.get? d.location with
      | none => simp [Entries.values]
      | some g => exact hgroups g (Entries.mem_values_of_get?_eq_some hget)
    refine ih (fun k d' hd' => ?_) fun g hg w hw => ?_
    · rw [Nat.add_assoc, Nat.add_comm 1]
      exact hds (k + 1) d' hd'
    · rcases Entries.mem_values_put hg with hmem | rfl
      · exact hgroups g hmem w hw
      · rcases List.mem_append.mp hw with hmem | hmem
        · rcases Entries.mem_values_put hmem with hmem | rfl
          · exact hold w (List.mem_append_left _ hmem)
          · exact hproperty
        · rcases List.mem_append.mp hmem with hmem | hmem
          · exact hold w (List.mem_append_right _ hmem)
          · split at hmem
            · exact List.mem_singleton.mp hmem ▸ hname
            · cases hmem

end Edit

namespace Store

variable {lo hi n : Nat} {g : ParameterGroup} {more : Entries Value} {ds : List Contribution} {location : String}

/-- The schema of a group holds a tree if what the group consists of does. -/
theorem Spells.exists_holds (h : s.Spells lo hi g v more)
    (hg : ∀ w ∈ g.properties.values ++ g.required, ∃ u, s.Holds w u) (hmore : ∀ w ∈ more.values, ∃ u, s.Holds w u) :
    ∃ u, s.Holds v u := by
  obtain ⟨x, p, fields, rfl, -, -, -, hproperties, hcell, hcases⟩ := h
  obtain ⟨u, hu⟩ := exists_holds_of_parts hproperties fun w hw => hg w (List.mem_append_left _ hw)
  refine exists_holds_of_parts hcell fun w hw => ?_
  simp only [Cell.parts, Entries.values, List.map_cons, List.map_append, List.mem_cons, List.mem_append] at hw
  rcases hw with rfl | rfl | hw | hw
  · exact ⟨.text "object", by simp⟩
  · exact ⟨u, hu⟩
  · rcases hcases with ⟨-, rfl⟩ | ⟨-, r, -, -, hrequired, rfl⟩
    · cases hw
    · obtain rfl := List.mem_singleton.mp hw
      exact exists_holds_of_parts hrequired fun w hw => hg w (List.mem_append_right _ hw)
  · exact hmore w hw

theorem Collects.exists_holds (h : s.Collects n lo hi ds location v more)
    (hds : ∀ d ∈ ds, ∀ w ∈ d.name :: d.fields.values, ∃ u, s.Holds w u) (hmore : ∀ w ∈ more.values, ∃ u, s.Holds w u) :
    ∃ u, s.Holds v u := by
  obtain ⟨g, hg, hspells⟩ := h.spells
  refine hspells.exists_holds (Edit.forall_gather (P := fun w => ∃ u, s.Holds w u) (fun k d hd => ?_) (by simp [Entries.values]) g
    (Entries.mem_values_of_get?_eq_some hg)) hmore
  have hmem := List.mem_of_getElem? hd
  exact ⟨exists_holds_of_parts (h.property k d hd) fun w hw => hds d hmem w (List.mem_cons_of_mem _ hw),
    hds d hmem _ List.mem_cons_self⟩

end Store

/-- What has been put somewhere holds a tree if a registered schema does, and if what a reference consists of does. -/
theorem Adoption.Changes.exists_holds {table : SchemaTable} {op : Operation} {role : Role} {x : Adoption}
    (hc : x.Changes s table op role i key w) (htrace : x.Trace s t table op role) (hfield : t.field? (.node i) key = some w)
    (hregistered : table.schemas = .node i → ∃ u, t.Holds x.schema u)
    (hhandle : op.content = .node i → ∀ w ∈ (x.handle s (op.schemaName role)).values, ∃ u, t.Holds w u) :
    ∃ u, t.Holds w u := by
  cases hc with
  | registered hi => exact hregistered hi
  | handle hi j =>
    obtain ⟨y, -, hy, hcell⟩ := htrace.handle_eq
    rw [hi] at hy
    obtain rfl := Value.node.inj (Option.some.inj (hy.symm.trans hfield))
    exact Store.exists_holds_of_parts hcell (hhandle hi)
  | media heq hx hi j =>
    obtain ⟨y, -, hy, hcell⟩ := htrace.media_eq _ heq hx
    rw [hi] at hy
    obtain rfl := Value.node.inj (Option.some.inj (hy.symm.trans hfield))
    exact Store.exists_holds_of_parts hcell fun w hw => ⟨.text (pointerTo (op.schemaName role)),
      by rw [List.mem_singleton.mp hw]; exact Store.holds_scalar.mpr rfl⟩
  | encoding | tag => exact ⟨.scalar _, Store.holds_scalar.mpr rfl⟩

namespace Edit

variable {root c T : Nat} {entries : Entries Value} {table : SchemaTable} {op : Operation}

/-- What an ordinary parameter contributes is ordinary. -/
theorem Opened.ordinary_contribution {d : Contribution} (h : Opened s root c T entries)
    (hplain : ∀ v p, Ordinary s root c T entries v → s.field? v referenceKey = some (.text p) → Pointer.Plain p)
    (hv : Ordinary s root c T entries v) (hd : s.Contributes (.node root) v d) :
    ∀ w ∈ d.name :: d.fields.values, Ordinary s root c T entries w := by
  obtain ⟨w, id, parameter, hw, hshape, -, hfields, hname, -⟩ := hd
  have hordinary := h.ordinary_dereference hplain hv hw
  have hvalue : ∀ key : String, Ordinary s root c T entries ((parameter.get? key).getD .null) := by
    intro key
    cases hx : parameter.get? key with
    | none => exact ordinary_scalar .null
    | some x => exact h.ordinary_field hordinary (Store.field?_eq_some.mpr ⟨id, parameter, hshape, hx⟩)
  have hdescribed : Fit root (deepGates s root (entries.get? "paths") c T) ⟨s, {i | i < s.cells.size}⟩
      (describedBy s parameter) := by
    unfold describedBy
    split
    · exact ⟨fun x hx => List.mem_singleton.mp hx ▸ hvalue "description", by simp⟩
    · exact ⟨by simp [Entries.values], by simp⟩
  intro x hx
  rcases List.mem_cons.mp hx with rfl | hx
  · exact h.ordinary_field hordinary (Store.field?_eq_some.mpr ⟨id, parameter, hshape, hname⟩)
  · rw [Store.propertyFields] at hfields
    split at hfields
    · -- Going over an object that has just been added tells what the entries are.
      have hoverlay : Runs (overlay (s.add (.object (describedBy s parameter))).1 ((parameter.get? "schema").getD .null))
          (s.add (.object (describedBy s parameter))).2 () (s.add (.object d.fields)).2 :=
        (runs_overlay_iff h.gated_deepGates (.refl s) (hvalue "schema").linked).mpr ⟨d.fields, hfields, rfl⟩
      obtain ⟨others, hfit, heq⟩ := add_overlay passage_deepGates h.gated_deepGates hdescribed (hvalue "schema") hoverlay
      obtain rfl : d.fields = others := by
        have hcell := congrArg (fun u : Store => u.cells[s.cells.size]?) heq
        rw [Store.cells_add, if_pos rfl, Store.cells_add, if_pos rfl] at hcell
        exact Cell.object.inj (Option.some.inj hcell)
      exact hfit.free x hx
    · exact hdescribed.free x (Except.ok.inj hfields ▸ hx)

/-- The references that an operation is given consist of ordinary values. -/
theorem Placed.ordinary_handle {role : Role} {x : Adoption} (h : Placed s root c T entries table op)
    (hfound : Found s root op role x) : ∀ w ∈ (x.handle s (op.schemaName role)).values, Ordinary s root c T entries w := by
  have hreference : ∀ w ∈ Entries.values (referenceEntries (op.schemaName role)), Ordinary s root c T entries w :=
    fun w hw => List.mem_singleton.mp hw ▸ ordinary_scalar _
  cases x with
  | parameters v => exact hreference
  | content found =>
    rw [Adoption.handle]
    split
    · have hdeclared := (h.held hfound).declared
      cases hfields : s.entries? (Adoption.declared s found) with
      | none => simp [Entries.values]
      | some fields =>
        obtain ⟨id, hshape⟩ := Store.entries?_eq_some.mp hfields
        intro w hw
        obtain ⟨e, he, rfl⟩ := List.mem_map.mp hw
        exact h.opened.ordinary_entry hdeclared hshape he
    · exact hreference

namespace Course

variable {path : Value} {query : Option Value} {taken : Role → Option Adoption} {s₁ u : Store}
  (hplaced : Placed s root c T entries table op) (h : Course s s s₁ u root c T entries table op path query taken)
include hplaced h

/-- What is ordinary still holds a tree: it is given roles and references by name only. -/
theorem exists_holds_ordinary (hv : Ordinary s root c T entries v) : ∃ tree, u.Holds v tree := by
  obtain ⟨tree, hheld⟩ := hplaced.opened.sound.exists_holds hv.linked
  have hputs : s.Puts (Adopts s table op taken) u := (Store.Puts.grow (grows_groupParameters h.group)).trans h.puts
  refine hputs.exists_holds (P := Ordinary s root c T entries) hheld hv (fun i cell w hi hcell hw => ?_)
    (fun i fields hi => h.held.textKeyed_of_lt hi) ?_
  · rw [← Cell.map_snd_places] at hw
    obtain ⟨⟨key, w⟩, hplace, rfl⟩ := List.mem_map.mp hw
    exact hplaced.opened.ordinary_place hi hcell hplace
  · rintro i key w hi ⟨role, x, hx, hc⟩ hfield
    exact hc.exists_holds (h.held.trace role x hx) hfield
      (fun hT => absurd (hplaced.node.symm.trans hT).symm hi.ne_schemas) fun hop => absurd hop (h.held.content_ne hi)

/-- The schemas of parameters are made of ordinary values. -/
theorem exists_holds_parameters {role : Role} (hx : taken role = some (.parameters v)) : ∃ tree, u.Holds v tree := by
  have hordinary := ordinary_declared hplaced.opened hplaced.content "parameters"
  obtain ⟨items, ds, lo, helements, hds, hpath, hquery⟩ := h.collects hplaced le_rfl hplaced.opened.gated hordinary.linked
  have hvalues : ∀ d ∈ ds, ∀ w ∈ d.name :: d.fields.values, ∃ tree, u.Holds w tree := by
    intro d hd w hw
    obtain ⟨item, hitem, hcontributes⟩ := exists_mem_of_forall₂_right hds hd
    refine exists_holds_ordinary hplaced h (hplaced.opened.ordinary_contribution (fun v p hv hp => (hplaced.plain v p hv hp).1) ?_
      hcontributes w hw)
    rcases Store.place_of_mem_elements helements hitem with ⟨a, rfl⟩ | ⟨i, cell, hi, hcell, hplace⟩
    · exact ordinary_scalar a
    · exact hplaced.opened.ordinary_place (hi ▸ hordinary) hcell hplace
  have hrole : ∀ role : Role, ∀ w ∈ Entries.values [(.text roleKey, .text role.text)], ∃ tree, u.Holds w tree :=
    fun role w hw => ⟨.text role.text, by rw [List.mem_singleton.mp hw]; simp⟩
  obtain rfl | ⟨rfl, -⟩ := (h.held.found role _ hx).2
  · obtain rfl : path = v := by simpa using h.path.symm.trans hx
    exact hpath.exists_holds hvalues (hrole _)
  · rcases h.request with ⟨-, v', hv', hrequest⟩ | ⟨-, -, found, hrequest⟩
    · obtain rfl : v' = v := by simpa using hrequest.symm.trans hx
      exact (hquery v' hv' hrequest).exists_holds hvalues (hrole _)
    · cases hrequest.symm.trans hx

/-- All that the document held from the beginning holds a tree in the end. -/
theorem exists_holds (hv : View.Linked ⟨s, {i | i < s.cells.size}⟩ v) : ∃ tree, u.Holds v tree := by
  obtain ⟨tree, hheld⟩ := hplaced.opened.sound.exists_holds hv
  have hputs : s.Puts (Adopts s table op taken) u := (Store.Puts.grow (grows_groupParameters h.group)).trans h.puts
  refine hputs.exists_holds (P := fun _ => True) hheld trivial (fun _ _ _ _ _ _ => trivial)
    (fun i fields hi => h.held.textKeyed_of_lt hi) ?_
  rintro i key w - ⟨role, x, hx, hc⟩ hfield
  have hfound := h.held.found role x hx
  refine hc.exists_holds (h.held.trace role x hx) hfield (fun _ => ?_) fun _ w hw =>
    exists_holds_ordinary hplaced h (hplaced.ordinary_handle hfound w hw)
  cases x with
  | parameters v => exact exists_holds_parameters hplaced h hx
  | content found => exact exists_holds_ordinary hplaced h (hplaced.held hfound).schema

end Course

end Edit

end DeviceApi
