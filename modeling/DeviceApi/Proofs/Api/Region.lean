import DeviceApi.Proofs.Api.Ordinary
import DeviceApi.Proofs.Api.Steady

/-!
# Regions of a document

References that are plain lead to what stands in a group of the components. So the nodes that they lead to make up a
region that classification stays in: it adds references and the schemas of grouped parameters, and puts values of the
region in other places of it.
-/

namespace DeviceApi

/-- The nodes of a document that stay where they are: the root, the components, the groups that stand in the components,
the table among them, and what the operations contain. -/
structure Site where
  root : Nat
  components : Nat
  table : Nat
  groups : Set Nat
  contents : Set Nat
  table_mem : table ∈ groups
  group_apart : ∀ i ∈ groups, i ≠ root ∧ i ≠ components ∧ i ∉ contents
  content_apart : ∀ i ∈ contents, i ≠ root ∧ i ≠ components

/-- The nodes that references lead to. Those inside may be references themselves; the schemas of grouped parameters are
none. -/
structure Region where
  inner : Set Nat
  grouped : Set Nat

namespace Region

/-- The value is a scalar or inside of the region. -/
def Inner (r : Region) (v : Value) : Prop := ∀ i, v = .node i → i ∈ r.inner

/-- The value is a scalar or in the region. -/
def Target (r : Region) (v : Value) : Prop := ∀ i, v = .node i → i ∈ r.inner ∨ i ∈ r.grouped

/-- Every node of the one region is in the same part of the other. -/
structure Within (r r' : Region) : Prop where
  inner : r.inner ⊆ r'.inner
  grouped : r.grouped ⊆ r'.grouped

theorem inner_scalar {r : Region} (a : Scalar) : r.Inner (.scalar a) := by simp [Inner]

theorem Inner.target {r : Region} {v : Value} (h : r.Inner v) : r.Target v := fun i hi => .inl (h i hi)

variable {r r' r'' : Region} {v : Value}

theorem Within.refl (r : Region) : r.Within r := ⟨subset_rfl, subset_rfl⟩

theorem Within.trans (h : r.Within r') (h' : r'.Within r'') : r.Within r'' :=
  ⟨h.inner.trans h'.inner, h.grouped.trans h'.grouped⟩

theorem Inner.within (h : r.Inner v) (hsub : r.Within r') : r'.Inner v := fun i hi => hsub.inner (h i hi)

theorem Target.within (h : r.Target v) (hsub : r.Within r') : r'.Target v := fun i hi =>
  (h i hi).imp (@hsub.inner i) (@hsub.grouped i)

/-- The region with one more node inside. -/
def addInner (r : Region) (i : Nat) : Region := ⟨insert i r.inner, r.grouped⟩

/-- The region with the schema of one more group. -/
def addGrouped (r : Region) (i : Nat) : Region := ⟨r.inner, insert i r.grouped⟩

theorem within_addInner (r : Region) (i : Nat) : r.Within (r.addInner i) := ⟨Set.subset_insert i _, subset_rfl⟩

theorem within_addGrouped (r : Region) (i : Nat) : r.Within (r.addGrouped i) := ⟨subset_rfl, Set.subset_insert i _⟩

/-- What stands in the region, in the groups of the components and in the operations stands in the region. -/
structure Closed (r : Region) (site : Site) (s : Store) : Prop where
  lt : ∀ i, i ∈ r.inner ∨ i ∈ r.grouped → i < s.cells.size
  lt_group : ∀ i ∈ site.groups, i < s.cells.size
  lt_content : ∀ i ∈ site.contents, i < s.cells.size
  apart : ∀ i, i ∈ r.inner ∨ i ∈ r.grouped → i ≠ site.root ∧ i ≠ site.components ∧ i ∉ site.groups ∧ i ∉ site.contents
  part_inner : ∀ i cell w, i ∈ r.inner → s.cells[i]? = some cell → w ∈ cell.parts → r.Inner w
  part_group : ∀ i cell w, i ∈ site.groups → s.cells[i]? = some cell → w ∈ cell.parts → r.Target w
  part_content : ∀ i cell w, i ∈ site.contents → s.cells[i]? = some cell → w ∈ cell.parts → r.Inner w
  plain : ∀ i p, i ∈ r.inner → s.field? (.node i) referenceKey = some (.text p) → Pointer.Plain p
  grouped : ∀ i, i ∈ r.grouped → ∀ key ∈ [referenceKey, "content"], s.field? (.node i) key = none
  root_components : s.field? (.node site.root) "components" = some (.node site.components)
  components_table : s.field? (.node site.components) "schemas" = some (.node site.table)
  components_group : ∀ (group : String) x, s.field? (.node site.components) group = some (.node x) →
    x ∈ site.groups ∧ (x = site.table → group = "schemas")
  table : s.IsObject (.node site.table)

end Region

namespace Store

variable {s : Store} {v w : Value} {i : Nat} {key : Scalar}

/-- What an object holds under a key is a part of it. -/
theorem part_of_field? (h : s.field? (.node i) key = some w) : ∃ cell, s.cells[i]? = some cell ∧ w ∈ cell.parts := by
  obtain ⟨id, entries, hshape, hget⟩ := field?_eq_some.mp h
  obtain ⟨heq, hcell⟩ := shape_eq_object.mp hshape
  obtain rfl := Value.node.inj heq
  exact ⟨_, hcell, Entries.mem_values_of_get?_eq_some hget⟩

theorem part_of_step {name : String} (h : s.step (.node i) name = .ok (some w)) :
    ∃ cell, s.cells[i]? = some cell ∧ w ∈ cell.parts := by
  obtain ⟨j, cell, key, heq, hcell, hplace, -⟩ := place_of_step h
  obtain rfl := Value.node.inj heq
  exact ⟨cell, hcell, Cell.map_snd_places cell ▸ List.mem_map_of_mem hplace⟩

/-- A step from an object leads to what it holds. -/
theorem step_eq_field? {name : String} (h : s.IsObject v) : s.step v name = .ok (s.field? v name) := by
  obtain ⟨id, entries, hshape⟩ := h
  simp [step, field?, entries?, hshape]

theorem isObject_of_field? (h : s.field? v key = some w) : s.IsObject v := by
  obtain ⟨id, entries, hshape, -⟩ := field?_eq_some.mp h
  exact ⟨id, entries, hshape⟩

theorem field?_node {entries : Entries Value} (hcell : s.cells[i]? = some (.object entries)) :
    s.field? (.node i) key = entries.get? key := by
  rw [field?, entries?, shape_node hcell]

/-- What is put into an object stands under its key, and nothing else changes. -/
theorem field?_set_put {entries : Entries Value} {key k : String} {u : Value}
    (hcell : s.cells[i]? = some (.object entries)) :
    (s.set i (.object (entries.put (.text key) u))).field? v (.text k) =
      if v = .node i ∧ k = key then some u else s.field? v (.text k) := by
  have hset : (s.set i (.object (entries.put (.text key) u))).cells[i]? = some (.object (entries.put (.text key) u)) := by
    rw [cells_set, if_pos ⟨rfl, lt_size_of_cell hcell⟩]
  by_cases hv : v = .node i
  · subst hv
    rw [field?_node hset, field?_node hcell, Entries.get?_put]
    simp [eq_comm]
  · rw [if_neg fun heq => hv heq.1]
    refine field?_eq_of_shape_eq ?_
    cases v with
    | scalar a => rfl
    | node j =>
      have hne : ¬(j = i ∧ i < s.cells.size) := fun heq => hv (heq.1 ▸ rfl)
      simp only [shape, cells_set, if_neg hne]

end Store

namespace Region.Closed

variable {r : Region} {site : Site} {s s' : Store} {v w : Value} {i : Nat} {key : Scalar} {p : String}

section

variable (h : r.Closed site s)
include h

theorem inner_field (hv : r.Inner v) (hfield : s.field? v key = some w) : r.Inner w := by
  obtain ⟨i, _, hshape, -⟩ := Store.field?_eq_some.mp hfield
  obtain ⟨rfl, -⟩ := Store.shape_eq_object.mp hshape
  obtain ⟨cell, hcell, hmem⟩ := Store.part_of_field? hfield
  exact h.part_inner i cell w (hv i rfl) hcell hmem

theorem inner_entry {id : Nat} {fields : Entries Value} {e : Scalar × Value} (hv : r.Inner v)
    (hshape : s.shape v = .object id fields) (he : e ∈ fields) : r.Inner e.2 := by
  obtain ⟨rfl, hcell⟩ := Store.shape_eq_object.mp hshape
  exact h.part_inner id _ _ (hv id rfl) hcell (List.mem_map_of_mem he)

/-- What is in the region and holds a reference or a content is inside. -/
theorem inner_of_field (hv : r.Target v) {key : String} (hkey : key ∈ [referenceKey, "content"])
    (hfield : s.field? v key = some w) : r.Inner v := by
  rintro i rfl
  refine (hv i rfl).resolve_right fun hgrouped => ?_
  rw [h.grouped i hgrouped key hkey] at hfield
  cases hfield

theorem content_field (hi : i ∈ site.contents) (hfield : s.field? (.node i) key = some w) : r.Inner w := by
  obtain ⟨cell, hcell, hmem⟩ := Store.part_of_field? hfield
  exact h.part_content i cell w hi hcell hmem

/-- A pointer that stands in the region is plain. -/
theorem plain_pointer (hv : r.Target v) (hp : s.field? v referenceKey = some (.text p)) : Pointer.Plain p := by
  obtain ⟨i, _, hshape, -⟩ := Store.field?_eq_some.mp hp
  obtain ⟨rfl, -⟩ := Store.shape_eq_object.mp hshape
  exact h.plain i p (h.inner_of_field hv (by simp) hp i rfl) hp

/-- The steps of a plain pointer lead through a group of the components. -/
theorem resolve_iff {group name : String} (hgroup : Pointer.Simple group) (hname : Pointer.Simple name) :
    s.resolve (.node site.root) ("#/components/" ++ group ++ "/" ++ name) = .ok w ↔
      ∃ x ∈ site.groups, s.field? (.node site.components) group = some (.node x) ∧
        s.step (.node x) name = .ok (some w) ∧ s.isNull w = false := by
  have hnull : ∀ {i}, i < s.cells.size → s.isNull (.node i) = false := fun hi =>
    Store.isNull_node (Array.getElem?_eq_getElem hi)
  have hroot := h.root_components
  have htable := h.components_table
  rw [Store.resolve_plain hgroup hname, Store.step_eq_field? (Store.isObject_of_field? hroot), hroot]
  constructor
  · rintro ⟨components, inner, hcomponents, -, hinner, -, hstep, hw⟩
    obtain rfl := Option.some.inj (Except.ok.inj hcomponents)
    rw [Store.step_eq_field? (Store.isObject_of_field? htable), Except.ok.injEq] at hinner
    obtain ⟨x, _, _, rfl, -⟩ := Store.place_of_step hstep
    exact ⟨x, (h.components_group group x hinner).1, hinner, hstep, hw⟩
  · rintro ⟨x, hx, hfield, hstep, hw⟩
    refine ⟨_, _, rfl, hnull ?_, ?_, hnull (h.lt_group x hx), hstep, hw⟩
    · exact (Store.isObject_of_field? htable).lt _ rfl
    · rw [Store.step_eq_field? (Store.isObject_of_field? htable), hfield]

/-- The pointer to a schema leads to the schema in the table. -/
theorem resolve_pointerTo_iff {name : String} (hname : Pointer.Simple name) :
    s.resolve (.node site.root) (pointerTo name) = .ok w ↔
      s.field? (.node site.table) name = some w ∧ s.isNull w = false := by
  rw [pointerTo_eq, h.resolve_iff (by decide) hname]
  constructor
  · rintro ⟨x, -, hx, hstep, hw⟩
    obtain rfl : site.table = x := Value.node.inj (Option.some.inj (h.components_table.symm.trans hx))
    rw [Store.step_eq_field? h.table, Except.ok.injEq] at hstep
    exact ⟨hstep, hw⟩
  · rintro ⟨hfield, hw⟩
    exact ⟨site.table, site.table_mem, h.components_table, by rw [Store.step_eq_field? h.table, hfield], hw⟩

/-- A plain pointer leads into the region. -/
theorem target_resolve (hp : Pointer.Plain p) (hw : s.resolve (.node site.root) p = .ok w) : r.Target w := by
  obtain ⟨group, name, rfl, hgroup, hname⟩ := hp
  obtain ⟨x, hx, -, hstep, -⟩ := (h.resolve_iff hgroup hname).mp hw
  obtain ⟨cell, hcell, hmem⟩ := Store.part_of_step hstep
  exact h.part_group x cell w hx hcell hmem

/-- References in the region lead to the region. -/
theorem target_dereference (hv : r.Target v) (hw : s.dereference (.node site.root) v = .ok w) : r.Target w := by
  obtain ⟨n, hchain⟩ := Store.dereference_eq_ok.mp hw
  exact (hchain.transfer r.Target hv (fun v _ => ⟨rfl, rfl⟩) fun v p u hv hp hu =>
    ⟨hu, h.target_resolve (h.plain_pointer hv hp) hu⟩).2

/-- The content of what is in the region is in the region. -/
theorem target_content {owner : Value} {type : String} {content : Content} (howner : r.Target owner)
    (hfinds : Edit.FindsContent s (.node site.root) owner type content) :
    r.Inner content.media ∧ r.Target content.schema := by
  obtain ⟨types, id, declared, hcontent, htypes, hdeclared, hschema, -⟩ := Edit.findsContent_iff_fields.mp hfinds
  have hmedia := h.inner_entry (h.inner_field (h.inner_of_field howner (by simp) hcontent) hcontent) htypes
    (List.mem_singleton_self _)
  exact ⟨hmedia, h.target_dereference (h.inner_field hmedia hdeclared).target hschema⟩

/-! ## Writes in a region -/

/-- Nodes may be added elsewhere. -/
theorem grow (hgrows : s.Grows s') : r.Closed site s' := by
  have hfield : ∀ {i key}, i < s.cells.size → s'.field? (.node i) key = s.field? (.node i) key := fun hi =>
    Store.field?_eq_of_shape_eq (hgrows.shape_eq fun j hj => Value.node.inj hj ▸ hi)
  have hcell : ∀ {i}, i ∈ r.inner ∨ i ∈ r.grouped → s'.cells[i]? = s.cells[i]? := fun hi => hgrows.agree _ (h.lt _ hi)
  have hputs : s.Puts (fun _ _ _ => False) s' := .grow hgrows
  have hcomponents := (Store.isObject_of_field? h.components_table).lt _ rfl
  refine ⟨fun i hi => (h.lt i hi).trans_le hgrows.size_le, fun i hi => (h.lt_group i hi).trans_le hgrows.size_le,
    fun i hi => (h.lt_content i hi).trans_le hgrows.size_le, h.apart,
    fun i cell w hi hget => ?_, fun i cell w hi hget => ?_, fun i cell w hi hget => ?_, fun i p hi hget => ?_,
    fun i hi key hkey => ?_, ?_, ?_, fun group x hget => ?_, hputs.isObject h.table⟩
  · exact h.part_inner i cell w hi (hcell (.inl hi) ▸ hget)
  · exact h.part_group i cell w hi (hgrows.agree i (h.lt_group i hi) ▸ hget)
  · exact h.part_content i cell w hi (hgrows.agree i (h.lt_content i hi) ▸ hget)
  · exact h.plain i p hi (hfield (h.lt i (.inl hi)) ▸ hget)
  · rw [hfield (h.lt i (.inr hi)), h.grouped i hi key hkey]
  · rw [hfield ((Store.isObject_of_field? h.root_components).lt _ rfl), h.root_components]
  · rw [hfield hcomponents, h.components_table]
  · exact h.components_group group x (hfield hcomponents ▸ hget)

/-- A value may be put into a node of the region or into one of those around it, if what is put there may stand there. -/
theorem put {entries : Entries Value} {key : String} (hcell : s.cells[i]? = some (.object entries))
    (hi : i ≠ site.root ∧ i ≠ site.components) (hinner : i ∈ r.inner → key ≠ referenceKey ∧ r.Inner v)
    (hgrouped : i ∈ r.grouped → key ∉ [referenceKey, "content"]) (hgroup : i ∈ site.groups → r.Target v)
    (hcontent : i ∈ site.contents → r.Inner v) :
    r.Closed site (s.set i (.object (entries.put (.text key) v))) := by
  have hputs : s.Puts (fun j k _ => j = i ∧ k = key) (s.set i (.object (entries.put (.text key) v))) :=
    .put hcell ⟨rfl, rfl⟩
  have hfield : ∀ {j : Nat} {k : String}, (j = i → k ≠ key) →
      (s.set i (.object (entries.put (.text key) v))).field? (.node j) k = s.field? (.node j) k := fun hne => by
    rw [Store.field?_set_put hcell, if_neg fun heq => hne (Value.node.inj heq.1) heq.2]
  -- A part is one from before, or what has been put.
  have hpart : ∀ {j cell w}, (s.set i (.object (entries.put (.text key) v))).cells[j]? = some cell → w ∈ cell.parts →
      (∃ before, s.cells[j]? = some before ∧ w ∈ before.parts) ∨ (j = i ∧ w = v) := by
    intro j cell w hget hmem
    rw [Store.cells_set] at hget
    split at hget
    · next heq =>
      obtain rfl := Option.some.inj hget
      rcases Entries.mem_values_put hmem with hold | rfl
      · exact .inl ⟨.object entries, heq.1 ▸ hcell, hold⟩
      · exact .inr ⟨heq.1, rfl⟩
    · exact .inl ⟨cell, hget, hmem⟩
  refine ⟨by simpa using h.lt, by simpa using h.lt_group, by simpa using h.lt_content, h.apart,
    fun j cell w hj hget hmem => ?_, fun j cell w hj hget hmem => ?_, fun j cell w hj hget hmem => ?_, fun j p hj hget => ?_, fun j hj k hk => ?_, ?_, ?_,
    fun group x hget => ?_, hputs.isObject h.table⟩
  · rcases hpart hget hmem with ⟨before, hbefore, hold⟩ | ⟨rfl, rfl⟩
    · exact h.part_inner j before w hj hbefore hold
    · exact (hinner hj).2
  · rcases hpart hget hmem with ⟨before, hbefore, hold⟩ | ⟨rfl, rfl⟩
    · exact h.part_group j before w hj hbefore hold
    · exact hgroup hj
  · rcases hpart hget hmem with ⟨before, hbefore, hold⟩ | ⟨rfl, rfl⟩
    · exact h.part_content j before w hj hbefore hold
    · exact hcontent hj
  · exact h.plain j p hj (hfield (fun heq => (hinner (heq ▸ hj)).1.symm) ▸ hget)
  · rw [hfield, h.grouped j hj k hk]
    rintro rfl rfl
    exact hgrouped hj hk
  · rw [hfield fun heq => absurd heq.symm hi.1, h.root_components]
  · rw [hfield fun heq => absurd heq.symm hi.2, h.components_table]
  · exact h.components_group group x (hfield (fun heq => absurd heq.symm hi.2) ▸ hget)

/-- A node over what is inside becomes one of those inside. -/
theorem add {cell : Cell} (hparts : ∀ w ∈ cell.parts, r.Inner w)
    (hplain : ∀ p, (s.add cell).2.field? (s.add cell).1 referenceKey = some (.text p) → Pointer.Plain p) :
    (r.addInner s.cells.size).Closed site (s.add cell).2 := by
  have hgrown := h.grow (.add s cell)
  have hlt : s.cells.size < (s.add cell).2.cells.size := by simp
  have hcomponents := (Store.isObject_of_field? h.components_table).lt _ rfl
  have hroot := (Store.isObject_of_field? h.root_components).lt _ rfl
  refine ⟨?_, hgrown.lt_group, hgrown.lt_content, ?_, ?_, fun i cell w hi hget hmem => ?_,
    fun i cell w hi hget hmem => ?_, ?_, hgrown.grouped, hgrown.root_components, hgrown.components_table,
    hgrown.components_group, hgrown.table⟩
  · rintro i ((rfl | hi) | hi)
    · exact hlt
    · exact hgrown.lt i (.inl hi)
    · exact hgrown.lt i (.inr hi)
  · rintro i ((rfl | hi) | hi)
    · exact ⟨by omega, by omega, fun hi => absurd (h.lt_group _ hi) (by omega),
        fun hi => absurd (h.lt_content _ hi) (by omega)⟩
    · exact h.apart i (.inl hi)
    · exact h.apart i (.inr hi)
  · rintro i cell' w (rfl | hi) hget hmem
    · rw [Store.cells_add, if_pos rfl, Option.some.injEq] at hget
      exact (hparts w (hget ▸ hmem)).within (r.within_addInner _)
    · exact (hgrown.part_inner i cell' w hi hget hmem).within (r.within_addInner _)
  · exact (hgrown.part_group i cell w hi hget hmem).within (r.within_addInner _)
  · exact (hgrown.part_content i cell w hi hget hmem).within (r.within_addInner _)
  · rintro i p (rfl | hi) hget
    · exact hplain p hget
    · exact hgrown.plain i p hi hget

/-- The schema of grouped parameters comes into the region. -/
theorem group {entries : Entries Value} (hcell : s.cells[i]? = some (.object entries))
    (hkeys : ∀ key ∈ [referenceKey, "content"], entries.get? key = none)
    (hi : i ≠ site.root ∧ i ≠ site.components ∧ i ∉ site.groups ∧ i ∉ site.contents) :
    (r.addGrouped i).Closed site s := by
  refine ⟨?_, h.lt_group, h.lt_content, ?_, h.part_inner, fun j cell w hj hget hmem => ?_, h.part_content, h.plain, ?_,
    h.root_components, h.components_table, h.components_group, h.table⟩
  · rintro j (hj | rfl | hj)
    · exact h.lt j (.inl hj)
    · exact Store.lt_size_of_cell hcell
    · exact h.lt j (.inr hj)
  · rintro j (hj | rfl | hj)
    · exact h.apart j (.inl hj)
    · exact hi
    · exact h.apart j (.inr hj)
  · exact (h.part_group j cell w hj hget hmem).within (r.within_addGrouped i)
  · rintro j (rfl | hj) key hkey
    · rw [Store.field?_node hcell, hkeys key hkey]
    · exact h.grouped j hj key hkey

end

end Region.Closed

end DeviceApi
