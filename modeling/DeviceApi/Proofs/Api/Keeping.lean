import DeviceApi.Proofs.Api.Region
import DeviceApi.Proofs.Api.Registered
import DeviceApi.Proofs.Schema.Stripped

/-!
# What a region keeps

Classification changes no reference of a region and no role. It only puts schemas into the table. So references end at
the same schemas as before, unless they pass through a name of the table that has been given another schema; and if
both schemas have the role of the name, they end at a schema with the same role.
-/

namespace DeviceApi

namespace Store

/-- The value is no reference, and it is tagged with the role. -/
structure HasRole (s : Store) (v : Value) (role : Role) : Prop where
  isReference_eq : s.isReference v = false
  field_eq : s.field? v roleKey = some (.text role.text)

/-- The references that begin with a value end at a schema with the role. -/
def EndsAs (s : Store) (root v : Value) (role : Role) : Prop := ∃ n w, s.Chain root n v w ∧ s.HasRole w role

variable {s s' : Store} {v : Value} {role role' : Role}

theorem HasRole.unique (h : s.HasRole v role) (h' : s.HasRole v role') : role = role' :=
  Role.text_injective (by simpa using h.field_eq.symm.trans h'.field_eq)

theorem isNull_eq_false (h : s.IsObject v) : s.isNull v = false := by
  obtain ⟨id, entries, hshape⟩ := h
  simp [isNull, hshape]

theorem isNull_of_size_le (h : s.isNull v = false) (hsize : s.cells.size ≤ s'.cells.size) : s'.isNull v = false := by
  cases v with
  | scalar a => exact h
  | node i =>
    by_cases hi : i < s'.cells.size
    · exact isNull_node (Array.getElem?_eq_getElem hi)
    · have hnone : s.cells[i]? = none := Array.getElem?_eq_none (by omega)
      simp [isNull, shape, hnone] at h

end Store

namespace Region

variable {r r' : Region} {site : Site} {names names' : Set String} {s s' s'' : Store} {v w : Value} {i n : Nat}
  {p : String} {role : Role}

/-- From one store to the other nothing changes in a region and around it but what stands in the table under some names
and what stands in the operations. -/
structure Keeps (r : Region) (site : Site) (names : Set String) (s s' : Store) : Prop where
  size_le : s.cells.size ≤ s'.cells.size
  components_eq : ∀ key : String, s'.field? (.node site.components) key = s.field? (.node site.components) key
  group_eq : ∀ i ∈ site.groups, i ≠ site.table → s'.cells[i]? = s.cells[i]?
  table_eq : ∀ name, name ∉ names → s'.field? (.node site.table) (.text name) = s.field? (.node site.table) (.text name)
  pointer_eq : ∀ v, r.Target v → s'.field? v referenceKey = s.field? v referenceKey
  role_eq : ∀ v (role : Role), r.Target v → s.field? v roleKey = some (.text role.text) →
    s'.field? v roleKey = some (.text role.text)

namespace Keeps

theorem refl : r.Keeps site names s s :=
  ⟨le_rfl, fun _ => rfl, fun _ _ _ => rfl, fun _ _ => rfl, fun _ _ => rfl, fun _ _ _ => id⟩

theorem trans (h : r.Keeps site names s s') (h' : r'.Keeps site names' s' s'') (hsub : r.Within r')
    (hnames : names' ⊆ names) : r.Keeps site names s s'' where
  size_le := h.size_le.trans h'.size_le
  components_eq key := (h'.components_eq key).trans (h.components_eq key)
  group_eq i hi hne := (h'.group_eq i hi hne).trans (h.group_eq i hi hne)
  table_eq name hname := (h'.table_eq name fun hmem => hname (hnames hmem)).trans (h.table_eq name hname)
  pointer_eq v hv := (h'.pointer_eq v (hv.within hsub)).trans (h.pointer_eq v hv)
  role_eq v role hv hrole := h'.role_eq v role (hv.within hsub) (h.role_eq v role hv hrole)

theorem of_empty (h : r.Keeps site ∅ s s') : r.Keeps site names s s' :=
  trans .refl h (.refl r) (Set.empty_subset _)

theorem grow (hs : r.Closed site s) (hgrows : s.Grows s') : r.Keeps site names s s' := by
  have hfield : ∀ {v key}, (∀ i, v = .node i → i < s.cells.size) → s'.field? v key = s.field? v key := fun hv =>
    Store.field?_eq_of_shape_eq (hgrows.shape_eq hv)
  have htarget : ∀ {v}, r.Target v → ∀ i, v = .node i → i < s.cells.size := fun hv i hi => hs.lt i (hv i hi)
  refine ⟨hgrows.size_le, fun key => hfield ?_, fun i hi _ => hgrows.agree i (hs.lt_group i hi),
    fun name _ => hfield hs.table.lt, fun v hv => hfield (htarget hv), fun v role hv hrole => ?_⟩
  · exact (Store.isObject_of_field? hs.components_table).lt
  · rw [hfield (htarget hv), hrole]

/-- No pointer is put anywhere, a role only where there is none or the same one, and something into the table only under
the names. -/
theorem put {entries : Entries Value} {key : String} (hcell : s.cells[i]? = some (.object entries))
    (hi : i ≠ site.components) (hgroup : i ∈ site.groups → i = site.table ∧ key ∈ names)
    (hkey : i ∈ r.inner ∨ i ∈ r.grouped → key ≠ referenceKey)
    (hrole : i ∈ r.inner ∨ i ∈ r.grouped → key = roleKey →
      ∀ role : Role, entries.get? roleKey = some (.text role.text) → v = .text role.text) :
    r.Keeps site names s (s.set i (.object (entries.put (.text key) v))) := by
  have hfield : ∀ {u : Value} {k : String}, (u = .node i → k ≠ key) →
      (s.set i (.object (entries.put (.text key) v))).field? u k = s.field? u k := fun hne => by
    rw [Store.field?_set_put hcell, if_neg fun heq => hne heq.1 heq.2]
  refine ⟨by simp, fun k => hfield fun heq => absurd (Value.node.inj heq).symm hi, fun j hj hne => ?_,
    fun name hname => hfield ?_, fun u hu => hfield fun heq => (hkey (hu i heq)).symm, fun u role htarget hu => ?_⟩
  · rw [Store.cells_set, if_neg]
    rintro ⟨rfl, -⟩
    exact hne (hgroup hj).1
  · rintro heq rfl
    obtain rfl := Value.node.inj heq
    exact hname (hgroup site.table_mem).2
  · by_cases heq : u = .node i ∧ roleKey = key
    · obtain ⟨rfl, rfl⟩ := heq
      rw [Store.field?_set_put hcell, if_pos ⟨rfl, rfl⟩, hrole (htarget i rfl) rfl role (Store.field?_node hcell ▸ hu)]
    · rw [hfield fun hui hk => heq ⟨hui, hk⟩, hu]

section

variable (h : r.Keeps site names s s')
include h

theorem isReference_eq (hv : r.Target v) : s'.isReference v = s.isReference v := by
  rw [Store.isReference_eq_isSome, Store.isReference_eq_isSome, h.pointer_eq v hv]

theorem hasRole (hv : r.Target v) (hrole : s.HasRole v role) : s'.HasRole v role :=
  ⟨(h.isReference_eq hv).trans hrole.isReference_eq, h.role_eq v role hv hrole.field_eq⟩

variable (hs : r.Closed site s) (hs' : r'.Closed site s')
include hs hs'

/-- A plain pointer leads where it led, unless it names a schema that has been put into the table. -/
theorem resolve (hp : Pointer.Plain p) (hnot : ∀ name ∈ names, p ≠ pointerTo name)
    (hw : s.resolve (.node site.root) p = .ok w) : s'.resolve (.node site.root) p = .ok w := by
  obtain ⟨group, name, rfl, hgroup, hname⟩ := hp
  obtain ⟨x, hx, hfield, hstep, hnull⟩ := (hs.resolve_iff hgroup hname).mp hw
  refine (hs'.resolve_iff hgroup hname).mpr
    ⟨x, hx, (h.components_eq group).trans hfield, ?_, Store.isNull_of_size_le hnull h.size_le⟩
  by_cases htable : x = site.table
  · obtain rfl := (hs.components_group group x hfield).2 htable
    subst htable
    rw [Store.step_eq_field? hs'.table, h.table_eq name fun hmem => hnot name hmem (pointerTo_eq name).symm]
    rw [Store.step_eq_field? hs.table] at hstep
    exact hstep
  · have hshape : s'.shape (.node x) = s.shape (.node x) := by simp only [Store.shape, h.group_eq x hx htable]
    rw [Store.step_eq_of_shape_eq hshape, hstep]

/-- A chain of references stays as it is if nothing is put into the table. -/
theorem chain (hnames : names = ∅) (hv : r.Target v) (hchain : s.Chain (.node site.root) n v w) :
    s'.Chain (.node site.root) n v w :=
  (hchain.transfer r.Target hv (fun v hv => ⟨h.isReference_eq hv, h.pointer_eq v hv⟩) fun v p u hv hp hu => by
    have hplain := hs.plain_pointer hv hp
    exact ⟨h.resolve hs hs' hplain (by simp [hnames]) hu, hs.target_resolve hplain hu⟩).1

/-- References that end at a schema with a role still do, if what has been put into the table has the role of what it is
put in place of. -/
theorem endsAs (role₀ : Role) (hsimple : ∀ name ∈ names, Pointer.Simple name)
    (hold : ∀ name ∈ names, ∀ u, s.field? (.node site.table) (.text name) = some u → s.HasRole u role₀)
    (hnew : ∀ name ∈ names, ∃ u, s'.field? (.node site.table) (.text name) = some u ∧ s'.HasRole u role₀)
    (hv : r.Target v) (hends : s.EndsAs (.node site.root) v role) : s'.EndsAs (.node site.root) v role := by
  obtain ⟨n, w, hchain, hrole⟩ := hends
  induction hchain with
  | nil hnot => exact ⟨0, _, .nil ((h.isReference_eq hv).trans hnot), h.hasRole hv hrole⟩
  | @cons n p v u w hpointer hresolve hchain ih =>
    have hplain := hs.plain_pointer hv hpointer
    have hpointer' := (h.pointer_eq v hv).trans hpointer
    by_cases hchanged : ∃ name ∈ names, p = pointerTo name
    · obtain ⟨name, hname, rfl⟩ := hchanged
      -- The chain ended at the schema that was in the table, and so the new one has the same role.
      have hold := hold name hname u ((hs.resolve_pointerTo_iff (hsimple name hname)).mp hresolve).1
      obtain ⟨-, rfl⟩ := hchain.unique (.nil hold.isReference_eq)
      obtain rfl := hrole.unique hold
      obtain ⟨u', hfield, hrole'⟩ := hnew name hname
      have hobject := Store.isObject_of_field? hrole'.field_eq
      exact ⟨1, u', .cons hpointer' ((hs'.resolve_pointerTo_iff (hsimple name hname)).mpr
        ⟨hfield, Store.isNull_eq_false hobject⟩) (.nil hrole'.isReference_eq), hrole'⟩
    · obtain ⟨m, w', hchain', hrole'⟩ := ih (hs.target_resolve hplain hresolve) hrole
      exact ⟨m + 1, w', .cons hpointer' (h.resolve hs hs' hplain (fun name hname heq => hchanged ⟨name, hname, heq⟩)
        hresolve) hchain', hrole'⟩

end

end Keeps

end Region

end DeviceApi
