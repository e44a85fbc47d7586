import DeviceApi.Proofs.Api.Acyclic
import DeviceApi.Proofs.Api.Chains
import DeviceApi.Proofs.Api.Plain

/-!
# Ordinary values

A value of a document is ordinary unless it stands on the way to the table or to an operation. What stands in an
ordinary value is ordinary, and so is what a plain pointer leads to, because it stands in a group of the components.
-/

namespace DeviceApi

namespace Store

variable {s s' : Store} {v w root : Value} {name group : String}

/-- A plain pointer leads to an entry of a group of the components. -/
theorem resolve_plain (hgroup : Pointer.Simple group) (hname : Pointer.Simple name) :
    s.resolve root ("#/components/" ++ group ++ "/" ++ name) = .ok w ↔
      ∃ components inner, s.step root "components" = .ok (some components) ∧ s.isNull components = false ∧
        s.step components group = .ok (some inner) ∧ s.isNull inner = false ∧
        s.step inner name = .ok (some w) ∧ s.isNull w = false := by
  have hend : ∀ {u : Value}, s.follow u [] = .ok (some w) ↔ u = w := by simp [follow]
  simp only [resolve_eq_ok, Pointer.steps?_eq hgroup hname, Option.some.injEq, exists_eq_left', follow_cons, hend]
  constructor
  · rintro ⟨components, h₁, h₂, inner, h₃, h₄, _, h₅, h₆, rfl⟩
    exact ⟨components, inner, h₁, h₂, h₃, h₄, h₅, h₆⟩
  · rintro ⟨components, inner, h₁, h₂, h₃, h₄, h₅, h₆⟩
    exact ⟨components, h₁, h₂, inner, h₃, h₄, w, h₅, h₆, rfl⟩

/-- What a step leads to stands in the value. -/
theorem place_of_step (h : s.step v name = .ok (some w)) :
    ∃ i cell key, v = .node i ∧ s.cells[i]? = some cell ∧ (key, w) ∈ cell.places ∧
      ∀ entries, cell = .object entries → entries.get? name = some w := by
  unfold step at h
  split at h
  · next id items hshape =>
    obtain ⟨rfl, hcell⟩ := shape_eq_list.mp hshape
    split at h
    · cases h
    · exact ⟨id, _, none, rfl, hcell, List.mem_map_of_mem (List.mem_of_getElem? (Except.ok.inj h)), by simp⟩
    · cases h
  · next id entries hshape =>
    obtain ⟨rfl, hcell⟩ := shape_eq_object.mp hshape
    have hget := Except.ok.inj h
    exact ⟨id, _, some (.text name), rfl, hcell, Cell.mem_places_object.mpr ⟨_, rfl, Entries.mem_of_get? hget⟩,
      fun _ heq => Cell.object.inj heq ▸ hget⟩
  · cases h

end Store

namespace Edit

variable {s t : Store} {root c T i : Nat} {entries : Entries Value} {v w : Value} {key : Option Scalar} {cell : Cell}

/-- The value does not stand on the way to the table or to an operation. -/
def Ordinary (s : Store) (root components schemas : Nat) (entries : Entries Value) (v : Value) : Prop :=
  View.Free root (deepGates s root (entries.get? "paths") components schemas) ⟨s, {i | i < s.cells.size}⟩ v

theorem ordinary_scalar (a : Scalar) : Ordinary s root c T entries (.scalar a) := View.free_scalar

theorem Ordinary.lt (hv : Ordinary s root c T entries v) : ∀ i, v = .node i → i < s.cells.size := fun i hi => (hv i hi).1

theorem Ordinary.ne_root (hv : Ordinary s root c T entries v) : v ≠ .node root := fun heq => (hv root heq).2.1 rfl

theorem Ordinary.ne_components (hv : Ordinary s root c T entries v) : v ≠ .node c := fun heq =>
  (hv c heq).2.2 ⟨root, "components", c⟩ (documentGates_subset (mem_documentGates.mpr (.inr (.inl rfl)))) rfl

theorem Ordinary.ne_schemas (hv : Ordinary s root c T entries v) : v ≠ .node T := fun heq =>
  (hv T heq).2.2 ⟨c, "schemas", T⟩ (documentGates_subset (mem_documentGates.mpr (.inr (.inr rfl)))) rfl

namespace Opened

variable (h : Opened s root c T entries)
include h

theorem ordinary_place (hv : Ordinary s root c T entries (.node i)) (hcell : s.cells[i]? = some cell)
    (hplace : (key, w) ∈ cell.places) : Ordinary s root c T entries w :=
  h.gated_deepGates.free_of_free passage_deepGates hv hcell hplace

/-- What an object holds under a key is ordinary if the object is. -/
theorem ordinary_field {key : Scalar} (hv : Ordinary s root c T entries v) (hfield : s.field? v key = some w) :
    Ordinary s root c T entries w := by
  obtain ⟨id, fields, hshape, hget⟩ := Store.field?_eq_some.mp hfield
  obtain ⟨rfl, hcell⟩ := Store.shape_eq_object.mp hshape
  obtain ⟨k, hk⟩ := Entries.exists_mem_of_get? hget
  exact h.ordinary_place hv hcell (Cell.mem_places_object.mpr ⟨k, rfl, hk⟩)

theorem ordinary_entry {id : Nat} {fields : Entries Value} {e : Scalar × Value} (hv : Ordinary s root c T entries v)
    (hshape : s.shape v = .object id fields) (he : e ∈ fields) : Ordinary s root c T entries e.2 := by
  obtain ⟨rfl, hcell⟩ := Store.shape_eq_object.mp hshape
  exact h.ordinary_place hv hcell (Cell.mem_places_object.mpr ⟨e.1, rfl, he⟩)

/-- What an object holds under a key stands nowhere else. -/
theorem place_of_field {x : Nat} {key' : String} (hfield : s.field? v key' = some (.node x)) (hx : s.Stands i key x) :
    v = .node i ∧ key = some (.text key') := by
  obtain ⟨j, fields, hshape, hget⟩ := Store.field?_eq_some.mp hfield
  obtain ⟨rfl, hcell⟩ := Store.shape_eq_object.mp hshape
  obtain ⟨rfl, rfl⟩ := h.tidy.unique _ _ _ _ _ hx (stands_of_get? hcell hget)
  exact ⟨rfl, rfl⟩

/-- The components stand in the root only, and the table in the components only. -/
theorem stands_components : s.Stands root (some (.text "components")) c := by
  obtain ⟨outer, houter, hget⟩ := h.gated.stands ⟨root, "components", c⟩ (mem_documentGates.mpr (.inr (.inl rfl)))
  exact stands_of_get? houter hget

theorem stands_schemas : s.Stands c (some (.text "schemas")) T := by
  obtain ⟨inner, hinner, hget⟩ := h.gated.stands ⟨c, "schemas", T⟩ (mem_documentGates.mpr (.inr (.inr rfl)))
  exact stands_of_get? hinner hget

theorem components_ne_root : c ≠ root := (ne_of_gated (h.gated.of_subset tableGates_subset)).1

theorem schemas_ne_root : T ≠ root := (ne_of_gated (h.gated.of_subset tableGates_subset)).2.1

theorem schemas_ne_components : T ≠ c := (ne_of_gated (h.gated.of_subset tableGates_subset)).2.2

theorem not_stands_components_self : ¬ s.Stands c key c := fun hstands =>
  h.components_ne_root (h.tidy.unique _ _ _ _ _ hstands h.stands_components).1

/-- A gate in the components is the table. -/
theorem node_eq_of_owner {g : Gate} (hg : g ∈ deepGates s root (entries.get? "paths") c T) (howner : g.owner = c) :
    g.node = T := by
  rcases hg with hg | ⟨p, hp, hg⟩
  · rcases mem_documentGates.mp hg with ⟨p, -, rfl⟩ | rfl | rfl
    · exact absurd howner.symm h.components_ne_root
    · exact absurd howner.symm h.components_ne_root
    · rfl
  · exact absurd howner (h.owner_ne hp hg (.inr (.inl ⟨h.stands_components, by decide⟩)))

/-- No gate stands in a group of the components. -/
theorem owner_ne_group {x : Nat} (hx : s.Stands c key x) {g : Gate}
    (hg : g ∈ deepGates s root (entries.get? "paths") c T) : g.owner ≠ x := by
  rintro rfl
  rcases passage_deepGates.owner g hg with heq | ⟨g', hg', heq⟩
  · exact (h.tidy.inside _ _ _ hx).2 heq
  · obtain ⟨fields, hcell, hget⟩ := h.stands_deepGates hg'
    have hstands := stands_of_get? hcell hget
    rw [heq] at hstands
    have hnode := h.node_eq_of_owner hg' (h.tidy.unique _ _ _ _ _ hstands hx).1
    exact h.owner_ne_table hg (heq.symm.trans hnode)

/-- What stands in a group of the components is ordinary. -/
theorem ordinary_of_group {x : Nat} {key' : Option Scalar} (hx : s.Stands c key x) (hcell : s.cells[x]? = some cell)
    (hplace : (key', w) ∈ cell.places) : Ordinary s root c T entries w :=
  h.gated_deepGates.free_of_not_owner (Store.lt_size_of_cell hcell) (fun _ hg => h.owner_ne_group hx hg) hcell hplace

/-- The components are where the root says. -/
theorem step_root : s.step (.node root) "components" = .ok (some (.node c)) := by
  obtain ⟨outer, houter, hget⟩ := h.gated.stands ⟨root, "components", c⟩ (mem_documentGates.mpr (.inr (.inl rfl)))
  rw [Store.step_object houter, hget]

/-- A plain pointer leads to what stands under its last step in a group of the components. -/
theorem group_of_resolve {p : String} (hp : Pointer.Plain p) (hresolve : s.resolve (.node root) p = .ok w) :
    ∃ group name x cell, p = "#/components/" ++ group ++ "/" ++ name ∧ Pointer.Simple group ∧ Pointer.Simple name ∧
      s.Stands c (some (.text group)) x ∧ s.cells[x]? = some cell ∧
        ∃ key, (key, w) ∈ cell.places ∧ (key = none ∨ key = some (.text name)) := by
  obtain ⟨group, name, rfl, hgroup, hname⟩ := hp
  obtain ⟨components, inner, hroot, -, hstep, -, hstep', -⟩ := (Store.resolve_plain hgroup hname).mp hresolve
  obtain rfl : .node c = components := by
    rw [h.step_root] at hroot
    exact Option.some.inj (Except.ok.inj hroot)
  obtain ⟨inner, hinner, -⟩ := h.gated.stands ⟨c, "schemas", T⟩ (mem_documentGates.mpr (.inr (.inr rfl)))
  rw [Store.step_object hinner, Except.ok.injEq] at hstep
  obtain ⟨x, cell, key, rfl, hcell, hplace, hget⟩ := Store.place_of_step hstep'
  refine ⟨group, name, x, cell, rfl, hgroup, hname, stands_of_get? hinner hstep, hcell, ?_⟩
  cases cell with
  | object others => exact ⟨_, Cell.mem_places_object.mpr ⟨_, rfl, Entries.mem_of_get? (hget others rfl)⟩, .inr rfl⟩
  | list items =>
    obtain ⟨_, -, heq⟩ := List.mem_map.mp hplace
    exact ⟨key, hplace, .inl (congrArg Prod.fst heq).symm⟩
  | pair a b => exact ⟨key, hplace, .inl (by rcases List.mem_pair.mp hplace with heq | heq <;> exact congrArg Prod.fst heq)⟩
  | set members => cases hplace

theorem ordinary_resolve {p : String} (hp : Pointer.Plain p) (hresolve : s.resolve (.node root) p = .ok w) :
    Ordinary s root c T entries w := by
  obtain ⟨_, _, x, cell, -, -, -, hx, hcell, key, hplace, -⟩ := h.group_of_resolve hp hresolve
  exact h.ordinary_of_group hx hcell hplace

end Opened

end Edit

end DeviceApi
