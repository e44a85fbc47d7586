import DeviceApi.Proofs.Document.Frames
import DeviceApi.Proofs.Schema.Table

/-!
# Trees inside a tree

The nodes of a document that has been loaded hold the trees that stand in the document. Opening its table adds two empty
objects at most, and no scalar.
-/

namespace DeviceApi

namespace Tree

variable {t u v : Tree}

/-- The tree is another one, or stands in it. -/
inductive Inside (t : Tree) : Tree → Prop
  | refl : Inside t t
  | item {items : List Tree} {u : Tree} (hu : u ∈ items) (h : Inside t u) : Inside t (.list items)
  | entry {entries : List (Scalar × Tree)} {e : Scalar × Tree} (he : e ∈ entries) (h : Inside t e.2) :
      Inside t (.object entries)

theorem Inside.trans (h : t.Inside u) (h' : u.Inside v) : t.Inside v := by
  induction h' with
  | refl => exact h
  | item hu _ ih => exact .item hu ih
  | entry he _ ih => exact .entry he ih

theorem Inside.isJson (h : t.Inside u) (hu : u.IsJson) : t.IsJson := by
  induction h with
  | refl => exact hu
  | item hmem _ ih => exact ih (areJson_iff.mp hu _ hmem)
  | entry he _ ih => exact ih (entriesAreJson_iff.mp hu.2 _ he)

mutual

/-- The pointers of the references in a tree. -/
def pointers : Tree → List String
  | .list items => pointersOfItems items
  | .object entries => ((Entries.get? referenceKey entries).bind text?).toList ++ pointersOfEntries entries
  | _ => []

/-- The pointers of the references in the items of a list. -/
def pointersOfItems : List Tree → List String
  | [] => []
  | item :: rest => pointers item ++ pointersOfItems rest

/-- The pointers of the references in the values of an object. -/
def pointersOfEntries : List (Scalar × Tree) → List String
  | [] => []
  | (_, value) :: rest => pointers value ++ pointersOfEntries rest

end

theorem pointersOfItems_eq (items : List Tree) : pointersOfItems items = items.flatMap pointers := by
  induction items with
  | nil => rfl
  | cons t ts ih => rw [pointersOfItems, ih, List.flatMap_cons]

theorem pointersOfEntries_eq (entries : List (Scalar × Tree)) :
    pointersOfEntries entries = entries.flatMap fun e => pointers e.2 := by
  induction entries with
  | nil => rfl
  | cons e rest ih => rw [pointersOfEntries, ih, List.flatMap_cons]

/-- The pointer of a reference that stands in a tree is among its pointers. -/
theorem Inside.mem_pointers {p : String} (h : t.Inside u) (hp : t.field? referenceKey = some (.text p)) :
    p ∈ u.pointers := by
  induction h with
  | refl =>
    cases t with
    | object entries =>
      have hget : Entries.get? referenceKey entries = some (.text p) := hp
      simp [pointers, hget, text?]
    | _ => cases hp
  | item hmem _ ih =>
    rw [pointers, pointersOfItems_eq]
    exact List.mem_flatMap.mpr ⟨_, hmem, ih⟩
  | entry he _ ih =>
    exact List.mem_append_right _ (pointersOfEntries_eq _ ▸ List.mem_flatMap.mpr ⟨_, he, ih⟩)

end Tree

namespace Store

variable {s : Store} {t : Tree} {v : Value} {i : Nat} {cell : Cell}

/-- What stands in a node holds a tree that stands in the tree of the node. -/
theorem Holds.exists_inside (h : s.Holds (.node i) t) (ht : t.IsJson) (hcell : s.cells[i]? = some cell)
    (hv : v ∈ cell.parts) : ∃ u, u.Inside t ∧ s.Holds v u := by
  cases t with
  | scalar a => cases holds_scalar.mp h
  | list items =>
    obtain ⟨_, values, heq, hvalues, hall⟩ := holds_list.mp h
    obtain rfl := Value.node.inj heq
    obtain rfl := Option.some.inj (hvalues.symm.trans hcell)
    obtain ⟨u, hu, hheld⟩ := exists_mem_of_forall₂ hall hv
    exact ⟨u, .item hu .refl, hheld⟩
  | object entries =>
    obtain ⟨_, values, heq, hvalues, hall⟩ := holds_object.mp h
    obtain rfl := Value.node.inj heq
    obtain rfl := Option.some.inj (hvalues.symm.trans hcell)
    obtain ⟨e, he, rfl⟩ := List.mem_map.mp hv
    obtain ⟨f, hf, -, hheld⟩ := exists_mem_of_forall₂ hall he
    exact ⟨f.2, .entry hf .refl, hheld⟩
  | pair | set | enclosing => exact ht.elim

/-- The nodes that have been added hold trees that stand in some trees. -/
structure Houses (s s' : Store) (trees : List Tree) : Prop extends s.Grows s' where
  exists_inside : ∀ i, s.cells.size ≤ i → i < s'.cells.size → ∃ t ∈ trees, ∃ u, u.Inside t ∧ s'.Holds (.node i) u

namespace Houses

variable {s' s'' : Store} {trees : List Tree}

theorem refl : Houses s s trees := ⟨.refl s, fun i hi hlt => absurd hlt (by omega)⟩

theorem cons (h : Houses s s' [t]) (h' : Houses s' s'' trees) : Houses s s'' (t :: trees) where
  toGrows := h.toGrows.trans h'.toGrows
  exists_inside i hi hlt := by
    by_cases hold : i < s'.cells.size
    · obtain ⟨t', ht', u, hu, hheld⟩ := h.exists_inside i hi hold
      obtain rfl := List.mem_singleton.mp ht'
      exact ⟨t', List.mem_cons_self, u, hu, hheld.extend h'.toGrows⟩
    · obtain ⟨t', ht', hrest⟩ := h'.exists_inside i (by omega) hlt
      exact ⟨t', List.mem_cons_of_mem _ ht', hrest⟩

/-- A node is added for a tree over what has been added for the trees in it. -/
theorem add (h : Houses s s' trees) (hinside : ∀ u ∈ trees, u.Inside t)
    (hholds : (s'.add cell).2.Holds (s'.add cell).1 t) : Houses s (s'.add cell).2 [t] where
  toGrows := h.toGrows.trans (.add s' cell)
  exists_inside i hi hlt := by
    refine ⟨t, List.mem_singleton_self t, ?_⟩
    by_cases hold : i < s'.cells.size
    · obtain ⟨t', ht', u, hu, hheld⟩ := h.exists_inside i hi hold
      exact ⟨u, hu.trans (hinside t' ht'), hheld.extend (.add s' cell)⟩
    · rw [size_add] at hlt
      obtain rfl : i = s'.cells.size := by omega
      exact ⟨t, .refl, hholds⟩

end Houses

/-- Every node that is added for a tree holds a tree that stands in it. -/
theorem houses_load (ht : t.IsJson) (s : Store) : Houses s (s.load t).2 [t] := by
  induction t using Tree.inductionOn generalizing s with
  | scalar a => exact .refl
  | list items ih =>
    have hitems : Houses s (s.loadItems items).2 items := by
      have hjson := Tree.areJson_iff.mp ht
      clear ht
      induction items generalizing s with
      | nil => exact .refl
      | cons t ts ihs =>
        exact (ih t List.mem_cons_self (hjson t List.mem_cons_self) s).cons
          (ihs (fun t ht => ih t (List.mem_cons_of_mem _ ht)) _ fun t ht => hjson t (List.mem_cons_of_mem _ ht))
    exact hitems.add (fun u hu => .item hu .refl) (holds_load ht s)
  | object entries ih =>
    have hentries : Houses s (s.loadEntries entries).2 (entries.map Prod.snd) := by
      have hjson := Tree.entriesAreJson_iff.mp ht.2
      clear ht
      induction entries generalizing s with
      | nil => exact .refl
      | cons e rest ihs =>
        exact (ih e List.mem_cons_self (hjson e List.mem_cons_self) s).cons
          (ihs (fun e he => ih e (List.mem_cons_of_mem _ he)) _ fun e he => hjson e (List.mem_cons_of_mem _ he))
    refine hentries.add (fun u hu => ?_) (holds_load ht s)
    obtain ⟨e, he, rfl⟩ := List.mem_map.mp hu
    exact .entry he .refl
  | pair | set | enclosing => exact ht.elim

/-- The value is a node or stands in one. -/
def Has (s : Store) (v : Value) : Prop :=
  (∃ i, v = .node i) ∨ ∃ (i : Nat) (cell : Cell), s.cells[i]? = some cell ∧ v ∈ cell.parts

end Store

namespace Edit

variable {s s' : Store} {root i : Nat} {owner v w : Value} {key : Scalar} {table : SchemaTable}

/-- A field that is filled with a new object adds no scalar. -/
theorem has_of_fieldOrNew (h : Runs (fieldOrNew owner key) s w s') (hv : s'.Has v) : s.Has v := by
  obtain ⟨id, entries, hshape, ⟨-, rfl⟩ | ⟨-, rfl, rfl⟩⟩ := runs_fieldOrNew h
  · exact hv
  obtain ⟨-, hold⟩ := Store.shape_eq_object.mp hshape
  obtain hnode | ⟨i, cell, hcell, hmem⟩ := hv
  · exact .inl hnode
  rw [Store.cells_set, Store.cells_add, Store.size_add] at hcell
  split at hcell
  · obtain rfl := Option.some.inj hcell
    rcases Entries.mem_values_put hmem with hmem | rfl
    · exact .inr ⟨id, _, hold, hmem⟩
    · exact .inl ⟨_, rfl⟩
  · split at hcell
    · obtain rfl := Option.some.inj hcell
      cases hmem
    · exact .inr ⟨i, cell, hcell, hmem⟩

theorem has_of_openTable (h : Runs (openTable (.node root)) s table s') (hv : s'.Has v) : s.Has v := by
  simp only [openTable, runs_bind, runs_pure] at h
  obtain ⟨_, s₁, hcomponents, _, s₂, hschemas, rfl, rfl⟩ := h
  exact has_of_fieldOrNew hcomponents (has_of_fieldOrNew hschemas hv)

theorem eq_of_fieldOrNew (h : Runs (fieldOrNew owner key) s w s') (hi : s.cells.size ≤ i) (hlt : i < s'.cells.size) :
    w = .node i := by
  obtain ⟨_, _, -, ⟨-, rfl⟩ | ⟨-, rfl, rfl⟩⟩ := runs_fieldOrNew h
  · omega
  · rw [Store.size_set, Store.size_add] at hlt
    rw [show i = s.cells.size by omega]

/-- Opening the table adds no other nodes than the components and the table. -/
theorem new_of_openTable (h : Runs (openTable (.node root)) s table s') (htidy : s.Tidy root) (hi : s.cells.size ≤ i)
    (hlt : i < s'.cells.size) : s'.field? (.node root) "components" = some (.node i) ∨ table.schemas = .node i := by
  simp only [openTable, runs_bind, runs_pure] at h
  obtain ⟨w, s₁, hcomponents, schemas, s₂, hschemas, rfl, rfl⟩ := h
  by_cases hold : i < s₁.cells.size
  · obtain rfl := eq_of_fieldOrNew hcomponents hi hold
    obtain ⟨htidy₁, ⟨before, after, -, hafter, hget, -⟩, -⟩ := tidy_fieldOrNew hcomponents htidy
    obtain ⟨-, -, hagree⟩ := tidy_fieldOrNew hschemas htidy₁
    have hstands : s₁.Stands root (some (.text "components")) i :=
      (Store.stands_object hafter).mpr ⟨_, rfl, Entries.mem_of_get? hget⟩
    have hroot := (hagree root (htidy₁.inside _ _ _ hstands).2.symm htidy₁.root_lt).trans hafter
    exact .inl (by simp [Store.field?, Store.entries?, Store.shape_node hroot, hget])
  · exact .inr (eq_of_fieldOrNew hschemas (by omega) hlt)

end Edit

end DeviceApi
