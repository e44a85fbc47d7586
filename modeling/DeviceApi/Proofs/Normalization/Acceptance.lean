import DeviceApi.Proofs.Api.Accepted
import DeviceApi.Proofs.Api.SchemaNames
import DeviceApi.Proofs.Api.Upheld
import DeviceApi.Proofs.Normalization.Responses

/-!
# Acceptance in a document

Whether an operation of a document can be classified is told by the document alone: just those operations are accepted
that have the form of operations, where references are plain and lead to no schema that the operation registers.
-/

namespace DeviceApi

theorem Tree.HasForm.inside {t u : Tree} (hform : u.HasForm) (h : t.Inside u) (hu : u.IsJson) : t.HasForm := by
  induction h with
  | refl => exact hform
  | item hmem _ ih => exact ih (Tree.hasForm_list.mp hform _ hmem) (Tree.areJson_iff.mp hu _ hmem)
  | entry he _ ih => exact ih ((Tree.hasForm_object hu.1).mp hform _ he) (Tree.entriesAreJson_iff.mp hu.2 _ he)

/-- An operation that has the form of operations is an object. -/
theorem Store.Conforms.isObject {s : Store} {root : Value} {op : Operation} (h : s.Conforms root op) :
    s.IsObject op.content := by
  obtain ⟨id, items, hlist, -⟩ := h.path
  by_contra hnot
  have hnone : s.entries? op.content = none := by
    rw [Option.eq_none_iff_forall_not_mem]
    exact fun fields hfields => hnot ((Store.entries?_eq_some.mp hfields).imp fun _ hid => ⟨fields, hid⟩)
  simp [declared, field?, hnone, shape] at hlist

namespace Edit

variable {D : Tree} {s : Store} {root T c : Nat} {v : Value} {table : SchemaTable} {op : Operation} {ops : List Operation}
  {entries : Entries Value}

/-- What is ordinary in an opened document holds a tree that stands in the document. -/
theorem Opened.exists_inside (h : Opened s root c T entries) (hD : D.IsJson) (hroot : (Store.empty.load D).1 = .node root)
    (hopen : Runs (openTable (.node root)) (Store.empty.load D).2 table s) (hnode : table.schemas = .node T)
    (hv : Ordinary s root c T entries v) (hhas : s.Has v) : ∃ u, u.Inside D ∧ s.Holds v u := by
  have htidy := Store.tidy_load hroot
  obtain ⟨-, c', -, after, -, -, hafter, -, hget, -, -, hagree⟩ := cells_openTable hopen htidy
  have hcomponents : after.get? "components" = some (.node c) := by
    obtain ⟨outer, houter, hget⟩ := h.gated.stands ⟨root, "components", c⟩ (mem_documentGates.mpr (.inr (.inl rfl)))
    obtain rfl : after = outer := by simpa using hafter.symm.trans houter
    exact hget
  obtain rfl : c' = c := by simpa using hget.symm.trans hcomponents
  -- Ordinary nodes are as they were when the document was loaded.
  have hkept : ∀ i, Ordinary s root c' T entries (.node i) → i < (Store.empty.load D).2.cells.size ∧
      s.cells[i]? = (Store.empty.load D).2.cells[i]? := by
    intro i hi
    have hlt : i < (Store.empty.load D).2.cells.size := by
      by_contra hnew
      rcases new_of_openTable hopen htidy (Nat.le_of_not_lt hnew) (hi.lt i rfl) with hc | hT
      · simp only [Store.field?, Store.entries?, Store.shape_node hafter, hget, Option.some.injEq] at hc
        exact hi.ne_components hc.symm
      · exact hi.ne_schemas (hT.symm.trans hnode)
    exact ⟨hlt, hagree i (fun heq => hi.ne_root (congrArg Value.node heq))
      (fun heq => hi.ne_components (congrArg Value.node heq)) hlt⟩
  have hbelow : ∀ {v id}, (Store.empty.load D).2.Reaches v id → Ordinary s root c' T entries v →
      s.cells[id]? = (Store.empty.load D).2.cells[id]? := by
    intro v id hid hv
    induction hid with
    | here id => exact (hkept id hv).2
    | part hcell hpart _ ih =>
      rw [← Cell.map_snd_places] at hpart
      obtain ⟨⟨key, w⟩, hplace, rfl⟩ := List.mem_map.mp hpart
      exact ih (h.ordinary_place hv ((hkept _ hv).2.trans hcell) hplace)
  have hinside : ∀ {i}, i < (Store.empty.load D).2.cells.size →
      ∃ u, u.Inside D ∧ (Store.empty.load D).2.Holds (.node i) u := by
    intro i hi
    obtain ⟨t, ht, hrest⟩ := (Store.houses_load hD Store.empty).exists_inside i (Nat.zero_le i) hi
    obtain rfl := List.mem_singleton.mp ht
    exact hrest
  rcases has_of_openTable hopen hhas with ⟨i, rfl⟩ | ⟨i, cell, hcell, hmem⟩
  · obtain ⟨u, hu, hheld⟩ := hinside (hkept i hv).1
    exact ⟨u, hu, hheld.frame fun id hid => hbelow hid hv⟩
  · obtain ⟨u, hu, hheld⟩ := hinside (Store.lt_size_of_cell hcell)
    obtain ⟨w, hw, hheld⟩ := hheld.exists_inside (hu.isJson hD) hcell hmem
    exact ⟨w, hw.trans hu, hheld.frame fun id hid => hbelow hid hv⟩

/-- The pointers that stand in what is ordinary are pointers of the document. -/
theorem Opened.mem_pointers {p : String} (h : Opened s root c T entries) (hD : D.IsJson)
    (hroot : (Store.empty.load D).1 = .node root)
    (hopen : Runs (openTable (.node root)) (Store.empty.load D).2 table s) (hnode : table.schemas = .node T)
    (hv : Ordinary s root c T entries v) (hp : s.field? v referenceKey = some (.text p)) : p ∈ D.pointers := by
  obtain ⟨i, fields, hfields, hget⟩ := Store.field?_eq_some.mp hp
  obtain ⟨rfl, hcell⟩ := Store.shape_eq_object.mp hfields
  obtain ⟨u, hu, hheld⟩ := h.exists_inside hD hroot hopen hnode hv (.inl ⟨i, rfl⟩)
  obtain ⟨target, htarget, hholds⟩ := hheld.field hcell hget
  obtain rfl : target = .text p := hholds.unique (Store.holds_scalar.mpr rfl)
  exact hu.mem_pointers htarget

end Edit

/-! ## Classifying an operation once more

An operation of a document that has been classified can be classified again, and this changes nothing: the schemas of its
parameters are made anew and take the place of those from before, which are as good, and all else is what it was.
-/

namespace Edit

variable {D : Tree} {s s' : Store} {root T c : Nat} {document : Value} {table : SchemaTable} {op : Operation} {u : Unit}
  {entries : Entries Value}

/-- What is known of a document is known after an operation has been classified in it. -/
theorem Placed.exists_gated (h : Placed s root c T entries table op) (hrun : Runs (classify (.node root) table op) s u s') :
    ∃ K, {i | i < s.cells.size} ⊆ K ∧ View.Gated root (documentGates root (entries.get? "paths") c T) ⟨s', K⟩ := by
  have hcontent : IsContent root (documentGates root (entries.get? "paths") c T) False ⟨s, {i | i < s.cells.size}⟩ op.content :=
    ⟨fun x hx => ⟨(h.content.writable x hx).1, (h.content.writable x hx).2.1, fun g hg =>
      (h.content.writable x hx).2.2 g (documentGates_subset hg)⟩, False.elim⟩
  obtain ⟨K, _, _, hstep, -⟩ := classifies_classify passage_documentGates h.node (owner_ne_schemas h.opened.gated)
    (fun _ _ hcrowded => absurd hcrowded (not_crowded_documentGates h.opened.gated)) h.opened.gated hcontent hrun
  exact ⟨K, hstep.known_sub, h.opened.gated_of_classifies hstep⟩

end Edit

end DeviceApi
