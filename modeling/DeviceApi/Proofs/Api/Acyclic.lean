import DeviceApi.Proofs.Api.Classified

/-!
# Classification brings in no cycle

An operation is given a copy of the reference to its schema, and a reference may hold more than a
pointer. No node is put inside of itself by this: the items of the paths and what operations contain
are gates as well, so nothing that is put anywhere leads back to an operation.
-/

namespace DeviceApi

namespace Edit

/-- The items of the paths, which are the node `p`, and what the operations in them contain. -/
inductive OperationGate (s : Store) (p : Nat) : Gate → Prop
  | item {paths : Entries Value} {key : String} {x : Nat} (hpaths : s.cells[p]? = some (.object paths))
      (hget : paths.get? (.text key) = some (.node x)) : OperationGate s p ⟨p, key, x⟩
  | content {paths methods : Entries Value} {key : String} {method : Method} {i x : Nat}
      (hpaths : s.cells[p]? = some (.object paths)) (hget : paths.get? (.text key) = some (.node i))
      (hmethods : s.cells[i]? = some (.object methods))
      (hx : methods.get? (.text method.text) = some (.node x)) : OperationGate s p ⟨i, method.text, x⟩

/-- The gates of a document together with those on the way to its operations. -/
def deepGates (s : Store) (root : Nat) (paths : Option Value) (components schemas : Nat) : Set Gate :=
  documentGates root paths components schemas ∪
    {g | ∃ p, paths = some (.node p) ∧ OperationGate s p g}

variable {root T c p x : Nat} {s s' t : Store} {K : Set Nat} {n : Nat} {g : Gate} {value : Option Value}
  {table : SchemaTable} {names : Option MethodNames} {registered entries paths : Entries Value}

theorem documentGates_subset : documentGates root value c T ⊆ deepGates s root value c T :=
  Set.subset_union_left

/-- An operation gate stands at its place. -/
theorem OperationGate.stands (h : OperationGate s p g) : ∃ entries : Entries Value,
    s.cells[g.owner]? = some (.object entries) ∧ entries.get? (.text g.key) = some (.node g.node) := by
  cases h with
  | item hpaths hget => exact ⟨_, hpaths, hget⟩
  | content _ _ hmethods hx => exact ⟨_, hmethods, hx⟩

/-- An operation gate stands in the paths or in an item of the paths. -/
theorem OperationGate.owner (h : OperationGate s p g) :
    g.owner = p ∨ ∃ key, s.Stands p (some (.text key)) g.owner := by
  cases h with
  | item hpaths hget => exact .inl rfl
  | @content paths methods key method i x hpaths hget _ _ =>
    exact .inr ⟨key, (Store.stands_object hpaths).mpr ⟨_, rfl, Entries.mem_of_get? hget⟩⟩

theorem stands_of_get? {i : Nat} {key : String} (hcell : s.cells[i]? = some (.object entries))
    (hget : entries.get? (.text key) = some (.node x)) : s.Stands i (some (.text key)) x :=
  (Store.stands_object hcell).mpr ⟨_, rfl, Entries.mem_of_get? hget⟩

theorem passage_deepGates : Passage root (deepGates s root value c T) where
  owner g hg := by
    rcases hg with hg | ⟨p, rfl, hg⟩
    · exact (passage_documentGates.owner g hg).imp_right fun ⟨g', hg', heq⟩ => ⟨g', .inl hg', heq⟩
    · refine .inr ?_
      cases hg with
      | item hpaths hget => exact ⟨⟨root, "paths", p⟩, .inl (.inl ⟨p, rfl, rfl⟩), rfl⟩
      | content hpaths hget hmethods hx => exact ⟨_, .inr ⟨p, rfl, .item hpaths hget⟩, rfl⟩
  key g hg := by
    rcases hg with hg | ⟨p, rfl, hg⟩
    · exact .inl (List.mem_append_left _ (key_mem_wayKeys hg))
    · cases hg with
      | item hpaths hget => exact .inr (.inl (.inl ⟨p, rfl, rfl⟩))
      | content hpaths hget hmethods hx =>
        refine .inl (List.mem_append_right _ (List.mem_map_of_mem ?_))
        rename_i method _ _
        cases method <;> decide

namespace Opened

variable (h : Opened s root c T entries)
include h

/-- A gate of the document, or one on the way to an operation, stands at its place. -/
theorem stands_deepGates (hg : g ∈ deepGates s root (entries.get? "paths") c T) :
    ∃ entries : Entries Value, s.cells[g.owner]? = some (.object entries) ∧
      entries.get? (.text g.key) = some (.node g.node) := by
  rcases hg with hg | ⟨p, -, hg⟩
  · exact h.gated.stands g hg
  · exact hg.stands

theorem gated_deepGates : View.Gated root (deepGates s root (entries.get? "paths") c T)
    ⟨s, {i | i < s.cells.size}⟩ := .of_tidy h.tidy fun _ => h.stands_deepGates

/-- Where the paths stand. -/
theorem stands_paths (hp : entries.get? "paths" = some (.node p)) :
    s.Stands root (some (.text "paths")) p := stands_of_get? h.cell hp

/-- The owner of an operation gate is neither the root nor a node on the way to the table. -/
theorem owner_ne (hp : entries.get? "paths" = some (.node p)) (hg : OperationGate s p g) {i : Nat}
    {key : String} (hi : i = root ∨ s.Stands root (some (.text key)) i ∧ key ≠ "paths" ∨
      ∃ j, s.Stands j (some (.text key)) i ∧ j ≠ root ∧ j ≠ p) : g.owner ≠ i := by
  have hpaths := h.stands_paths hp
  have hroot : ∀ {j key x}, s.Stands j key x → x ≠ root := fun hx => (h.tidy.inside _ _ _ hx).2
  rcases hg.owner with howner | ⟨key', hitem⟩
  · rw [howner]
    rintro rfl
    rcases hi with rfl | ⟨hi, hkey⟩ | ⟨j, hi, hj, -⟩
    · exact hroot hpaths rfl
    · exact hkey (by simpa using (h.tidy.unique _ _ _ _ _ hi hpaths).2)
    · exact hj (h.tidy.unique _ _ _ _ _ hi hpaths).1
  · intro heq
    rcases hi with rfl | ⟨hi, hkey⟩ | ⟨j, hi, -, hj⟩
    · exact hroot hitem heq
    · exact hroot hpaths (h.tidy.unique _ _ _ _ _ (heq ▸ hitem) hi).1
    · exact hj (h.tidy.unique _ _ _ _ _ hi (heq ▸ hitem)).1

/-- No gate stands in the table. -/
theorem owner_ne_table (hg : g ∈ deepGates s root (entries.get? "paths") c T) : g.owner ≠ T := by
  rcases hg with hg | ⟨p, hp, hg⟩
  · exact owner_ne_schemas h.gated g hg
  · obtain ⟨-, hschemas, -⟩ := ne_of_gated (h.gated.of_subset tableGates_subset)
    obtain ⟨hroot, -, -⟩ := ne_of_gated (h.gated.of_subset tableGates_subset)
    obtain ⟨hp', -⟩ := paths_ne_of_gated (hp ▸ h.gated)
    obtain ⟨inner, hcell, hget⟩ := h.gated.stands ⟨c, "schemas", T⟩ (mem_documentGates.mpr (.inr (.inr rfl)))
    exact h.owner_ne hp hg (.inr (.inr ⟨c, stands_of_get? hcell hget, hroot, hp'.symm⟩))

/-- Gates stand in the paths only if these are the paths of the document. -/
theorem get?_paths_of_crowded (hx : Crowded root (deepGates s root (entries.get? "paths") c T) x) :
    entries.get? "paths" = some (.node x) := by
  rcases hx.1 with hg | ⟨p, hp, hg⟩
  · rcases mem_documentGates.mp hg with ⟨p, hp, heq⟩ | heq | heq
    · obtain rfl : x = p := by simpa using heq
      exact hp
    · simp at heq
    · simp at heq
  · exact absurd rfl (h.owner_ne hp hg (.inl rfl : root = root ∨ s.Stands root (some (.text "paths")) root ∧ _ ∨ _))

/-- If all operations can be classified, the paths are neither a schema nor a parameter. -/
theorem quiet (hnode : table.schemas = .node T)
    (hall : Runs (visitOperations (.node root) (classifyAndName (.node root) table names)) s n s') :
    Quiet root (deepGates s root (entries.get? "paths") c T) s := by
  intro x paths hx hcell
  have hshape : s.shape ((entries.get? "paths").getD .null) = .object x paths := by
    rw [h.get?_paths_of_crowded hx]
    exact Store.shape_node hcell
  have hnot : ∀ {key a : String}, key ∉ classificationKeys → a ≠ "" →
      paths.get? (.text key) ≠ some (.scalar (.text a)) := by
    intro key a hkey ha hget
    have hfalse := h.not_isTruthy_of_paths hnode hshape hall hkey hget
    simp [Scalar.isTruthy, ha] at hfalse
  exact ⟨hnot (by decide) (by decide), hnot (by decide) (by decide), hnot (by decide) (by decide)⟩

/-- What a declared operation contains is a gate into which something may be put. -/
theorem isContent {op : Operation} (hdocument : s.paths (.node root) = .ok paths)
    (hop : s.Declares paths op) (hx : op.content = .node x) :
    IsContent root (deepGates s root (entries.get? "paths") c T) True
      ⟨s, {i | i < s.cells.size}⟩ op.content := by
  obtain ⟨entries', hentries, hpaths⟩ := Store.paths_eq_ok.mp hdocument
  obtain rfl : entries = entries' := by
    simpa [Store.entries?_eq_some.mpr ⟨_, Store.shape_node h.cell⟩] using hentries
  obtain ⟨⟨key, item⟩, he, -, methods, hmethods, hget⟩ := hop
  split at hpaths
  case isFalse => simp [hpaths] at he
  obtain ⟨p, hshape⟩ := Store.entries?_eq_some.mp hpaths
  obtain ⟨hp, hcell⟩ := Store.shape_eq_object.mp hshape
  rw [Store.getD_eq_node] at hp
  obtain ⟨i, hshape'⟩ := Store.entries?_eq_some.mp hmethods
  obtain ⟨rfl, hcell'⟩ := Store.shape_eq_object.mp hshape'
  obtain ⟨key, rfl⟩ := (h.textKeyed p paths hcell).exists_text key (List.mem_map_of_mem he)
  have hgetItem := Entries.get?_of_mem (h.textKeyed p paths hcell).nodup he
  rw [hx] at hget ⊢
  have hstands : s.Stands i (some (.text op.method.text)) x := stands_of_get? hcell' hget
  have hitem : s.Stands p (some (.text key)) i := stands_of_get? hcell hgetItem
  have hpaths := h.stands_paths hp
  have hcontent : OperationGate s p ⟨i, op.method.text, x⟩ := .content hcell hgetItem hcell' hget
  have hiroot : i ≠ root := (h.tidy.inside _ _ _ hitem).2
  have hip : i ≠ p := by
    rintro rfl
    exact hiroot ((h.tidy.unique _ _ _ _ _ hitem hpaths).1)
  refine ⟨?_, fun _ => ⟨_, .inr ⟨p, hp, hcontent⟩, rfl⟩⟩
  intro y hy
  obtain rfl : x = y := by simpa using hy
  refine ⟨(h.tidy.inside _ _ _ hstands).1, (h.tidy.inside _ _ _ hstands).2, fun g hg => ⟨?_, ?_⟩⟩
  · rintro rfl
    -- The owner of the gate would stand in the item.
    rcases hg with hg | ⟨p', hp', hg⟩
    · rcases (passage_documentGates.owner g hg) with hroot | ⟨g', hg', heq⟩
      · exact (h.tidy.inside _ _ _ hstands).2 hroot
      · obtain ⟨_, hcell'', hget''⟩ := h.gated.stands g' hg'
        have hkey := (h.tidy.unique _ _ _ _ _ (heq ▸ stands_of_get? hcell'' hget'') hstands).2
        have hway := key_mem_wayKeys hg'
        simp only [Option.some.injEq, Scalar.text.injEq] at hkey
        exact (method_text_notMem op.method).2 (hkey ▸ hway)
    · obtain rfl : p = p' := by simpa [hp] using hp'
      rcases hg.owner with howner | ⟨key', hitem'⟩
      · exact hiroot (h.tidy.unique _ _ _ _ _ hstands (howner ▸ hpaths)).1
      · exact hip (h.tidy.unique _ _ _ _ _ hstands hitem').1
  · rintro rfl
    obtain ⟨_, hcell'', hget''⟩ := h.stands_deepGates hg
    have heq := h.tidy.unique _ _ _ _ _ (stands_of_get? hcell'' hget'') hstands
    have hkey : g.key = op.method.text := by simpa using heq.2
    exact hkey ▸ (method_text_notMem op.method).2

variable (hnode : table.schemas = .node T)
include hnode

/-- The classification of a declared operation consists of strict writes. -/
theorem classifies_operation {K : Set Nat} {op : Operation} {u : Unit}
    (hall : Runs (visitOperations (.node root) (classifyAndName (.node root) table names)) s n s')
    (hdocument : s.paths (.node root) = .ok paths) (hop : s.Declares paths op)
    (hstep : Classifies root (deepGates s root (entries.get? "paths") c T) True T
      ⟨s, {i | i < s.cells.size}⟩ registered ⟨t, K⟩)
    {t' : Store} (hrun : Runs (classifyAndName (.node root) table names op) t u t') :
    ∃ K' path, ∃ rest : Entries Value,
      Classifies root (deepGates s root (entries.get? "paths") c T) True T ⟨t, K⟩
        ((.text (op.schemaName .path), path) :: rest) ⟨t', K'⟩ ∧
      (∃ x, path = .node x ∧ t.cells.size ≤ x) ∧
      rest.keys.Sublist [.text (op.schemaName .request), .text (op.schemaName .response)] := by
  have howner : ∀ g ∈ deepGates s root (entries.get? "paths") c T, g.owner ≠ T := fun _ =>
    h.owner_ne_table
  have hquiet := hstep.quiet howner passage_deepGates h.gated_deepGates (h.quiet hnode hall)
  obtain ⟨x, hx⟩ : ∃ x, op.content = .node x := by
    obtain ⟨_, t₁, hclassify, -⟩ := runs_bind.mp hrun
    obtain ⟨x, _, hshape, -⟩ := filled_of_classify hclassify
    exact ⟨x, (Store.shape_eq_object.mp hshape).1⟩
  exact classifies_classifyAndName passage_deepGates hnode howner hquiet
    (hstep.gated howner h.gated_deepGates passage_deepGates)
    ((h.isContent hdocument hop hx).mono hstep.known_sub) hrun

end Opened

end Edit

end DeviceApi
