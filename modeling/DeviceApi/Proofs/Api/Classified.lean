import DeviceApi.Proofs.Api.Steps
import DeviceApi.Proofs.Api.Visit

/-!
# Classification of a document

Classification changes neither the paths of a document nor what counts as a method in them. So it
visits the operations that the document had in the beginning, one after the other.
-/

namespace DeviceApi

variable {root T : Nat} {gates : Set Gate} {registered : Entries Value} {v : Value}

/-- Methods are declared under keys that classification does not write and that are not on the way to
the table. -/
theorem method_text_notMem (method : Method) :
    method.text ∉ classificationKeys ∧ method.text ∉ wayKeys := by
  cases method <;> decide

/-- A value other than the table declares the same methods after classification. -/
theorem Classifies.sameMethods {view view' : View} {strict : Prop}
    (h : Classifies root gates strict T view registered view') (hgated : view.Gated root gates)
    (hkeys : ∀ g ∈ gates, g.key ∈ wayKeys) (hgate : ∃ g ∈ gates, g.node = T)
    (hv : view.Linked v) (hnot : v ≠ .node T) : view.store.SameMethods view'.store v where
  isTruthy_eq := h.isTruthy_eq hgated hv hnot
  entries?_eq_none hnone := by
    cases v with
    | scalar a => rfl
    | node i =>
      have hlt : i < view.store.cells.size := hgated.lt i (hv i rfl)
      have hcell : view.store.cells[i]? = some view.store.cells[i] := Array.getElem?_eq_getElem hlt
      have hobject : ∀ entries, view.store.cells[i] ≠ .object entries := by
        intro entries heq
        rw [heq] at hcell
        rw [Store.entries?_eq_some.mpr ⟨i, Store.shape_node hcell⟩] at hnone
        cases hnone
      have hcell' := h.cell_eq hcell hobject
      rw [Option.eq_none_iff_forall_not_mem]
      intro entries hentries
      obtain ⟨_, hshape⟩ := Store.entries?_eq_some.mp hentries
      obtain ⟨heq, hcell''⟩ := Store.shape_eq_object.mp hshape
      obtain rfl : i = _ := by simpa using heq
      exact hobject entries (by simpa [hcell'] using hcell'')
  get?_eq entries hentries := by
    obtain ⟨id, hshape⟩ := Store.entries?_eq_some.mp hentries
    obtain ⟨rfl, hcell⟩ := Store.shape_eq_object.mp hshape
    obtain ⟨entries', hcell', houtlasts⟩ := h.object hcell
    exact ⟨entries', Store.entries?_eq_some.mpr ⟨id, Store.shape_node hcell'⟩, fun method =>
      houtlasts.get?_eq method.text (method_text_notMem method).1 fun heq => absurd (heq ▸ rfl) hnot⟩
  content entries hentries method content hcontent := by
    obtain ⟨id, hshape⟩ := Store.entries?_eq_some.mp hentries
    have hfree := hgated.free_field (k := method.text) hv hshape fun g hg _ heq =>
      (method_text_notMem method).2 (heq ▸ hkeys g hg)
    rw [hcontent, Option.getD_some] at hfree
    refine h.isTruthy_eq hgated hfree.linked ?_
    rintro rfl
    obtain ⟨g, hg, hnode⟩ := hgate
    exact (hfree T rfl).2.2 g hg hnode.symm

namespace Edit

variable {root T c : Nat} {s s' t : Store} {K : Set Nat} {n : Nat}
  {table : SchemaTable} {names : Option MethodNames} {registered entries paths : Entries Value}

/-- A document that has just been loaded and whose table has been opened. -/
structure Opened (s : Store) (root components schemas : Nat) (entries : Entries Value) : Prop where
  textKeyed : s.TextKeyed
  tidy : s.Tidy root
  sound : View.Sound ⟨s, {i | i < s.cells.size}⟩
  cell : s.cells[root]? = some (.object entries)
  gated : View.Gated root (documentGates root (entries.get? "paths") components schemas)
    ⟨s, {i | i < s.cells.size}⟩

/-- The store is one that classification makes of an opened document. -/
def Reached (s : Store) (root components schemas : Nat) (entries : Entries Value) (t : Store) : Prop :=
  ∃ K registered, Classifies root (documentGates root (entries.get? "paths") components schemas) False
    schemas
    ⟨s, {i | i < s.cells.size}⟩ registered ⟨t, K⟩

namespace Opened

variable (h : Opened s root c T entries) (hnode : table.schemas = .node T)

theorem gate : ∃ g ∈ documentGates root (entries.get? "paths") c T, g.node = T :=
  ⟨⟨c, "schemas", T⟩, mem_documentGates.mpr (.inr (.inr rfl)), rfl⟩

include h

theorem gated_of_classifies
    (hstep : Classifies root (documentGates root (entries.get? "paths") c T) False T
      ⟨s, {i | i < s.cells.size}⟩ registered ⟨t, K⟩) :
    View.Gated root (documentGates root (entries.get? "paths") c T) ⟨t, K⟩ :=
  hstep.gated (owner_ne_schemas h.gated) h.gated passage_documentGates

/-- What a declared operation contains is free. -/
theorem free_content {op : Operation} (hdocument : s.paths (.node root) = .ok paths)
    (hop : s.Declares paths op) : View.Free root (documentGates root (entries.get? "paths") c T)
      ⟨s, {i | i < s.cells.size}⟩ op.content := by
  obtain ⟨entries', hentries, hpaths⟩ := Store.paths_eq_ok.mp hdocument
  obtain rfl : entries = entries' := by
    simpa [Store.entries?_eq_some.mpr ⟨_, Store.shape_node h.cell⟩] using hentries
  obtain ⟨e, he, -, methods, hmethods, hget⟩ := hop
  have hroot : View.Linked ⟨s, {i | i < s.cells.size}⟩ (.node root) := by
    rintro x hx
    obtain rfl : root = x := by simpa using hx
    exact h.gated.root_known
  split at hpaths
  · obtain ⟨_, hshape⟩ := Store.entries?_eq_some.mp hpaths
    obtain ⟨_, hshape'⟩ := Store.entries?_eq_some.mp hmethods
    have hlinked := h.gated.linked_entry
      (h.gated.linked_field hroot (Store.shape_node h.cell)) hshape he
    have hfree := h.gated.free_field (k := op.method.text) hlinked hshape' fun g hg _ heq =>
      (method_text_notMem op.method).2 (heq ▸ key_mem_wayKeys hg)
    rwa [hget, Option.getD_some] at hfree
  · simp [hpaths] at he

include hnode

/-- Classifying an operation goes on with the classification of the document. -/
theorem reached_of_runs {op : Operation} {u : Unit}
    (hstep : Classifies root (documentGates root (entries.get? "paths") c T) False T
      ⟨s, {i | i < s.cells.size}⟩ registered ⟨t, K⟩)
    (hop : View.Free root (documentGates root (entries.get? "paths") c T) ⟨t, K⟩ op.content)
    (hrun : Runs (classifyAndName (.node root) table names op) t u s') :
    ∃ K' registered', Classifies root (documentGates root (entries.get? "paths") c T) False T
      ⟨s, {i | i < s.cells.size}⟩ registered' ⟨s', K'⟩ ∧ K ⊆ K' := by
  have hgated := h.gated_of_classifies hstep
  have hcontent : IsContent root (documentGates root (entries.get? "paths") c T) False ⟨t, K⟩ op.content :=
    ⟨hop.writable passage_documentGates, False.elim⟩
  obtain ⟨K', path, rest, hnext, -⟩ := classifies_classifyAndName passage_documentGates hnode
    (owner_ne_schemas h.gated) (fun _ _ hcrowded => absurd hcrowded (not_crowded_documentGates hgated)) hgated
    hcontent hrun
  exact ⟨K', _, hstep.trans hnext, hnext.known_sub⟩

/-- Paths with a scalar that counts as present cannot be visited: it holds no methods. -/
theorem not_isTruthy_of_paths {id : Nat} {k : String} {a : Scalar}
    (hpaths : s.shape ((entries.get? "paths").getD .null) = .object id paths)
    (hrun : Runs (visitOperations (.node root) (classifyAndName (.node root) table names)) s n s')
    (hk : k ∉ classificationKeys) (hget : paths.get? (.text k) = some (.scalar a)) :
    a.isTruthy = false := by
  by_contra htruthy
  rw [Bool.not_eq_false] at htruthy
  have hne : paths ≠ [] := by
    rintro rfl
    simp at hget
  obtain ⟨heq, hcell⟩ := Store.shape_eq_object.mp hpaths
  have hnodeId : entries.get? "paths" = some (.node id) := Store.getD_eq_node.mp heq
  have hgate : (⟨root, "paths", id⟩ : Gate) ∈ documentGates root (entries.get? "paths") c T :=
    mem_documentGates.mpr (.inl ⟨id, hnodeId, rfl⟩)
  have hnotTable : id ≠ T := (paths_ne_of_gated (hnodeId ▸ h.gated)).2
  obtain ⟨k', hk', hentry⟩ := List.getElem_of_mem (Entries.mem_of_get? hget)
  have hkeyed := h.textKeyed id paths hcell
  -- The visit cannot get past the place of the scalar.
  suffices hall : Reached s root c T entries s' ∧ paths.length ≤ k' by omega
  refine Runs.foldEntries_induct (fun i _ t => Reached s root c T entries t ∧ i ≤ k')
    (runs_foldPaths (Store.shape_node h.cell) hpaths hne hrun) hpaths
    ⟨⟨_, [], .refl h.gated⟩, Nat.zero_le k'⟩ ?_
  rintro i count t id' entries' key w count' t' ⟨⟨K, registered, hstep⟩, hle⟩ hshape hlength hat hvisit
  have hgated := h.gated_of_classifies hstep
  obtain ⟨rfl, hcell'⟩ : id' = id ∧ t.cells[id]? = some (.object entries') := by
    rw [heq] at hshape
    obtain ⟨hid, hcell'⟩ := Store.shape_eq_object.mp hshape
    obtain rfl : id = id' := by simpa using hid
    exact ⟨rfl, hcell'⟩
  obtain ⟨entries₁, hcell₁, houtlasts⟩ := hstep.object hcell
  obtain rfl : entries₁ = entries' := by simpa [hcell'] using hcell₁.symm
  have hkeys : entries₁.keys = paths.keys :=
    (houtlasts.keys_prefix.eq_of_length (by simp [Entries.keys, hlength])).symm
  have hget' : entries₁.get? (.text k) = some (.scalar a) :=
    (houtlasts.get?_eq k hk fun hin => absurd hin hnotTable).trans hget
  have hlinked : View.Linked ⟨t, K⟩ w := hgated.linked_entry
    (fun x hx => by obtain rfl : id' = x := by simpa [heq] using hx
                    exact hgated.gate_known _ hgate) hshape (List.mem_of_getElem? hat)
  rcases hle.lt_or_eq with hlt | rfl
  · have hreached := hvisit.visitPath_induct (I := fun t' => ∃ K' registered', Classifies root
      (documentGates root (entries.get? "paths") c T) False T ⟨s, {i | i < s.cells.size}⟩ registered'
        ⟨t', K'⟩ ∧ K ⊆ K') ⟨K, registered, hstep, subset_rfl⟩ ?_
    · obtain ⟨K', registered', hstep', -⟩ := hreached
      exact ⟨⟨K', registered', hstep'⟩, hlt⟩
    · rintro op t₁ id₁ methods u t₂ ⟨K₁, registered₁, hstep₁, hsub⟩ hmethods hcontent hop
      have hfree := (h.gated_of_classifies hstep₁).free_field (k := op.method.text)
        (hlinked.mono hsub) hmethods fun g hg _ heq =>
          (method_text_notMem op.method).2 (heq ▸ key_mem_wayKeys hg)
      rw [hcontent, Option.getD_some] at hfree
      obtain ⟨K₂, registered₂, hstep₂, hsub'⟩ := h.reached_of_runs hnode hstep₁ hfree hop
      exact ⟨K₂, registered₂, hstep₂, hsub.trans hsub'⟩
  · have hkey : key = .text k := by
      have hnth : entries₁.keys[i]? = some (Scalar.text k) := by
        rw [hkeys, Entries.keys, List.getElem?_map, List.getElem?_eq_getElem hk', hentry]
        rfl
      simpa [Entries.keys, hat] using hnth
    have hw : entries₁.get? (.text k) = some w :=
      Entries.get?_of_mem (hkeys ▸ hkeyed.nodup) (hkey ▸ List.mem_of_getElem? hat)
    obtain rfl : .scalar a = w := by simpa [hget'] using hw
    exact absurd hvisit (not_runs_visitPath htruthy rfl)

/-- If all operations can be classified, this changes neither the paths nor the methods that they declare. -/
theorem sameMethods (hall : Runs (visitOperations (.node root) (classifyAndName (.node root) table names)) s n s')
    (hreached : Reached s root c T entries t)
    (hpaths : s.entries? ((entries.get? "paths").getD .null) = some paths) :
    t.entries? ((entries.get? "paths").getD .null) = some paths ∧ ∀ e ∈ paths, s.SameMethods t e.2 := by
  obtain ⟨K, registered, hstep⟩ := hreached
  obtain ⟨id, hshape⟩ := Store.entries?_eq_some.mp hpaths
  obtain ⟨heq, hcell⟩ := Store.shape_eq_object.mp hshape
  have hget : entries.get? "paths" = some (.node id) := by
    cases hget : entries.get? "paths" with
    | none => simp [hget] at heq
    | some w => simpa [hget] using heq
  have hgate : (⟨root, "paths", id⟩ : Gate) ∈ documentGates root (entries.get? "paths") c T :=
    mem_documentGates.mpr (.inl ⟨id, hget, rfl⟩)
  obtain ⟨hcomponents, hschemas⟩ := paths_ne_of_gated (hget ▸ h.gated)
  have hcell' := hstep.gate_cell ⟨_, hgate, rfl, by simp [wayKeys]⟩ hcell fun htype =>
    absurd (h.not_isTruthy_of_paths hnode hshape hall (by decide) htype) (by decide)
  rw [if_neg hschemas] at hcell'
  refine ⟨Store.entries?_eq_some.mpr ⟨id, heq ▸ Store.shape_node hcell'⟩, fun e he => ?_⟩
  have hlinked : View.Linked ⟨s, {i | i < s.cells.size}⟩ e.2 := h.gated.linked_of_place
    (h.gated.gate_known _ hgate) hcell (Cell.mem_places_object.mpr ⟨e.1, rfl, he⟩)
  refine hstep.sameMethods h.gated (fun _ => key_mem_wayKeys) gate hlinked ?_
  intro hT
  have hstands : s.Stands id (some e.1) T :=
    (Store.stands_object hcell).mpr ⟨e.1, rfl, hT ▸ he⟩
  exact hcomponents (h.gated.only _ (mem_documentGates.mpr (.inr (.inr rfl))) _ _
    (h.gated.gate_known _ hgate) hstands).1

/-- If all operations can be classified, a visit that does the same to each of them visits the
operations that the document had in the beginning. -/
theorem runs_visitOperations {m : Nat} {t' : Store}
    (hall : Runs (visitOperations (.node root) (classifyAndName (.node root) table names)) s n s')
    {visit : Operation → Edit Unit}
    (hvisit : ∀ op t u t', Runs (visit op) t u t' →
      Runs (classifyAndName (.node root) table names op) t u t') :
    Runs (visitOperations (.node root) visit) s m t' ↔
      ∃ ops, s.operations (.node root) = .ok ops ∧ m = ops.length ∧ Runs (ops.forM visit) s () t' := by
  refine Edit.runs_visitOperations (I := Reached s root c T entries) ⟨_, [], .refl h.gated⟩ ?_ ?_
  · rintro entries' object paths hentries rfl hpaths t hreached
    obtain rfl : entries = entries' := by
      simpa [Store.entries?_eq_some.mpr ⟨_, Store.shape_node h.cell⟩] using hentries
    exact h.sameMethods hnode hall hreached hpaths
  · rintro paths hdocument op hop t u t' ⟨K, registered, hstep⟩ hrun
    obtain ⟨K', registered', hstep', -⟩ := h.reached_of_runs hnode hstep
      ((h.free_content hdocument hop).mono hstep.known_sub) (hvisit op t u t' hrun)
    exact ⟨K', registered', hstep'⟩

end Opened

end Edit

end DeviceApi
