import DeviceApi.Proofs.Api.Registered
import DeviceApi.Proofs.Schema.Folding
import DeviceApi.Proofs.Schema.Prepared

/-!
# The stages of normalization

A successful normalization comes apart into the runs of its stages. For a document that has been
read from JSON text, the table is still behind its gates when it is folded.
-/

namespace DeviceApi

namespace Procedure

open Edit

variable {document : Value} {names : Option MethodNames} {catalogue : Tree} {merge : Bool}
  {s s' : Session} {table : SchemaTable} {result : Normalized}

/-- The stages before the folding of schemas. -/
def prepare (document : Value) (names : Option MethodNames) : Procedure SchemaTable := do
  let table ← openTable document
  stage "classify" (classifyAll document table names)
  stage "strip envelope" (ofEdit (stripEnvelopes table))
  stage "canonicalize" (ofEdit (canonicalizeTable table))
  return table

/-- Normalization prepares the table and folds it. -/
theorem runs_normalize (h : Runs (normalize document names catalogue merge) s result s') :
    ∃ table t, Runs (prepare document names) s table t ∧
      ∃ t₁ t₂, t₁.store = t.store ∧
        Runs (foldSchemas table catalogue merge) t₁ (result.replacements, result.duplicates) t₂ ∧
        t₂.store = s'.store ∧ result.document = document := by
  unfold normalize at h
  obtain ⟨table, t₁, hopen, h₁⟩ := runs_bind.mp h
  obtain ⟨_, t₂, hclassify, h₂⟩ := runs_bind.mp h₁
  obtain ⟨_, t₃, hstrip, h₃⟩ := runs_bind.mp h₂
  obtain ⟨_, t₄, hcanonicalize, hfold⟩ := runs_bind.mp h₃
  refine ⟨table, t₄, ?_, ?_⟩
  · exact runs_bind.mpr ⟨_, _, hopen, runs_bind.mpr ⟨_, _, hclassify, runs_bind.mpr
      ⟨_, _, hstrip, runs_bind.mpr ⟨_, _, hcanonicalize, runs_pure.mpr ⟨rfl, rfl⟩⟩⟩⟩⟩
  · obtain ⟨log, t₅, hbody, hstore⟩ := runs_stage hfold
    obtain ⟨⟨replacements, duplicates⟩, t₆, hrun, hrest⟩ := runs_bind.mp hbody
    dsimp only at hrest
    simp only [runs_bind, runs_monadLift, SchemaTable.size, Edit.runs_get_bind, Edit.runs_ofExcept,
      runs_report, runs_pure] at hrest
    obtain ⟨_, _, ⟨_, ⟨-, rfl⟩, rfl⟩, _, _, rfl, rfl, rfl⟩ := hrest
    exact ⟨{ store := t₄.store, log }, t₆, rfl, hrun, hstore, rfl⟩

/-- Preparation opens the table, classifies the operations, removes the envelopes and brings the
schemas into canonical form. -/
theorem runs_prepare (h : Runs (prepare document names) s table s') :
    ∃ s₁ n s₂ s₃, Edit.Runs (openTable document) s.store table s₁ ∧
      Edit.Runs (visitOperations document (classifyAndName document table names)) s₁ n s₂ ∧
      Edit.Runs (stripEnvelopes table) s₂ () s₃ ∧
      Edit.Runs (canonicalizeTable table) s₃ () s'.store := by
  unfold prepare at h
  obtain ⟨table', t₁, hopened, h₁⟩ := runs_bind.mp h
  obtain ⟨_, t₂, hclassified, h₂⟩ := runs_bind.mp h₁
  obtain ⟨_, t₃, hstripped, h₃⟩ := runs_bind.mp h₂
  obtain ⟨_, t₄, hcanonical, hlast⟩ := runs_bind.mp h₃
  obtain ⟨rfl, rfl⟩ := runs_pure.mp hlast
  obtain ⟨s₁, hopen, rfl⟩ := runs_monadLift.mp hopened
  obtain ⟨_, u₁, hinside₁, hstore₁⟩ := runs_stage hclassified
  obtain ⟨_, u₂, hinside₂, hstore₂⟩ := runs_stage hstripped
  obtain ⟨_, u₃, hinside₃, hstore₃⟩ := runs_stage hcanonical
  obtain ⟨s₃, hstrip, rfl⟩ := runs_ofEdit.mp hinside₂
  obtain ⟨s₄, hcanonicalize, rfl⟩ := runs_ofEdit.mp hinside₃
  simp only [classifyAll, runs_bind, runs_ofEdit, runs_monadLift, SchemaTable.size, Edit.runs_get_bind,
    Edit.runs_ofExcept, runs_report] at hinside₁
  obtain ⟨n, _, ⟨s₂, hvisit, rfl⟩, _, _, ⟨_, ⟨-, rfl⟩, rfl⟩, rfl⟩ := hinside₁
  dsimp only at hvisit hstore₁ hstrip hstore₂ hcanonicalize hstore₃
  rw [← hstore₁] at hstrip
  rw [← hstore₂] at hcanonicalize
  exact ⟨s₁, n, s₂, s₃, hopen, hvisit, hstrip, hstore₃ ▸ hcanonicalize⟩

end Procedure

namespace Edit

variable {s s' : Store} {root T : Nat} {table : SchemaTable} {V : Entries Value} {t : Tree} {w : Value}

theorem textKeyed_fieldOrNew {v : Value} {key : String} (h : Runs (fieldOrNew v key) s w s')
    (hkeyed : s.TextKeyed) : s'.TextKeyed := by
  obtain ⟨id, entries, hshape, ⟨-, rfl⟩ | ⟨-, -, rfl⟩⟩ := runs_fieldOrNew h
  · exact hkeyed
  · obtain ⟨-, hcell⟩ := Store.shape_eq_object.mp hshape
    refine (hkeyed.add fun entries heq => ?_).set (hkeyed id entries hcell).put
    obtain rfl : [] = entries := by simpa using heq
    exact ⟨by simp, by simp⟩

theorem sound_fieldOrNew {v : Value} {key : String} (h : Runs (fieldOrNew v key) s w s')
    (hsound : View.Sound ⟨s, {i | i < s.cells.size}⟩) :
    View.Sound ⟨s', {i | i < s'.cells.size}⟩ := by
  obtain ⟨id, entries, hshape, ⟨-, rfl⟩ | ⟨-, rfl, rfl⟩⟩ := runs_fieldOrNew h
  · exact hsound
  · obtain ⟨-, hcell⟩ := Store.shape_eq_object.mp hshape
    have hnew : View.Sound ⟨(s.add (.object [])).2.set id (.object (entries.put key (.node s.cells.size))),
        insert s.cells.size {i | i < s.cells.size}⟩ :=
      hsound.add_put (Store.lt_size_of_cell hcell) hcell (by simp [Cell.parts, Entries.values])
        fun entries heq => by
          obtain rfl : [] = entries := by simpa using heq
          simp
    have hsucc : {i | i < s.cells.size + 1} = insert s.cells.size {i | i < s.cells.size} := by
      ext i
      simp only [Set.mem_ofPred_eq, Set.mem_insert_iff]
      omega
    rw [Store.size_set, Store.size_add, hsucc]
    exact hnew

/-- A document that has been read from JSON text is an object if its table can be opened, and the
table is behind gates. -/
theorem opened_of_load (ht : t.IsJson)
    (h : Runs (openTable (Store.empty.load t).1) (Store.empty.load t).2 table s) :
    ∃ root, (Store.empty.load t).1 = .node root ∧ ∀ T, table.schemas = .node T →
      ∃ components entries, Opened s root components T entries := by
  obtain ⟨hkeyed, hsound⟩ : s.TextKeyed ∧ View.Sound ⟨s, {i | i < s.cells.size}⟩ := by
    simp only [openTable, runs_bind, runs_pure] at h
    obtain ⟨w, s₁, hcomponents, schemas, s₂, hschemas, rfl, rfl⟩ := h
    exact ⟨textKeyed_fieldOrNew hschemas (textKeyed_fieldOrNew hcomponents
      (.load (by simp [Store.TextKeyed, Store.empty]) ht)),
      sound_fieldOrNew hschemas (sound_fieldOrNew hcomponents (.loaded ht))⟩
  obtain ⟨root, hroot⟩ : ∃ root, (Store.empty.load t).1 = .node root := by
    obtain ⟨w, s₁, hcomponents, -⟩ := runs_bind.mp h
    obtain ⟨id, entries, hshape, -⟩ := runs_fieldOrNew hcomponents
    exact ⟨id, (Store.shape_eq_object.mp hshape).1⟩
  refine ⟨root, hroot, fun T hT => ?_⟩
  rw [hroot] at h
  obtain ⟨htidy, -⟩ := cells_openTable h (Store.tidy_load hroot)
  obtain ⟨c, entries, hcell, hgated⟩ := gated_openTable h (Store.tidy_load hroot) hT
  exact ⟨c, entries, hkeyed, htidy, hsound, hcell, hgated⟩

section

variable {c n : Nat} {entries : Entries Value} {names : Option MethodNames}
  (h : Opened s root c T entries) (hnode : table.schemas = .node T)
  (hall : Runs (visitOperations (.node root) (classifyAndName (.node root) table names)) s n s')
  (hcell : s'.cells[T]? = some (.object V)) (hnodes : ∀ e ∈ V, ∀ a, e.2 ≠ .scalar a)
include h hnode hall hcell hnodes

/-- If the table has nodes only, then classification has put into it what has been registered. -/
theorem Opened.table_eq : ∃ ops K registered V₀, s.operations (.node root) = .ok ops ∧
    Registers ops registered ∧ Classifies root (deepGates s root (entries.get? "paths") c T) True T
      ⟨s, {i | i < s.cells.size}⟩ registered ⟨s', K⟩ ∧
    s.cells[T]? = some (.object V₀) ∧ V = V₀.putAll registered := by
  obtain ⟨ops, K, registered, hops, hregisters, hclassifies⟩ := h.classifies hnode hall
  have hgate : (⟨c, "schemas", T⟩ : Gate) ∈ deepGates s root (entries.get? "paths") c T :=
    documentGates_subset (mem_documentGates.mpr (.inr (.inr rfl)))
  have hlt : T < s.cells.size := h.gated_deepGates.lt T (h.gated_deepGates.gate_known _ hgate)
  -- The table has been an object from the beginning, and it did not state a type.
  obtain ⟨V₀, hcell₀⟩ : ∃ V₀, s.cells[T]? = some (.object V₀) := by
    have hold : s.cells[T]? = some s.cells[T] := Array.getElem?_eq_getElem hlt
    cases hkind : s.cells[T] with
    | object V₀ => exact ⟨V₀, hkind ▸ hold⟩
    | list | pair | set =>
      rw [hkind] at hold
      have := hclassifies.cell_eq hold (by simp)
      simp [hcell] at this
  have htype : V₀.get? "type" ≠ some (.text "object") := by
    rw [← hclassifies.get?_type_eq hcell₀ hcell]
    exact fun hget => hnodes _ (Entries.mem_of_get? hget) _ rfl
  have hV := hclassifies.gate_cell ⟨_, hgate, rfl, by simp [wayKeys]⟩ hcell₀ htype
  rw [if_pos rfl, hcell] at hV
  exact ⟨ops, K, registered, V₀, hops, hregisters, hclassifies, hcell₀, by simpa using hV⟩

/-- A document whose operations have been classified has the schemas of its table behind gates, if
these are nodes. -/
theorem Opened.ready : Ready s' root T V := by
  obtain ⟨ops, K, registered, V₀, -, -, hclassifies, hcell₀, rfl⟩ :=
    h.table_eq hnode hall hcell hnodes
  have howner : ∀ g ∈ deepGates s root (entries.get? "paths") c T, g.owner ≠ T := fun _ =>
    h.owner_ne_table
  have hgate : (⟨c, "schemas", T⟩ : Gate) ∈ deepGates s root (entries.get? "paths") c T :=
    documentGates_subset (mem_documentGates.mpr (.inr (.inr rfl)))
  have hgated := hclassifies.gated howner h.gated_deepGates passage_deepGates
  exact ⟨(h.textKeyed T V₀ hcell₀).putAll hclassifies.exists_text, hnodes, hcell, c, K,
    hgated.of_subset (tableGates_subset.trans documentGates_subset),
    hclassifies.sound howner ⟨_, hgate, rfl⟩ passage_deepGates h.gated_deepGates h.sound⟩

end

end Edit

namespace Procedure

open Edit

variable {t : Tree} {log : List Log.Record} {names : Option MethodNames} {table : SchemaTable} {s' : Session}

/-- Preparation of a document that has been read from JSON text opens a table behind gates, visits the operations, and
then goes through the schemas of the table, which are nodes. -/
theorem opened_of_prepare (ht : t.IsJson)
    (h : Runs (prepare (Store.empty.load t).1 names) ⟨(Store.empty.load t).2, log⟩ table s') :
    ∃ root c T entries s₁ n s₂ V s₃, (Store.empty.load t).1 = .node root ∧ table.schemas = .node T ∧
      Edit.Runs (openTable (.node root)) (Store.empty.load t).2 table s₁ ∧ Opened s₁ root c T entries ∧
      Edit.Runs (visitOperations (.node root) (classifyAndName (.node root) table names)) s₁ n s₂ ∧
      s₂.cells[T]? = some (.object V) ∧ (∀ e ∈ V, ∀ a, e.2 ≠ .scalar a) ∧
      Edit.Runs (stripEnvelopes table) s₂ () s₃ ∧ Edit.Runs (canonicalizeTable table) s₃ () s'.store := by
  obtain ⟨s₁, n, s₂, s₃, hopen, hvisit, hstrip, hcanonicalize⟩ := runs_prepare h
  obtain ⟨root, hroot, hopened⟩ := opened_of_load ht hopen
  obtain ⟨T, V, hshape, hnodes⟩ := exists_object_of_stripEnvelopes hstrip
  obtain ⟨hnode, hcell⟩ := Store.shape_eq_object.mp hshape
  obtain ⟨c, entries, hopened⟩ := hopened T hnode
  rw [hroot] at hopen hvisit
  exact ⟨root, c, T, entries, s₁, n, s₂, V, s₃, hroot, hnode, hopen, hopened, hvisit, hcell, hnodes, hstrip,
    hcanonicalize⟩

/-- The last step of preparation brings a table into canonical form that is behind its gates. -/
theorem canonicalized_of_prepare (ht : t.IsJson)
    (h : Runs (prepare (Store.empty.load t).1 names) ⟨(Store.empty.load t).2, log⟩ table s') :
    ∃ root T V before, (Store.empty.load t).1 = .node root ∧ table.schemas = .node T ∧
      Ready before root T V ∧ Edit.Runs (canonicalizeTable table) before () s'.store := by
  obtain ⟨root, c, T, entries, s₁, n, s₂, V, s₃, hroot, hnode, -, hopened, hvisit, hcell, hnodes, hstrip,
    hcanonicalize⟩ := opened_of_prepare ht h
  have hready := hopened.ready hnode hvisit hcell hnodes
  exact ⟨root, T, V, s₃, hroot, hnode, hready.stripEnvelopes hnode hstrip, hcanonicalize⟩

/-- After preparation, a document that has been read from JSON text is ready for folding. -/
theorem ready_of_prepare (ht : t.IsJson)
    (h : Runs (prepare (Store.empty.load t).1 names) ⟨(Store.empty.load t).2, log⟩ table s') :
    ∃ root T V, (Store.empty.load t).1 = .node root ∧ table.schemas = .node T ∧
      Ready s'.store root T V := by
  obtain ⟨root, T, V, before, hroot, hnode, hready, hcanonicalize⟩ := canonicalized_of_prepare ht h
  exact ⟨root, T, V, hroot, hnode, hready.canonicalizeTable hnode hcanonicalize⟩

end Procedure

end DeviceApi
