import DeviceApi.Proofs.Api.Acyclic

/-!
# What classification registers

Every operation registers the schema of its path parameters, and those of its request and its response
if these are grouped or stand in the operation. The names are made from the operation and the role. So
schemas are overwritten only if operations share a name, or if the document declares one of the names.
-/

namespace DeviceApi

/-- The entries that operations register, one operation after the other. -/
inductive Registers : List Operation → Entries Value → Prop
  | nil : Registers [] []
  | cons {op : Operation} {ops : List Operation} {path : Value} {rest more : Entries Value}
      (hrest : rest.keys.Sublist [.text (op.schemaName .request), .text (op.schemaName .response)])
      (h : Registers ops more) :
      Registers (op :: ops) ((.text (op.schemaName .path), path) :: (rest ++ more))

/-- A name tells the role that it was made for, and what the operation contributed to it. -/
theorem Operation.schemaName_injective {op op' : Operation} {role role' : Role}
    (h : op.schemaName role = op'.schemaName role') : op.typeId = op'.typeId ∧ role = role' := by
  have hlist : (op.schemaName role).toList.reverse = (op'.schemaName role').toList.reverse := by rw [h]
  simp only [Operation.schemaName, String.toList_append, List.reverse_append] at hlist
  -- The last letters differ, or the one of "Request" and "Response" before them.
  cases role <;> cases role' <;>
    simp [Role.text, ← String.toList_inj] at hlist ⊢ <;> exact hlist

namespace Registers

variable {ops : List Operation} {registered : Entries Value} {key : Scalar}

/-- Only names of operations are registered. -/
theorem exists_operation (h : Registers ops registered) (hkey : key ∈ registered.keys) :
    ∃ op ∈ ops, ∃ role, key = .text (op.schemaName role) := by
  induction h with
  | nil => simp at hkey
  | @cons op ops path rest more hrest h ih =>
    rw [Entries.keys_cons, Entries.keys_append, List.mem_cons, List.mem_append] at hkey
    rcases hkey with rfl | hmem | hmem
    · exact ⟨op, List.mem_cons_self, .path, rfl⟩
    · have hnames := hrest.subset hmem
      simp only [List.mem_cons, List.not_mem_nil, or_false] at hnames
      rcases hnames with rfl | rfl
      · exact ⟨op, List.mem_cons_self, .request, rfl⟩
      · exact ⟨op, List.mem_cons_self, .response, rfl⟩
    · obtain ⟨op', hop', hname⟩ := ih hmem
      exact ⟨op', List.mem_cons_of_mem _ hop', hname⟩

/-- Operations with different names never register the same name twice. -/
theorem nodup (h : Registers ops registered) (hdistinct : (ops.map Operation.typeId).Nodup) :
    registered.keys.Nodup := by
  induction h with
  | nil => simp
  | @cons op ops path rest more hrest h ih =>
    rw [List.map_cons, List.nodup_cons] at hdistinct
    have hown : ((.text (op.schemaName .path)) :: rest.keys).Nodup := by
      refine (hrest.cons_cons _).nodup ?_
      have hne : ∀ {role role' : Role}, role ≠ role' → op.schemaName role ≠ op.schemaName role' :=
        fun hne heq => hne (Operation.schemaName_injective heq).2
      simp [hne]
    have hapart : ∀ name ∈ (.text (op.schemaName .path)) :: rest.keys, name ∉ more.keys := by
      intro name hname hmem
      obtain ⟨op', hop', role', rfl⟩ := h.exists_operation hmem
      have hrole : ∃ role, op'.schemaName role' = op.schemaName role := by
        have hnames := (hrest.cons_cons _).subset hname
        simp only [List.mem_cons, List.not_mem_nil, or_false, Scalar.text.injEq] at hnames
        rcases hnames with heq | heq | heq <;> exact ⟨_, heq⟩
      obtain ⟨role, heq⟩ := hrole
      exact hdistinct.1 (List.mem_map.mpr ⟨op', hop', (Operation.schemaName_injective heq).1⟩)
    rw [Entries.keys_cons, Entries.keys_append, ← List.cons_append, List.nodup_append]
    exact ⟨hown, ih hdistinct.2, fun name hname name' hname' heq => hapart name hname (heq ▸ hname')⟩

end Registers

namespace Edit.Opened

variable {root T c : Nat} {s s' : Store} {n : Nat} {table : SchemaTable} {names : Option MethodNames}
  {entries V : Entries Value} {ops : List Operation}

/-- All that classification does to the document are strict writes, and it registers what the operations
of the document register. -/
theorem classifies (h : Opened s root c T entries) (hnode : table.schemas = .node T)
    (hall : Runs (visitOperations (.node root) (classifyAndName (.node root) table names)) s n s') :
    ∃ ops K registered, s.operations (.node root) = .ok ops ∧ Registers ops registered ∧
      Classifies root (deepGates s root (entries.get? "paths") c T) True T
        ⟨s, {i | i < s.cells.size}⟩ registered ⟨s', K⟩ := by
  obtain ⟨ops, hops, -, hrun⟩ := (h.runs_visitOperations hnode hall fun _ _ _ _ => id).mp hall
  obtain ⟨paths, hdocument, hpaths⟩ := Store.operations_eq_ok.mp hops
  refine ⟨ops, ?_⟩
  suffices hgeneral : ∀ (remaining : List Operation) t K registered,
      (∀ op ∈ remaining, s.Declares paths op) →
      Classifies root (deepGates s root (entries.get? "paths") c T) True T
        ⟨s, {i | i < s.cells.size}⟩ registered ⟨t, K⟩ →
      Runs (remaining.forM (classifyAndName (.node root) table names)) t () s' →
      ∃ K' more, Registers remaining more ∧
        Classifies root (deepGates s root (entries.get? "paths") c T) True T
          ⟨s, {i | i < s.cells.size}⟩ (registered ++ more) ⟨s', K'⟩ by
    obtain ⟨K, registered, hregisters, hstep⟩ := hgeneral ops s _ []
      (fun op hop => Store.declares_of_mem hpaths hop) (.refl h.gated_deepGates) hrun
    exact ⟨K, registered, hops, hregisters, hstep⟩
  intro remaining
  induction remaining with
  | nil =>
    intro t K registered _ hstep hrun
    obtain rfl := runs_forM_nil.mp hrun
    exact ⟨K, [], .nil, by simpa using hstep⟩
  | cons op remaining ih =>
    intro t K registered hdeclares hstep hrun
    obtain ⟨t', hclassify, hrest⟩ := runs_forM_cons.mp hrun
    obtain ⟨K', path, rest, hnext, -, hkeys⟩ := h.classifies_operation hnode hall hdocument
      (hdeclares op List.mem_cons_self) hstep hclassify
    obtain ⟨K'', more, hregisters, hlast⟩ := ih t' K' _
      (fun op hop => hdeclares op (List.mem_cons_of_mem _ hop)) (hstep.trans hnext) hrest
    exact ⟨K'', _, .cons hkeys hregisters, by simpa using hlast⟩

end Edit.Opened

end DeviceApi
