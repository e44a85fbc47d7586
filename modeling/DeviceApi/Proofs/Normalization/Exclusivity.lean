import DeviceApi.Proofs.Api.Exclusive
import DeviceApi.Proofs.Normalization.Acceptance
import DeviceApi.Proofs.Normalization.Output

/-!
# Exclusive roles in a document

In a document with plain references that declares none of the names that operations make, no schema that operations
refer to has two roles once all of them have been classified.
-/

namespace DeviceApi

/-! ## Names of registered schemas

Classification puts what the operations register over the schemas that the document declares. Nothing is
overwritten if the operations have different names and the document declares none of the names that are
made from these. Operations of different paths may share a name, and then one of them loses its schemas.
-/

namespace Procedure

open Edit

variable {document catalogue : Tree} {log : List Log.Record} {names : Option MethodNames} {merge : Bool}
  {result : Normalized} {s' : Session}

/-- **Different names keep all schemas.** Let a JSON document be normalized. Classification turns the
table `V` into `V` with all that the operations register put over it, one operation after the other. If
the operations have different names, and none of the names made from these is in `V`, then no schema is
overwritten: all come behind those of `V`, under different names. -/
theorem normalize_registers_apart (hdocument : document.IsJson)
    (h : Runs (normalize (Store.empty.load document).1 names catalogue merge)
      ⟨(Store.empty.load document).2, log⟩ result s') :
    let start := Store.empty.load document
    ∃ table s₁ n s₂ T V ops registered, Edit.Runs (openTable start.1) start.2 table s₁ ∧
      Edit.Runs (visitOperations start.1 (classifyAndName start.1 table names)) s₁ n s₂ ∧
      s₁.shape table.schemas = .object T V ∧ s₁.operations start.1 = .ok ops ∧
      Registers ops registered ∧ s₂.shape table.schemas = .object T (V.putAll registered) ∧
      ((ops.map Operation.typeId).Nodup →
        (∀ op ∈ ops, ∀ role, V.has (.text (op.schemaName role)) = false) →
        V.putAll registered = V ++ registered ∧ (V ++ registered).keys.Nodup) := by
  intro start
  obtain ⟨table, t, hprepare, -⟩ := runs_normalize h
  obtain ⟨root, c, T, entries, s₁, n, s₂, _, -, hroot, hnode, hopen, hopened, hvisit, hcell, hnodes, -⟩ :=
    opened_of_prepare hdocument hprepare
  obtain ⟨ops, K, registered, V, hops, hregisters, hclassifies, hcell₁, rfl⟩ :=
    hopened.table_eq hnode hvisit hcell hnodes
  rw [← hroot] at hopen hvisit hops
  refine ⟨table, s₁, n, s₂, T, V, ops, registered, hopen, hvisit, hnode ▸ Store.shape_node hcell₁, hops, hregisters,
    hnode ▸ Store.shape_node hcell, fun hdistinct hfresh => ?_⟩
  have hkeys : (V.keys ++ registered.keys).Nodup := by
    refine List.nodup_append.mpr ⟨(hopened.textKeyed T V hcell₁).nodup, hregisters.nodup hdistinct, ?_⟩
    rintro key hV name hname rfl
    obtain ⟨op, hop, role, rfl⟩ := hregisters.exists_operation hname
    have hhas := hfresh op hop role
    rw [← Bool.not_eq_true, Entries.has_text] at hhas
    exact hhas hV
  exact ⟨Entries.putAll_eq_append hclassifies.exists_text hkeys, by simpa using hkeys⟩

theorem normalize_registers_apart_reply :
    let document := describing
      [("/value/\x7bnumber\x7d", .ofFields [("get", readOperation ["number"] "#/components/schemas/Reply")])]
      [("schemas", .ofFields [("Reply", reply)])]
    let start := Store.empty.load document
    document.IsJson ∧ ∃ table s₁ n s₂ T V ops registered,
      Edit.Runs (openTable start.1) start.2 table s₁ ∧
      Edit.Runs (visitOperations start.1 (classifyAndName start.1 table none)) s₁ n s₂ ∧
      s₁.shape table.schemas = .object T V ∧ s₁.operations start.1 = .ok ops ∧
      Registers ops registered ∧ s₂.shape table.schemas = .object T (V.putAll registered) ∧
      ((ops.map Operation.typeId).Nodup →
        (∀ op ∈ ops, ∀ role, V.has (.text (op.schemaName role)) = false) →
        V.putAll registered = V ++ registered ∧ (V ++ registered).keys.Nodup) := by
  intro document start
  have hjson : document.IsJson := by decide +kernel
  have hanswer : ((normalize start.1 none (.object []) false).runOn ⟨start.2, []⟩).1.toOption.map
      (fun result => result.replacements.length) = some 0 := by decide +kernel
  obtain ⟨result, s', hrun, -⟩ := exists_runs hanswer
  exact ⟨hjson, normalize_registers_apart hjson hrun⟩

/-- Two paths that differ in a placeholder only. -/
def sharedName : Tree :=
  describing
    [("/value/\x7bnumber\x7d", .ofFields [("get", readOperation ["number"] "#/components/schemas/Reply")]),
     ("/value/\x7bnumber\x7d/\x7bpart\x7d",
       .ofFields [("get", readOperation ["number", "part"] "#/components/schemas/Reply")])]
    [("schemas", .ofFields [("Reply", reply)])]

theorem exists_two_operations {answer : Except Misfit (List Operation)} {path path' name name' : String}
    (h : answer.toOption.map (fun ops => ops.map fun op => (op.path, op.typeId)) =
      some [(path, name), (path', name')]) :
    ∃ op op', answer = .ok [op, op'] ∧ op.path = path ∧ op.typeId = name ∧ op'.path = path' ∧
      op'.typeId = name' := by
  obtain ⟨ops, hops, hpairs⟩ := Option.map_eq_some_iff.mp h
  match ops, hpairs with
  | [op, op'], hpairs =>
    simp only [List.map_cons, List.map_nil, List.cons.injEq, Prod.mk.injEq, and_true] at hpairs
    obtain ⟨⟨hpath, hname⟩, hpath', hname'⟩ := hpairs
    exact ⟨op, op', toOption_eq_some.mp hops, hpath, hname, hpath', hname'⟩

/-- Operations of different paths may share their names. Then the handle of the first one leads to what
was registered for the last one: its path parameters have become those of the other. -/
theorem registration_overwrites :
    let start := Store.empty.load sharedName
    (∃ op op', start.2.operations start.1 = .ok [op, op'] ∧ op.path ≠ op'.path ∧
      op.typeId = op'.typeId) ∧
    ∃ result s', Runs (normalize start.1 none (.object []) false) ⟨start.2, []⟩ result s' ∧
      s'.store.resolve result.document "#/paths/~1value~1\x7bnumber\x7d/get/x-path-schema/$ref" =
        .ok (.text "#/components/schemas/GetValuePath") ∧
      ∃ v, s'.store.resolve result.document "#/components/schemas/GetValuePath/properties/part" =
        .ok v := by
  intro start
  have hoperations : (start.2.operations start.1).toOption.map (fun ops =>
      ops.map fun op => (op.path, op.typeId)) = some [("/value/\x7bnumber\x7d", "GetValue"),
        ("/value/\x7bnumber\x7d/\x7bpart\x7d", "GetValue")] := by decide +kernel
  have hnormalize : passes (normalize start.1 none (.object []) false) ⟨start.2, []⟩
      (fun result s' => (decide ((s'.store.resolve result.document
          "#/paths/~1value~1\x7bnumber\x7d/get/x-path-schema/$ref").toOption =
            some (.text "#/components/schemas/GetValuePath"))) &&
        (s'.store.resolve result.document
          "#/components/schemas/GetValuePath/properties/part").toOption.isSome) = true := by
    decide +kernel
  obtain ⟨op, op', hops, hpath, hname, hpath', hname'⟩ := exists_two_operations hoperations
  obtain ⟨result, s', hrun, hcheck⟩ := exists_runs_of_passes hnormalize
  rw [Bool.and_eq_true, decide_eq_true_eq] at hcheck
  obtain ⟨v, hv⟩ := Option.isSome_iff_exists.mp hcheck.2
  have hne : op.path ≠ op'.path := by
    rw [hpath, hpath']
    decide
  have hhandle := toOption_eq_some.mp hcheck.1
  have hpart := toOption_eq_some.mp hv
  exact ⟨⟨op, op', hops, hne, hname.trans hname'.symm⟩, result, s', hrun, hhandle, v, hpart⟩

end Procedure

namespace Edit

variable {D : Tree} {s s' : Store} {root T c n i : Nat} {v : Value} {u : Unit} {table : SchemaTable} {op : Operation}
  {ops : List Operation} {entries paths : Entries Value}

/-- Only with a table can an operation be classified. -/
theorem isObject_of_runs_classify {root : Value} (hlt : ∀ T, table.schemas = .node T → T < s.cells.size)
    (h : Runs (classify root table op) s u s') : s.IsObject table.schemas := by
  obtain ⟨_, _, path, query, s₁, s₂, _, _, _, _, -, -, hgroup, hadopt, -⟩ := runs_classify.mp h
  obtain ⟨t, reference, t', hrole, hregister, -⟩ := runs_adoptParameters hadopt
  obtain ⟨x, fields, rfl, hx, -⟩ := (new_of_groupParameters hgroup).1 path (by simp)
  obtain ⟨i, _, hshape, -, rfl⟩ := runs_setRole hrole
  obtain rfl : x = i := Value.node.inj (Store.shape_eq_object.mp hshape).1
  obtain ⟨j, names, hnames, -⟩ := runs_register hregister
  obtain ⟨hnode, hcell⟩ := Store.shape_eq_object.mp hnames
  have hj := hlt j hnode
  rw [(grows_groupParameters hgroup).cells_set hj (by omega)] at hcell
  exact ⟨j, names, hnode ▸ Store.shape_node hcell⟩

/-- The region of an opened document: its ordinary nodes, but for the groups of the components. -/
def ordinaryRegion (s : Store) (root c T : Nat) (entries : Entries Value) : Region where
  inner := {i | Ordinary s root c T entries (.node i) ∧ ∀ key, ¬ s.Stands c key i}
  grouped := ∅

/-- The contents of the operations are gates of the document. -/
def AreContents (s : Store) (root c T : Nat) (entries : Entries Value) (ops : List Operation) : Prop :=
  ∀ op ∈ ops, ∀ i, op.content = .node i →
    IsContent root (deepGates s root (entries.get? "paths") c T) True ⟨s, {i | i < s.cells.size}⟩ op.content

namespace Opened

section

variable (h : Opened s root c T entries)
include h

theorem areContents (hops : s.operations (.node root) = .ok ops) : AreContents s root c T entries ops := by
  obtain ⟨paths, hpaths, hlist⟩ := Store.operations_eq_ok.mp hops
  exact fun op hop i hi => h.isContent hpaths (Store.declares_of_mem hlist hop) hi

theorem group_ne {key : Option Scalar} (hi : s.Stands c key i) : i ≠ root ∧ i ≠ c :=
  ⟨(h.tidy.inside _ _ _ hi).2, fun heq => h.not_stands_components_self (heq ▸ hi)⟩

/-- What stands elsewhere than in the components is inside of the region if it is ordinary. -/
theorem inner_of_place {cell : Cell} {key : Option Scalar} (hi : i ≠ c) (hcell : s.cells[i]? = some cell)
    (hplace : (key, v) ∈ cell.places) (hv : Ordinary s root c T entries v) : (ordinaryRegion s root c T entries).Inner v := by
  rintro j rfl
  exact ⟨hv, fun key' hj => hi (h.tidy.unique _ _ _ _ _ ⟨cell, hcell, hplace⟩ hj).1⟩

end

theorem content_ne (hops : AreContents s root c T entries ops) (hop : op ∈ ops) (hi : op.content = .node i) :
    i ≠ root ∧ i ≠ c := by
  have hwritable := (hops op hop i hi).writable i hi
  refine ⟨hwritable.2.1, ?_⟩
  rintro rfl
  exact (hwritable.2.2 ⟨root, "components", i⟩ (documentGates_subset (mem_documentGates.mpr (.inr (.inl rfl))))).2 rfl
    (by simp [wayKeys])

/-- The site of an opened document with its operations. -/
def site (h : Opened s root c T entries) (hops : AreContents s root c T entries ops) : Site where
  root := root
  components := c
  table := T
  groups := {i | ∃ key, s.Stands c key i}
  contents := {i | ∃ op ∈ ops, op.content = .node i}
  table_mem := ⟨_, h.stands_schemas⟩
  group_apart := fun _ ⟨_, hi⟩ => ⟨(h.group_ne hi).1, (h.group_ne hi).2, fun ⟨op, hop, hnode⟩ =>
    h.content_ne_group (hops op hop _ hnode) hi hnode⟩
  content_apart := fun _ ⟨_, hop, hi⟩ => content_ne hops hop hi

/-- In an opened document with plain references the region is closed. -/
theorem closed_ordinaryRegion (h : Opened s root c T entries) (hops : AreContents s root c T entries ops)
    (hplain : ∀ v p, Ordinary s root c T entries v → s.field? v referenceKey = some (.text p) → Pointer.Plain p)
    (htable : s.IsObject (.node T)) : (ordinaryRegion s root c T entries).Closed (h.site hops) s := by
  have hplaced : ∀ {cell : Cell} {w}, w ∈ cell.parts → ∃ key, (key, w) ∈ cell.places := by
    intro cell w hw
    rw [← Cell.map_snd_places] at hw
    obtain ⟨⟨key, w⟩, hplace, rfl⟩ := List.mem_map.mp hw
    exact ⟨key, hplace⟩
  obtain ⟨outer, houter, hgetRoot⟩ := h.gated.stands ⟨root, "components", c⟩ (mem_documentGates.mpr (.inr (.inl rfl)))
  obtain ⟨middle, hmiddle, hgetTable⟩ := h.gated.stands ⟨c, "schemas", T⟩ (mem_documentGates.mpr (.inr (.inr rfl)))
  refine
    { lt := ?_
      lt_group := fun i ⟨key, hi⟩ => (h.tidy.inside _ _ _ hi).1
      lt_content := fun i ⟨op, hop, hi⟩ => ((hops op hop i hi).writable i hi).1
      apart := ?_
      part_inner := ?_
      part_group := ?_
      part_content := ?_
      plain := fun i p hi hp => hplain _ p hi.1 hp
      grouped := fun i hi => hi.elim
      root_components := (Store.field?_node houter).trans hgetRoot
      components_table := (Store.field?_node hmiddle).trans hgetTable
      components_group := ?_
      table := htable }
  · rintro i (hi | hi)
    · exact hi.1.lt i rfl
    · exact hi.elim
  · rintro i (hi | hi)
    · refine ⟨fun heq => hi.1.ne_root (congrArg _ heq), fun heq => hi.1.ne_components (congrArg _ heq), fun ⟨key, hkey⟩ =>
        hi.2 key hkey, fun ⟨op, hop, hnode⟩ => ?_⟩
      obtain ⟨g, hg, hgate⟩ := (hops op hop i hnode).gate trivial
      exact (hi.1 i rfl).2.2 g hg (Value.node.inj (hnode.symm.trans hgate))
    · exact hi.elim
  · intro i cell w hi hcell hw
    obtain ⟨key, hplace⟩ := hplaced hw
    exact h.inner_of_place (fun heq => hi.1.ne_components (congrArg _ heq)) hcell hplace (h.ordinary_place hi.1 hcell hplace)
  · rintro i cell w ⟨key, hi⟩ hcell hw
    obtain ⟨key', hplace⟩ := hplaced hw
    exact (h.inner_of_place (h.group_ne hi).2 hcell hplace (h.ordinary_of_group hi hcell hplace)).target
  · rintro i cell w ⟨op, hop, hi⟩ hcell hw
    obtain ⟨key, hplace⟩ := hplaced hw
    have hwritable := (hops op hop i hi).writable i hi
    exact h.inner_of_place (content_ne hops hop hi).2 hcell hplace
      (h.gated_deepGates.free_of_not_owner hwritable.1 (fun g hg => (hwritable.2.2 g hg).1) hcell hplace)
  · intro group x hx
    have hstands := stands_of_get? hmiddle ((Store.field?_node hmiddle).symm.trans hx)
    refine ⟨⟨_, hstands⟩, ?_⟩
    rintro rfl
    simpa using (h.tidy.unique _ _ _ _ _ hstands h.stands_schemas).2

end Opened

theorem classifyAndName_none {root : Value} : classifyAndName root table none = classify root table := by
  funext op
  simp [classifyAndName]

/-- All operations are classified that the document has in the beginning. If it has any, its table is an object. -/
theorem runs_forM_of_visitOperations (hD : D.IsJson)
    (hopen : Runs (openTable (Store.empty.load D).1) (Store.empty.load D).2 table s)
    (h : Runs (visitOperations (Store.empty.load D).1 (classify (Store.empty.load D).1 table)) s n s') :
    ∃ ops, s.operations (Store.empty.load D).1 = .ok ops ∧
      Runs (ops.forM (classify (Store.empty.load D).1 table)) s () s' ∧ (ops ≠ [] → s.IsObject table.schemas) := by
  obtain ⟨root, hroot, hopened⟩ := opened_of_load hD hopen
  have hlt : ∀ T, table.schemas = .node T → T < s.cells.size := fun T hnode => by
    obtain ⟨c, entries, hopened⟩ := hopened T hnode
    exact (hopened.tidy.inside _ _ _ hopened.stands_schemas).1
  by_cases hobject : s.IsObject table.schemas
  · obtain ⟨T, _, hshape⟩ := hobject
    obtain ⟨hnode, -⟩ := Store.shape_eq_object.mp hshape
    obtain ⟨c, entries, hopened⟩ := hopened T hnode
    rw [hroot] at h ⊢
    have hall : Runs (visitOperations (.node root) (classifyAndName (.node root) table none)) s n s' := by
      rwa [classifyAndName_none]
    obtain ⟨ops, hops, -, hrun⟩ := (hopened.runs_visitOperations hnode hall fun op t u t' hrun => by
      rwa [classifyAndName_none]).mp h
    exact ⟨ops, hops, hrun, fun _ => ⟨T, _, hshape⟩⟩
  · -- No operation can be classified, so the document has none.
    have hnone : ∀ {op u t}, ¬ Runs (classify (Store.empty.load D).1 table op) s u t := fun hrun =>
      hobject (isObject_of_runs_classify hlt hrun)
    have hsame : ∀ v, s.SameMethods s v := fun v =>
      ⟨rfl, id, fun entries hentries => ⟨entries, hentries, fun _ => rfl⟩, fun _ _ _ _ _ => rfl⟩
    obtain ⟨ops, hops, -, hrun⟩ := (Edit.runs_visitOperations (I := (· = s)) rfl
      (by rintro _ _ _ - rfl hpaths t rfl; exact ⟨hpaths, fun e _ => hsame e.2⟩)
      (fun _ _ op _ t u t' ht hrun => absurd (ht ▸ hrun) hnone)).mp h
    refine ⟨ops, hops, hrun, fun hne => ?_⟩
    cases ops with
    | nil => exact absurd rfl hne
    | cons op rest =>
      obtain ⟨t, hclassify, -⟩ := runs_forM_cons.mp hrun
      exact absurd hclassify hnone

/-- The schema to which an operation refers in a role. -/
def SchemaOf (s : Store) (root : Value) (op : Operation) (role : Role) (v : Value) : Prop :=
  ∃ handle, s.field? op.content role.operationKey = some handle ∧ s.dereference root handle = .ok v

/-- **Exclusive roles.** Let all operations of a JSON document be classified whose references are plain, and in which none
of the names stands that the operations make. Then every operation refers to a schema in each role, and each of these
schemas is tagged with the role in which operations refer to it. So operations never refer to one schema in different
roles. -/
theorem roles_exclusive (hD : D.IsJson) (hplain : ∀ p ∈ D.pointers, Pointer.Plain p)
    (hopen : Runs (openTable (Store.empty.load D).1) (Store.empty.load D).2 table s)
    (hops : s.operations (Store.empty.load D).1 = .ok ops)
    (hfresh : ∀ op ∈ ops, ∀ role, s.field? table.schemas (op.schemaName role) = none)
    (hrun : Runs (visitOperations (Store.empty.load D).1 (classify (Store.empty.load D).1 table)) s n s') :
    (∀ op ∈ ops, ∀ role, ∃ v, SchemaOf s' (Store.empty.load D).1 op role v) ∧
      (∀ op ∈ ops, ∀ role v, SchemaOf s' (Store.empty.load D).1 op role v →
        s'.field? v roleKey = some (.text role.text)) ∧
      ∀ op ∈ ops, ∀ op' ∈ ops, ∀ role role' v, SchemaOf s' (Store.empty.load D).1 op role v →
        SchemaOf s' (Store.empty.load D).1 op' role' v → role = role' := by
  have hroles : ∀ op ∈ ops, ∀ role, ∃ v, SchemaOf s' (Store.empty.load D).1 op role v ∧
      s'.field? v roleKey = some (.text role.text) := by
    intro op hop role
    obtain ⟨ops', hops', hforM, htable⟩ := runs_forM_of_visitOperations hD hopen hrun
    obtain rfl := Except.ok.inj (hops'.symm.trans hops)
    obtain ⟨root, hroot, hopened⟩ := opened_of_load hD hopen
    rw [hroot] at hopen hops hforM ⊢
    have hobject := htable (List.ne_nil_of_mem hop)
    obtain ⟨T, _, hshape⟩ := hobject
    obtain ⟨hnode, -⟩ := Store.shape_eq_object.mp hshape
    obtain ⟨c, entries, hopened⟩ := hopened T hnode
    rw [hnode] at hfresh hshape
    have hcontents := hopened.areContents hops
    have hclosed := hopened.closed_ordinaryRegion hcontents
      (fun v p hv hp => hplain p (hopened.mem_pointers hD hroot hopen hnode hv hp)) ⟨T, _, hshape⟩
    have hnamed : (ordinaryRegion s root c T entries).Named (hopened.site hcontents) ops' s :=
      ⟨hclosed, fun op hop i hi => ⟨op, hop, hi⟩, fun op hop role v hv => by simp [Opened.site, hfresh op hop role] at hv⟩
    obtain ⟨r, -, hhandled⟩ := handled_of_runs_forM hnode hnamed (List.Subset.refl _) hforM
    obtain ⟨handle, hfield, -, k, v, hchain, hrole⟩ := hhandled op hop role
    exact ⟨v, ⟨handle, hfield, Store.dereference_eq_ok.mpr ⟨k, hchain⟩⟩, hrole.field_eq⟩
  have htagged : ∀ op ∈ ops, ∀ role v, SchemaOf s' (Store.empty.load D).1 op role v →
      s'.field? v roleKey = some (.text role.text) := by
    rintro op hop role v ⟨handle, hfield, hv⟩
    obtain ⟨w, ⟨handle', hfield', hw⟩, hrole⟩ := hroles op hop role
    obtain rfl := Option.some.inj (hfield.symm.trans hfield')
    obtain rfl := Except.ok.inj (hv.symm.trans hw)
    exact hrole
  refine ⟨fun op hop role => (hroles op hop role).imp fun _ => And.left, htagged, fun op hop op' hop' role role' v hv hv' => ?_⟩
  exact Role.text_injective (by simpa using (htagged op hop role v hv).symm.trans (htagged op' hop' role' v hv'))

/-- Classifies all operations of a document and answers them with the store that its table has been opened in. -/
def classifyVisited (document : Value) : Edit (List Operation × SchemaTable × Store) := do
  let table ← openTable document
  let s ← get
  let ops ← ofExcept (s.operations document)
  let _ ← visitOperations document (classify document table)
  return (ops, table, s)

/-- Two operations that share their names and the schema of their replies. -/
theorem roles_exclusive_sharedName :
    let document := Procedure.sharedName
    let start := Store.empty.load document
    document.IsJson ∧ (∀ p ∈ document.pointers, Pointer.Plain p) ∧ ∃ table s ops n s',
      Runs (openTable start.1) start.2 table s ∧ s.operations start.1 = .ok ops ∧ ops.length = 2 ∧
      (∀ op ∈ ops, ∀ role, s.field? table.schemas (op.schemaName role) = none) ∧
      Runs (visitOperations start.1 (classify start.1 table)) s n s' ∧
      ∀ op ∈ ops, ∀ role, ∃ v, SchemaOf s' start.1 op role v ∧ s'.field? v roleKey = some (.text role.text) := by
  intro document start
  have hjson : document.IsJson := by decide +kernel
  have hpointers : document.pointers = [pointerTo "Reply", pointerTo "Reply"] := by decide +kernel
  have hplain : ∀ p ∈ document.pointers, Pointer.Plain p := by
    intro p hp
    obtain rfl : p = pointerTo "Reply" := by simpa [hpointers] using hp
    exact ⟨"schemas", "Reply", rfl, by decide +kernel, by decide +kernel⟩
  have hpasses : Procedure.passes (.ofEdit (classifyVisited start.1)) ⟨start.2, []⟩ (fun (ops, table, s) _ =>
      ops.length == 2 && ops.all fun op => [Role.path, .request, .response].all fun role =>
        (s.field? table.schemas (op.schemaName role)).isNone) = true := by decide +kernel
  obtain ⟨⟨_, _, _⟩, _, hrun, hcheck⟩ := Procedure.exists_runs_of_passes hpasses
  obtain ⟨t, hvisited, -⟩ := Procedure.runs_ofEdit.mp hrun
  simp only [classifyVisited, runs_bind, runs_get, runs_ofExcept, runs_pure, Prod.mk.injEq] at hvisited
  obtain ⟨table, s, hopen, _, _, ⟨rfl, rfl⟩, ops, _, ⟨hops, rfl⟩, n, s', hvisit, ⟨rfl, rfl, rfl⟩, rfl⟩ := hvisited
  obtain ⟨hlength, hnames⟩ := Bool.and_eq_true_iff.mp hcheck
  have hfresh : ∀ op ∈ ops, ∀ role, s.field? table.schemas (op.schemaName role) = none := by
    intro op hop role
    have hall := List.all_eq_true.mp hnames op hop
    exact Option.isNone_iff_eq_none.mp (List.all_eq_true.mp hall role (by cases role <;> decide))
  obtain ⟨hschemas, hroles, -⟩ := roles_exclusive hjson hplain hopen hops hfresh hvisit
  exact ⟨hjson, hplain, table, s, ops, n, _, hopen, hops, by simpa using hlength, hfresh, hvisit,
    fun op hop role => (hschemas op hop role).imp fun v hv => ⟨hv, hroles op hop role v hv⟩⟩

end Edit

end DeviceApi
