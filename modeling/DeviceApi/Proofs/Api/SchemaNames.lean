import DeviceApi.Proofs.Api.Listing
import DeviceApi.Proofs.Api.Region
import DeviceApi.Proofs.Text.Case

/-!
# Names of registered schemas

The name of a schema is made of letters and digits and begins with a capital, which is why a pointer to it needs
no encoding and why it can never be one of the keys on the way to the table. The role can be read off its end.
-/

namespace DeviceApi

variable {s s' s₀ s₁ t t' : Store} {root schema reference : Value} {table : SchemaTable} {op : Operation} {role : Role}

namespace Store

/-- The operation comes up when the operations of a document are visited in order: it belongs to paths in front of
the first one that is refused. -/
def Yields (s : Store) (document : Value) (op : Operation) : Prop :=
  ∃ paths visited ops, s.paths document = .ok paths ∧ visited <+: paths ∧ s.pathOperations visited = .ok ops ∧ op ∈ ops

/-- All operations of a document that can be listed come up. -/
theorem yields_of_operations {ops : List Operation} (h : s.operations root = .ok ops) (hop : op ∈ ops) :
    s.Yields root op := by
  obtain ⟨paths, hpaths, hops⟩ := operations_eq_ok.mp h
  exact ⟨paths, paths, ops, hpaths, List.prefix_rfl, hops, hop⟩

theorem Yields.id_eq (h : s.Yields root op) : op.id = s!"{op.method.text}_{pathId op.path}" := by
  obtain ⟨paths, visited, ops, -, -, hops, hop⟩ := h
  obtain ⟨e, -, path, entries, -, -, -, hmem⟩ := (mem_pathOperations hops).mp hop
  rw [methodOperations_eq, List.mem_filterMap] at hmem
  obtain ⟨method, -, hat⟩ := hmem
  exact (operationAt?_present hat).2

/-- The components of the document have the table under its key. -/
def HasTable (s : Store) (root : Value) (table : SchemaTable) : Prop :=
  ∃ components, s.field? root "components" = some components ∧ s.field? components "schemas" = some table.schemas

end Store

/-! ### The names -/

theorem Operation.typeId_alphanum (op : Operation) : ∀ c ∈ op.typeId.toList, c.isAlphanum = true :=
  fun _ => Text.isAlphanum_of_mem_toPascalCase

/-- The name begins with the name of the method, which ends in front of the underscore. -/
theorem Operation.capitalize_method_prefix (h : op.id = s!"{op.method.text}_{pathId op.path}") :
    Text.capitalize op.method.text.toList <+: op.typeId.toList := by
  have hmethod : op.method.text.toList ≠ [] ∧ ∀ c ∈ op.method.text.toList, c.isAlphanum = true := by
    cases op.method <;> exact ⟨by decide, List.all_eq_true.mp (by decide)⟩
  have hid : op.id.toList = op.method.text.toList ++ '_' :: (pathId op.path).toList := by
    rw [h, String.toList_append, String.toList_append, List.append_assoc]
    rfl
  rw [typeId, Text.toPascalCase, String.toList_ofList, hid, Text.words,
    Text.runs_append_cons hmethod.1 hmethod.2 (by decide), List.flatMap_cons]
  exact List.prefix_append _ _

/-- The end of the name tells the role, and the rest is the name of the operation. -/
theorem Operation.schemaName_inj {op' : Operation} {role' : Role} (h : op.schemaName role = op'.schemaName role') :
    op.typeId = op'.typeId ∧ role = role' := by
  have hrole : role = role' := by
    have hlast := congrArg (fun name : String => name.toList.getLast?) h
    simp only [schemaName, String.toList_append] at hlast
    cases role <;> cases role' <;> first | rfl | simp [Role.text] at hlast
  subst hrole
  exact ⟨(String.append_left_inj role.text).mp h, rfl⟩

/-- The keys on the way to the table begin with small letters. -/
theorem Operation.schemaName_ne_wayKey (op : Operation) (role : Role) :
    op.schemaName role ≠ "components" ∧ op.schemaName role ≠ "schemas" := by
  refine ⟨fun heq => ?_, fun heq => ?_⟩ <;>
    · have hlist := congrArg (List.reverse ∘ String.toList) heq
      cases role <;> simp [schemaName, Role.text, String.toList_append] at hlist

/-! ### The way to the table -/

namespace Store

/-- The way to the table stays when values are put under other keys than those on it. -/
theorem HasTable.puts (h : s.HasTable root table)
    (hputs : s.Puts (fun _ key _ => key ≠ "components" ∧ key ≠ "schemas") s') : s'.HasTable root table := by
  obtain ⟨components, hcomponents, hschemas⟩ := h
  refine ⟨components, ?_, ?_⟩
  · rw [hputs.field?_eq (isObject_of_field? hcomponents).lt fun _ _ _ hne => hne.1 rfl, hcomponents]
  · rw [hputs.field?_eq (isObject_of_field? hschemas).lt fun _ _ _ hne => hne.2 rfl, hschemas]

/-- What is something remains something. -/
theorem Puts.isNull_eq_false {allowed : Nat → String → Value → Prop} (h : s.Puts allowed s')
    (hschema : s.isNull schema = false) : s'.isNull schema = false := by
  cases schema with
  | scalar a => exact hschema
  | node i =>
    have hlt : i < s.cells.size := by
      by_contra hi
      rw [isNull, shape, Array.getElem?_eq_none (not_lt.mp hi)] at hschema
      cases hschema
    exact isNull_node (Array.getElem?_eq_getElem (hlt.trans_le h.size_le))

theorem HasTable.resolve (h : s.HasTable root table)
    (hfield : s.field? table.schemas (op.schemaName role) = some schema) (hschema : s.isNull schema = false) :
    s.resolve root (pointerTo (op.schemaName role)) = .ok schema := by
  obtain ⟨components, hcomponents, hschemas⟩ := h
  have hobject : ∀ {v w : Value} {key : String}, s.field? v key = some w →
      s.step v key = .ok (some w) ∧ s.isNull v = false := by
    intro v w key hfield
    obtain ⟨id, entries, hshape⟩ := isObject_of_field? hfield
    exact ⟨by rw [step_eq_field? ⟨id, entries, hshape⟩, hfield], by rw [isNull, hshape]⟩
  rw [pointerTo_eq, resolve_plain (by decide) (op.simple_schemaName role)]
  exact ⟨components, table.schemas, (hobject hcomponents).1, (hobject hschemas).2, (hobject hschemas).1,
    (hobject hfield).2, (hobject hfield).1, hschema⟩

end Store

namespace Edit

open Store

theorem puts_fieldOrNew {v w : Value} {key : String} (h : Runs (fieldOrNew v key) s w s') :
    s.Puts (fun _ k _ => k = key) s' ∧ s'.field? v key = some w := by
  obtain ⟨id, entries, hshape, ⟨hget, rfl⟩ | ⟨-, rfl, rfl⟩⟩ := runs_fieldOrNew h
  · exact ⟨.grow (.refl _), field?_eq_some.mpr ⟨id, entries, hshape, hget⟩⟩
  · have hadded : (s.add (.object [])).2.shape v = .object id entries := shape_add_of_shape hshape
    exact ⟨.trans (.grow (.add _ _)) (.put (shape_eq_object.mp hadded).2 rfl),
      field?_eq_some.mpr ⟨id, _, shape_set_of_shape hadded, Entries.get?_put_self⟩⟩

theorem hasTable_of_openTable (h : Runs (openTable root) s₀ table s) : s.HasTable root table := by
  simp only [openTable, runs_bind, runs_pure] at h
  obtain ⟨components, s₁, hcomponents, schemas, _, hschemas, rfl, rfl⟩ := h
  obtain ⟨-, hfirst⟩ := puts_fieldOrNew hcomponents
  obtain ⟨hputs, hsecond⟩ := puts_fieldOrNew hschemas
  refine ⟨components, ?_, hsecond⟩
  rw [hputs.field?_eq (isObject_of_field? hfirst).lt fun _ _ _ heq => absurd heq (by decide), hfirst]

@[simp] theorem runs_resolve {pointer : String} :
    Runs (resolve root (.text pointer)) s schema s' ↔ s.resolve root pointer = .ok schema ∧ s = s' := by
  have hshape : s.shape (.text pointer) = .scalar (.text pointer) := rfl
  simp only [resolve, runs_get_bind, hshape]
  cases s.resolve root pointer with
  | ok v => simp
  | error f => simp

/-- Registering puts the schema under its name only. -/
theorem puts_schemaName (h : Runs (table.register (.text (op.schemaName role)) schema) s reference s') :
    s.Puts (fun _ key _ => key = op.schemaName role) s' := by
  obtain ⟨id, entries, hshape, -, rfl⟩ := runs_register h
  exact .trans (.put (v := schema) (shape_eq_object.mp hshape).2 rfl) (.grow (.add _ (referenceCell _)))

/-- Registering keeps the way to the table, and the reference that it answers leads to the schema. -/
theorem resolves_of_register (htable : s.HasTable root table) (hschema : s.isNull schema = false)
    (h : Runs (table.register (.text (op.schemaName role)) schema) s reference s') :
    s'.HasTable root table ∧ ∃ pointer, s'.field? reference referenceKey = some (.text pointer) ∧
      Runs (resolve root (.text pointer)) s' schema s' := by
  have hputs := puts_schemaName h
  have htable' := htable.puts (hputs.mono fun i key v heq => heq ▸ op.schemaName_ne_wayKey role)
  obtain ⟨T, entries, hshape, -⟩ := runs_register h
  obtain ⟨hnode, -⟩ := shape_eq_object.mp hshape
  obtain ⟨hfield, j, rfl, -, hreference⟩ := field?_of_register hnode h
  exact ⟨htable', pointerTo (op.schemaName role), field?_node hreference,
    runs_resolve.mpr ⟨htable'.resolve (hnode ▸ hfield) (hputs.isNull_eq_false hschema), rfl⟩⟩

/-- **The names of schemas are well-formed, and references to them lead to the schemas.** The name of an operation
that comes up in a document has letters and digits only and begins with the method, its first letter a capital. A
schema other than nothing that is registered under the name of any role, which can be done just if the table is an
object, is what the resolver answers for the reference to it. Two names are the same only if the operations have the same
name and the roles are the same. -/
theorem schemaNames_resolve (hyields : s.Yields root op) :
    (∀ c ∈ op.typeId.toList, c.isAlphanum = true) ∧
    Text.capitalize op.method.text.toList <+: op.typeId.toList ∧
    (∀ table s₀ s₁, Runs (openTable root) s₀ table s₁ → s₁.HasTable root table) ∧
    (∀ table role schema t, t.HasTable root table → t.isNull schema = false →
      ((∃ reference t', Runs (table.register (.text (op.schemaName role)) schema) t reference t') ↔
        t.IsObject table.schemas) ∧
      ∀ reference t', Runs (table.register (.text (op.schemaName role)) schema) t reference t' →
        t'.HasTable root table ∧ ∃ pointer, t'.field? reference referenceKey = some (.text pointer) ∧
          Runs (resolve root (.text pointer)) t' schema t') ∧
    ∀ (op' : Operation) role role', op.schemaName role = op'.schemaName role' →
      op.typeId = op'.typeId ∧ role = role' := by
  refine ⟨op.typeId_alphanum, op.capitalize_method_prefix hyields.id_eq, fun _ _ _ => hasTable_of_openTable,
    fun table role schema t htable hschema => ⟨⟨?_, fun hobject => ?_⟩, fun _ _ => resolves_of_register htable hschema⟩,
    fun op' role role' => op.schemaName_inj⟩
  · rintro ⟨reference, t', h⟩
    obtain ⟨id, entries, hshape, -⟩ := runs_register h
    exact ⟨id, entries, hshape⟩
  · obtain ⟨reference, t', h, -⟩ := exists_runs_register (op.schemaName role) schema hobject
    exact ⟨reference, t', h⟩

/-- The placeholder of the path is no part of the name. -/
theorem schemaNames_resolve_is_connected :
    let start := Store.empty.load (.ofFields [("paths", .ofFields [("/telescope/\x7bnumber\x7d/is_connected",
      .ofFields [("get", .ofFields [("deprecated", .scalar (.bool true))])])])])
    ∃ table s op reference s', Runs (openTable start.1) start.2 table s ∧ s.Yields start.1 op ∧
      op.typeId = "GetTelescopeIsConnected" ∧ s.isNull op.content = false ∧
      Runs (table.register (.text (op.schemaName .response)) op.content) s reference s' ∧
      ∃ pointer, s'.field? reference referenceKey = some (.text pointer) ∧
        Runs (resolve start.1 (.text pointer)) s' op.content s' := by
  intro start
  have hpasses : Procedure.passes (.ofEdit (openTable start.1)) ⟨start.2, []⟩ (fun table session =>
      (session.store.entries? table.schemas).isSome &&
        (session.store.operations start.1).toOption.any fun ops => ops.any fun op =>
          op.typeId == "GetTelescopeIsConnected" && !session.store.isNull op.content) = true := by decide
  obtain ⟨table, _, hrun, hcheck⟩ := Procedure.exists_runs_of_passes hpasses
  obtain ⟨s, hopen, rfl⟩ := Procedure.runs_ofEdit.mp hrun
  obtain ⟨htable, hlisted⟩ := Bool.and_eq_true_iff.mp hcheck
  obtain ⟨ops, hops, hany⟩ := (Option.any_eq_true _ _).mp hlisted
  obtain ⟨op, hop, hboth⟩ := List.any_eq_true.mp hany
  obtain ⟨htypeId, hnull⟩ : op.typeId = "GetTelescopeIsConnected" ∧ s.isNull op.content = false := by simpa using hboth
  have hyields : s.Yields start.1 op := yields_of_operations (toOption_eq_some.mp hops) hop
  obtain ⟨-, -, hopens, hresolves, -⟩ := schemaNames_resolve hyields
  obtain ⟨hregisters, hleads⟩ := hresolves table .response op.content s (hopens table _ s hopen) hnull
  obtain ⟨fields, hfields⟩ := Option.isSome_iff_exists.mp htable
  obtain ⟨reference, s', hregister⟩ := hregisters.mpr ((entries?_eq_some.mp hfields).imp fun id hid => ⟨fields, hid⟩)
  exact ⟨table, s, op, reference, s', hopen, hyields, htypeId, hnull, hregister, (hleads reference s' hregister).2⟩

end Edit

end DeviceApi
