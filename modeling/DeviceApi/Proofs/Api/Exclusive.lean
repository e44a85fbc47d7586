import DeviceApi.Proofs.Api.Grouping
import DeviceApi.Proofs.Api.Keeping

/-!
# Schemas keep to one role

Every operation refers to one schema in each role. Classification tags the schemas that it adopts, a schema is never
given another role, and what the table has under the name of an operation and a role has that role. So the references
of an operation end at schemas with their roles, whatever is classified later.
-/

namespace DeviceApi

namespace Region

variable {r r' r'' : Region} {site : Site} {names : Set String} {ops : List Operation} {s s' s'' : Store} {v w : Value}
  {op : Operation} {role : Role}

/-- The store of a document some of whose operations have been classified: what the table has under the name of an
operation and a role has this role. -/
structure Named (r : Region) (site : Site) (ops : List Operation) (s : Store) : Prop extends r.Closed site s where
  contents : ∀ op ∈ ops, ∀ i, op.content = .node i → i ∈ site.contents
  hasRole : ∀ op ∈ ops, ∀ (role : Role) v, s.field? (.node site.table) (op.schemaName role) = some v → s.HasRole v role

/-- The operation refers to a schema with the role. -/
def Handled (r : Region) (site : Site) (s : Store) (op : Operation) (role : Role) : Prop :=
  ∃ w, s.field? op.content role.operationKey = some w ∧ r.Inner w ∧ s.EndsAs (.node site.root) w role

/-- From one store to the other operations have been classified: those that refer to schemas with their roles still do. -/
structure Advances (site : Site) (ops : List Operation) (r : Region) (s : Store) (r' : Region) (s' : Store) : Prop where
  within : r.Within r'
  named : r'.Named site ops s'
  handled : ∀ op ∈ ops, ∀ role, r.Handled site s op role → r'.Handled site s' op role

theorem Advances.refl (h : r.Named site ops s) : Advances site ops r s r s := ⟨.refl r, h, fun _ _ _ => id⟩

theorem Advances.trans (h : Advances site ops r s r' s') (h' : Advances site ops r' s' r'' s'') :
    Advances site ops r s r'' s'' :=
  ⟨h.within.trans h'.within, h'.named, fun op hop role hhandled => h'.handled op hop role (h.handled op hop role hhandled)⟩

/-- Schemas with the role of their names may come into the table. -/
theorem Keeps.advances (h : r.Keeps site names s s') (role : Role) (hs : r.Named site ops s) (hs' : r'.Closed site s')
    (hsub : r.Within r') (hcontents : ∀ i ∈ site.contents, s'.cells[i]? = s.cells[i]?) (hop : op ∈ ops)
    (hnames : ∀ name ∈ names, name = op.schemaName role ∧
      ∃ u, s'.field? (.node site.table) (.text name) = some u ∧ s'.HasRole u role) : Advances site ops r s r' s' where
  within := hsub
  named := by
    refine ⟨hs', hs.contents, fun op' hop' role' v hv => ?_⟩
    by_cases hmem : op'.schemaName role' ∈ names
    · obtain ⟨heq, u, hfield, hrole⟩ := hnames _ hmem
      obtain ⟨-, rfl⟩ := Operation.schemaName_injective heq
      obtain rfl : u = v := Option.some.inj (hfield.symm.trans hv)
      exact hrole
    · rw [h.table_eq _ hmem] at hv
      obtain ⟨cell, hcell, hpart⟩ := Store.part_of_field? hv
      exact h.hasRole (hs.part_group _ cell v site.table_mem hcell hpart) (hs.hasRole op' hop' role' v hv)
  handled := by
    rintro op' hop' role' ⟨w, hfield, hw, hends⟩
    have hcontent : s'.shape op'.content = s.shape op'.content := by
      obtain ⟨id, _, hshape, -⟩ := Store.field?_eq_some.mp hfield
      obtain ⟨heq, -⟩ := Store.shape_eq_object.mp hshape
      simp only [heq, Store.shape, hcontents id (hs.contents op' hop' id heq)]
    refine ⟨w, (Store.field?_eq_of_shape_eq hcontent).trans hfield, hw.within hsub, ?_⟩
    refine h.endsAs hs.toClosed hs' role (fun name hname => ?_) (fun name hname u hu => ?_) (fun name hname => (hnames name hname).2)
      hw.target hends
    · exact (hnames name hname).1 ▸ op.simple_schemaName role
    · exact hs.hasRole op hop role u ((hnames name hname).1 ▸ hu)

end Region

namespace Edit

open Region

variable {r : Region} {site : Site} {ops : List Operation} {s s' : Store} {v w : Value} {u : Unit} {op : Operation}
  {role : Role} {table : SchemaTable} {content : Content} {name key : String}

/-- An operation may be given something that is inside of the region, as its handle if it ends at a schema with the
role. -/
theorem advances_putField (hs : r.Named site ops s) (hop : op ∈ ops) (hw : r.Inner w)
    (hends : ∀ role : Role, role.operationKey = key → s.EndsAs (.node site.root) w role)
    (h : Runs (putField op.content (.text key) w) s u s') :
    Advances site ops r s r s' ∧ ∀ role : Role, role.operationKey = key → r.Handled site s' op role := by
  obtain ⟨i, entries, hshape, rfl⟩ := runs_putField.mp h
  obtain ⟨hcontent, hcell⟩ := Store.shape_eq_object.mp hshape
  have hi := hs.contents op hop i hcontent
  obtain ⟨hroot, hcomponents⟩ := site.content_apart i hi
  have hgroup : i ∉ site.groups := fun hmem => (site.group_apart i hmem).2.2 hi
  have hnot : ¬ (i ∈ r.inner ∨ i ∈ r.grouped) := fun hmem => (hs.apart i hmem).2.2.2 hi
  have hclosed : r.Closed site (s.set i (.object (entries.put (.text key) w))) :=
    hs.put hcell ⟨hroot, hcomponents⟩ (fun hmem => absurd (.inl hmem) hnot)
      (fun hmem => absurd (.inr hmem) hnot) (fun hmem => absurd hmem hgroup) (fun _ => hw)
  have hkeeps : r.Keeps site ∅ s (s.set i (.object (entries.put (.text key) w))) :=
    .put hcell hcomponents (fun hmem => absurd hmem hgroup) (fun hmem => absurd hmem hnot) fun hmem => absurd hmem hnot
  have hstill : ∀ {v role}, r.Inner v → s.EndsAs (.node site.root) v role →
      (s.set i (.object (entries.put (.text key) w))).EndsAs (.node site.root) v role := fun hv hends =>
    hkeeps.endsAs hs.toClosed hclosed .path (by simp) (by simp) (by simp) hv.target hends
  refine ⟨⟨.refl r, ⟨hclosed, hs.contents, fun op' hop' role' v hv => ?_⟩, ?_⟩, ?_⟩
  · rw [hkeeps.table_eq _ (by simp)] at hv
    obtain ⟨cell, hcell', hpart⟩ := Store.part_of_field? hv
    exact hkeeps.hasRole (hs.part_group _ cell v site.table_mem hcell' hpart) (hs.hasRole op' hop' role' v hv)
  · rintro op' hop' role' ⟨w', hfield, hw', hends'⟩
    rw [Handled, Store.field?_set_put hcell]
    by_cases heq : op'.content = .node i ∧ role'.operationKey = key
    · exact ⟨w, if_pos heq, hw, hstill hw (hends role' heq.2)⟩
    · exact ⟨w', (if_neg heq).trans hfield, hw', hstill hw' hends'⟩
  · rintro role rfl
    exact ⟨w, (Store.field?_set_put hcell).trans (if_pos ⟨hcontent, rfl⟩), hw, hstill hw (hends role rfl)⟩

theorem advances_handle (hs : r.Named site ops s) (hop : op ∈ ops) (hw : r.Inner w)
    (hends : s.EndsAs (.node site.root) w role) (h : Runs (putField op.content role.operationKey w) s u s') :
    Advances site ops r s r s' ∧ r.Handled site s' op role := by
  obtain ⟨hadvances, hhandled⟩ := advances_putField hs hop hw (fun role' heq => operationKey_injective heq ▸ hends) h
  exact ⟨hadvances, hhandled role rfl⟩

section

variable (hs : r.Closed site s)
include hs

/-- What is inside of the region may be put into a node of the region, but neither as a pointer nor as a content nor in
place of a role. -/
theorem closed_put {i : Nat} {entries : Entries Value} (hi : i ∈ r.inner ∨ i ∈ r.grouped)
    (hcell : s.cells[i]? = some (.object entries)) (hw : r.Inner w) (hkey : key ∉ [referenceKey, "content"])
    (hrole : key = roleKey → ∀ role : Role, entries.get? roleKey = some (.text role.text) → w = .text role.text) :
    let s' := s.set i (.object (entries.put (.text key) w))
    r.Closed site s' ∧ r.Keeps site ∅ s s' ∧ (∀ j ∈ site.contents, s'.cells[j]? = s.cells[j]?) ∧
      s'.field? (.node i) (.text key) = some w := by
  intro s'
  obtain ⟨hroot, hcomponents, hgroup, hcontent⟩ := hs.apart i hi
  have hpointer : key ≠ referenceKey := fun heq => hkey (heq ▸ List.mem_cons_self)
  refine ⟨hs.put hcell ⟨hroot, hcomponents⟩ (fun _ => ⟨hpointer, hw⟩) (fun _ => hkey) (fun hmem => absurd hmem hgroup)
    (fun hmem => absurd hmem hcontent), .put hcell hcomponents (fun hmem => absurd hmem hgroup) (fun _ => hpointer)
    fun _ => hrole, fun j hj => ?_, ?_⟩
  · rw [Store.cells_set, if_neg]
    rintro ⟨rfl, -⟩
    exact hcontent hj
  · rw [Store.field?_set_put hcell, if_pos ⟨rfl, rfl⟩]

/-- A schema of the region may be tagged. -/
theorem closed_setRole (hv : r.Target v) (h : Runs (setRole v role) s u s') :
    r.Closed site s' ∧ r.Keeps site ∅ s s' ∧ (∀ i ∈ site.contents, s'.cells[i]? = s.cells[i]?) ∧
      s'.field? v roleKey = some (.text role.text) := by
  obtain ⟨i, entries, hshape, hprevious, rfl⟩ := runs_setRole h
  obtain ⟨rfl, hcell⟩ := Store.shape_eq_object.mp hshape
  refine closed_put hs (hv i rfl) hcell (inner_scalar _) (by decide) fun _ role' hrole' => ?_
  have htext : role'.text ≠ "" := by cases role' <;> decide
  have hsame := hprevious (by simp [hrole', Store.isTruthy, Store.shape, Scalar.isTruthy, htext])
  exact (Option.some.inj (hrole'.symm.trans hsame)).symm

omit hs in
theorem field?_of_setRole (h : Runs (setRole v role) s u s') (hkey : key ≠ roleKey) :
    s'.field? w (.text key) = s.field? w (.text key) := by
  obtain ⟨i, entries, hshape, -, rfl⟩ := runs_setRole h
  obtain ⟨-, hcell⟩ := Store.shape_eq_object.mp hshape
  rw [Store.field?_set_put hcell, if_neg fun heq => hkey heq.2]

theorem closed_putField (hv : r.Inner v) (hw : r.Inner w) (hkey : key ∉ [referenceKey, "content", roleKey])
    (h : Runs (putField v (.text key) w) s u s') :
    r.Closed site s' ∧ r.Keeps site ∅ s s' ∧ (∀ i ∈ site.contents, s'.cells[i]? = s.cells[i]?) ∧
      s'.field? v (.text key) = some w := by
  obtain ⟨i, entries, hshape, rfl⟩ := runs_putField.mp h
  obtain ⟨rfl, hcell⟩ := Store.shape_eq_object.mp hshape
  refine closed_put hs (.inl (hv i rfl)) hcell hw (fun hmem => hkey (by simp at hmem ⊢; tauto)) fun heq => ?_
  exact absurd (heq ▸ by simp) hkey

/-- A schema of the region may be registered. The new reference leads to it. -/
theorem closed_register (hname : Pointer.Simple name) (hv : r.Target v)
    (htable : table.schemas = .node site.table) (h : Runs (table.register (.text name) v) s w s') :
    ∃ r', r.Within r' ∧ r'.Closed site s' ∧ r.Keeps site {name} s s' ∧
      (∀ i ∈ site.contents, s'.cells[i]? = s.cells[i]?) ∧ r'.Inner w ∧
      s'.field? (.node site.table) (.text name) = some v ∧ s'.field? w referenceKey = some (.text (pointerTo name)) := by
  obtain ⟨hfield, -, -, -, -⟩ := field?_of_register htable h
  obtain ⟨i, entries, hshape, rfl, rfl⟩ := runs_register h
  obtain ⟨heq, hcell⟩ := Store.shape_eq_object.mp hshape
  obtain rfl : site.table = i := Value.node.inj (htable.symm.trans heq)
  obtain ⟨hroot, hcomponents, hcontent⟩ := site.group_apart _ site.table_mem
  have hnot : ¬ (site.table ∈ r.inner ∨ site.table ∈ r.grouped) := fun hmem => (hs.apart _ hmem).2.2.1 site.table_mem
  set t := s.set site.table (.object (entries.put (.text name) v)) with ht
  have hput : r.Closed site t := hs.put hcell ⟨hroot, hcomponents⟩ (fun hmem => absurd (.inl hmem) hnot)
    (fun hmem => absurd (.inr hmem) hnot) (fun _ => hv) (fun hmem => absurd hmem hcontent)
  have hkeeps : r.Keeps site {name} s t := .put hcell hcomponents (fun _ => ⟨rfl, rfl⟩) (fun hmem => absurd hmem hnot)
    fun hmem => absurd hmem hnot
  have hgrows := Store.Grows.add t (referenceCell name)
  have hpointer : (t.add (referenceCell name)).2.field? (t.add (referenceCell name)).1 referenceKey =
      some (.text (pointerTo name)) := by
    refine (Store.field?_node (i := t.cells.size) (by rw [Store.cells_add, if_pos rfl]; rfl)).trans rfl
  refine ⟨r.addInner t.cells.size, r.within_addInner _, hput.add ?_ fun p hp => ?_,
    hkeeps.trans (.grow hput hgrows) (.refl r) (Set.empty_subset _), fun i hi => ?_, ?_, hfield, hpointer⟩
  · simp [referenceCell, Cell.parts, Entries.values, inner_scalar]
  · obtain rfl : pointerTo name = p := by simpa using hpointer.symm.trans hp
    exact ⟨"schemas", name, pointerTo_eq name, by decide, hname⟩
  · rw [hgrows.agree i (hput.lt_content i hi), ht, Store.cells_set, if_neg]
    rintro ⟨rfl, -⟩
    exact hcontent hi
  · intro i hi
    obtain rfl : t.cells.size = i := Value.node.inj hi
    exact .inl rfl

end

/-- The pointer to what has been registered leads to it. -/
theorem chain_pointerTo (hs : r.Closed site s) (hname : Pointer.Simple name)
    (hfield : s.field? (.node site.table) (.text name) = some v) (hnull : s.isNull v = false)
    (hnot : s.isReference v = false) (hw : s.field? w referenceKey = some (.text (pointerTo name))) :
    s.Chain (.node site.root) 1 w v :=
  .cons hw ((hs.resolve_pointerTo_iff hname).mpr ⟨hfield, hnull⟩) (.nil hnot)

/-- The schema of grouped parameters is adopted. -/
theorem advances_adoptParameters {x : Nat} (hs : r.Named site ops s) (hop : op ∈ ops)
    (htable : table.schemas = .node site.table) (hx : x ∈ r.grouped)
    (h : Runs (adoptParameters table op role (.node x)) s u s') :
    ∃ r', Advances site ops r s r' s' ∧ r'.Handled site s' op role := by
  obtain ⟨s₁, reference, s₂, hrole, hregister, hhandle⟩ := runs_adoptParameters h
  have htarget : r.Target (.node x) := fun i hi => .inr (Value.node.inj hi ▸ hx)
  have hsimple := op.simple_schemaName role
  obtain ⟨hs₁, hkeeps₁, hcontents₁, hfield₁⟩ := closed_setRole hs.toClosed htarget hrole
  obtain ⟨r₂, hsub, hs₂, hkeeps₂, hcontents₂, hinner, htable₂, hpointer⟩ :=
    closed_register hs₁ hsimple htarget htable hregister
  have hrole₂ : s₂.HasRole (.node x) role := by
    refine ⟨?_, hkeeps₂.role_eq _ role htarget hfield₁⟩
    rw [hkeeps₂.isReference_eq htarget, hkeeps₁.isReference_eq htarget, Store.isReference_eq_isSome,
      hs.grouped x hx _ List.mem_cons_self]
    rfl
  have hends : s₂.EndsAs (.node site.root) reference role := ⟨1, _, chain_pointerTo hs₂ hsimple htable₂
    (Store.isNull_eq_false (Store.isObject_of_field? hrole₂.field_eq)) hrole₂.isReference_eq hpointer, hrole₂⟩
  have hkeeps : r.Keeps site {op.schemaName role} s s₂ :=
    hkeeps₁.of_empty.trans hkeeps₂ (.refl r) subset_rfl
  have hadvances : Advances site ops r s r₂ s₂ :=
    hkeeps.advances role hs hs₂ hsub (fun i hi => (hcontents₂ i hi).trans (hcontents₁ i hi)) hop fun name hname =>
      ⟨hname, _, hname ▸ htable₂, hrole₂⟩
  obtain ⟨hlast, hhandled⟩ := advances_handle hadvances.named hop hinner hends hhandle
  exact ⟨r₂, hadvances.trans hlast, hhandled⟩

/-- A media type either refers to its schema, or the schema is registered and the media type given a reference to it. -/
theorem exists_refers {owner : Value} {type : String} {id : Nat} {fields : Entries Value} (hs : r.Closed site s)
    (htable : table.schemas = .node site.table) (howner : r.Target owner)
    (hfinds : FindsContent s (.node site.root) owner type content) (hfields : s.shape content.media = .object id fields)
    (h : (s.isReference ((fields.get? "schema").getD .null) = true ∧ s' = s) ∨
      ∃ reference t, s.isReference ((fields.get? "schema").getD .null) = false ∧
        Runs (table.register (.text (op.schemaName role)) content.schema) s reference t ∧
        Runs (putField content.media "schema" reference) t () s') :
    ∃ r' names, r.Within r' ∧ r'.Closed site s' ∧ r.Keeps site names s s' ∧
      (∀ i ∈ site.contents, s'.cells[i]? = s.cells[i]?) ∧
      (∀ name ∈ names, name = op.schemaName role ∧ s'.field? (.node site.table) (.text name) = some content.schema) ∧
      ∃ x n, s'.field? content.media "schema" = some x ∧ s'.Chain (.node site.root) (n + 1) x content.schema := by
  obtain ⟨hmedia, hschema⟩ := hs.target_content howner hfinds
  obtain ⟨-, ⟨id', fields', hfields', hdereference⟩, ⟨_, _, hobject, -⟩⟩ := hfinds
  rw [hfields, Shape.object.injEq] at hfields'
  obtain ⟨-, rfl⟩ := hfields'
  obtain ⟨n, hchain⟩ := Store.dereference_eq_ok.mp hdereference
  rcases h with ⟨hreference, rfl⟩ | ⟨reference, t, -, hregister, hput⟩
  · cases hget : fields.get? "schema" with
    | none => simp [hget, Store.isReference, Store.entries?, Store.shape] at hreference
    | some x =>
      rw [hget, Option.getD_some] at hreference hchain
      refine ⟨r, ∅, .refl r, hs, .refl, fun _ _ => rfl, by simp, x, ?_⟩
      cases hchain with
      | nil hnot => simp [hnot] at hreference
      | @cons n _ _ _ _ hpointer hresolve hchain =>
        exact ⟨n, Store.field?_eq_some.mpr ⟨id, fields, hfields, hget⟩, .cons hpointer hresolve hchain⟩
  · have hsimple := op.simple_schemaName role
    obtain ⟨r₁, hsub, hs₁, hkeeps₁, hcontents₁, hinner, htable₁, hpointer⟩ :=
      closed_register hs hsimple hschema htable hregister
    obtain ⟨hs₂, hkeeps₂, hcontents₂, hfield₂⟩ :=
      closed_putField hs₁ (hmedia.within hsub) hinner (by decide) hput
    have hkeeps := hkeeps₁.trans hkeeps₂.of_empty hsub subset_rfl
    have htable₂ := (hkeeps₂.table_eq _ (by simp)).trans htable₁
    have hnull := Store.isNull_of_size_le (Store.isNull_eq_false ⟨_, _, hobject⟩) hkeeps.size_le
    have hnot := (hkeeps.isReference_eq hschema).trans hchain.not_isReference
    refine ⟨r₁, {op.schemaName role}, hsub, hs₂, hkeeps,
      fun i hi => (hcontents₂ i hi).trans (hcontents₁ i hi), ?_, reference, 0, hfield₂, ?_⟩
    · rintro name rfl
      exact ⟨rfl, htable₂⟩
    · exact chain_pointerTo hs₂ hsimple htable₂ hnull hnot ((hkeeps₂.pointer_eq _ hinner.target).trans hpointer)

/-- The copy of a reference inside of the region is inside and ends where the reference ends. -/
theorem closed_copyObject {n : Nat} (hs : r.Closed site s) (hv : r.Inner v)
    (hchain : s.Chain (.node site.root) (n + 1) v content.schema) (h : Runs (copyObject v) s w s') :
    ∃ r', r.Within r' ∧ r'.Closed site s' ∧ r.Keeps site ∅ s s' ∧
      (∀ i ∈ site.contents, s'.cells[i]? = s.cells[i]?) ∧ r'.Inner w ∧
      s'.Chain (.node site.root) (n + 1) w content.schema := by
  obtain ⟨id, entries, hshape, rfl, rfl⟩ := runs_copyObject.mp h
  have hkeeps : r.Keeps site ∅ s (s.add (.object entries)).2 := .grow hs (.add s _)
  have hnew : (s.add (.object entries)).2.cells[s.cells.size]? = some (.object entries) := by
    rw [Store.cells_add, if_pos rfl]
  have hpointer : (s.add (.object entries)).2.field? (s.add (.object entries)).1 referenceKey = s.field? v referenceKey := by
    obtain ⟨rfl, hcell⟩ := Store.shape_eq_object.mp hshape
    exact (Store.field?_node hnew).trans (Store.field?_node hcell).symm
  have hs' : (r.addInner s.cells.size).Closed site (s.add (.object entries)).2 := by
    refine hs.add (fun w hw => ?_) fun p hp => hs.plain_pointer hv.target (hpointer ▸ hp)
    obtain ⟨e, he, rfl⟩ := List.mem_map.mp hw
    exact hs.inner_entry hv hshape he
  refine ⟨_, r.within_addInner _, hs', hkeeps, fun i hi => (Store.Grows.add s _).agree i (hs.lt_content i hi), ?_, ?_⟩
  · intro i hi
    obtain rfl : s.cells.size = i := Value.node.inj hi
    exact .inl rfl
  · cases hkeeps.chain hs hs' rfl hv.target hchain with
    | cons hp hresolve hrest =>
      rw [hkeeps.pointer_eq v hv.target] at hp
      exact .cons (hpointer.trans hp) hresolve hrest

/-- The schema of a content is adopted. -/
theorem advances_adoptContent {owner : Value} {type : String} (hs : r.Named site ops s) (hop : op ∈ ops)
    (htable : table.schemas = .node site.table) (howner : r.Target owner)
    (hfinds : FindsContent s (.node site.root) owner type content)
    (h : Runs (adoptContent table op role content) s u s') :
    ∃ r', Advances site ops r s r' s' ∧ r'.Handled site s' op role := by
  obtain ⟨s₁, s₂, id, fields, hfields, hadopt, hrole, id', fields', copy, s₃, hfields', hcopy, hhandle⟩ :=
    runs_adoptContent h
  obtain ⟨hmedia, hschema⟩ := hs.target_content howner hfinds
  obtain ⟨r₁, names, hsub₁, hs₁, hkeeps₁, hcontents₁, hnames₁, x, n, hx₁, hchain₁⟩ :=
    exists_refers hs.toClosed htable howner hfinds hfields hadopt
  obtain ⟨hs₂, hkeeps₂, hcontents₂, hfield₂⟩ := closed_setRole hs₁ (hschema.within hsub₁) hrole
  have hx := hs₁.inner_field (hmedia.within hsub₁) hx₁
  have hx₂ : s₂.field? content.media "schema" = some x := (field?_of_setRole hrole (by decide)).trans hx₁
  obtain ⟨_, _, hfields₂, hget⟩ := Store.field?_eq_some.mp hx₂
  rw [hfields', Shape.object.injEq] at hfields₂
  obtain ⟨rfl, rfl⟩ := hfields₂
  rw [hget, Option.getD_some] at hcopy
  obtain ⟨r₃, hsub₃, hs₃, hkeeps₃, hcontents₃, hinner, hchain₃⟩ :=
    closed_copyObject hs₂ hx (hkeeps₂.chain hs₁ hs₂ rfl hx.target hchain₁) hcopy
  have hkeeps₂₃ : r₁.Keeps site ∅ s₁ s₃ := hkeeps₂.trans hkeeps₃ (.refl r₁) subset_rfl
  have hrole₃ : s₃.HasRole content.schema role :=
    ⟨hchain₃.not_isReference, hkeeps₃.role_eq _ role (hschema.within hsub₁) hfield₂⟩
  have hnames₃ : ∀ name ∈ names, name = op.schemaName role ∧
      ∃ u, s₃.field? (.node site.table) (.text name) = some u ∧ s₃.HasRole u role := by
    intro name hname
    obtain ⟨heq, hfield⟩ := hnames₁ name hname
    exact ⟨heq, _, (hkeeps₂₃.table_eq name (by simp)).trans hfield, hrole₃⟩
  have hadvances : Advances site ops r s r₃ s₃ :=
    (hkeeps₁.trans hkeeps₂₃.of_empty hsub₁ subset_rfl).advances role hs hs₃ (hsub₁.trans hsub₃)
      (fun i hi => by rw [hcontents₃ i hi, hcontents₂ i hi, hcontents₁ i hi]) hop hnames₃
  obtain ⟨hlast, hhandled⟩ := advances_handle hadvances.named hop hinner ⟨_, _, hchain₃, hrole₃⟩ hhandle
  exact ⟨r₃, hadvances.trans hlast, hhandled⟩

/-! ## Operations -/

/-- Nodes may be added to the store of a document. -/
theorem advances_grow (hs : r.Named site ops s) (hop : op ∈ ops) (hgrows : s.Grows s') : Advances site ops r s r s' := by
  have hkeeps : r.Keeps site ∅ s s' := .grow hs.toClosed hgrows
  exact hkeeps.advances .path hs (hs.grow hgrows) (.refl r) (fun i hi => hgrows.agree i (hs.lt_content i hi)) hop
    fun name hname => absurd hname (by simp)

/-- The schema of a new group comes into the region. -/
theorem advances_group {x : Nat} {entries : Entries Value} (hs : r.Named site ops s)
    (hcell : s.cells[x]? = some (.object entries)) (hkeys : ∀ key : String, key ∉ groupKeys → entries.get? key = none)
    (hx : x ≠ site.root ∧ x ≠ site.components ∧ x ∉ site.groups ∧ x ∉ site.contents) :
    Advances site ops r s (r.addGrouped x) s := by
  have hsub := r.within_addGrouped x
  refine ⟨hsub, ⟨hs.group hcell (fun key hkey => hkeys key ?_) hx, hs.contents, hs.hasRole⟩,
    fun op hop role ⟨w, hfield, hw, hends⟩ => ⟨w, hfield, hw.within hsub, hends⟩⟩
  rcases List.mem_pair.mp hkey with rfl | rfl <;> decide

/-- The groups of the parameters come into the region. -/
theorem advances_groupParameters {path : Value} {query : Option Value} (hs : r.Named site ops s) (hop : op ∈ ops)
    (h : Runs (groupParameters v w) s (some path, query) s') :
    ∃ r', Advances site ops r s r' s' ∧ (∃ x ∈ r'.grouped, path = .node x) ∧
      ∀ q, query = some q → ∃ x ∈ r'.grouped, q = .node x := by
  have hgrown := advances_grow hs hop (grows_groupParameters h)
  obtain ⟨hnew, -⟩ := new_of_groupParameters h
  have hfresh : ∀ x, s.cells.size ≤ x → x ≠ site.root ∧ x ≠ site.components ∧ x ∉ site.groups ∧ x ∉ site.contents := by
    intro x hx
    have hroot := (Store.isObject_of_field? hs.root_components).lt _ rfl
    have hcomponents := (Store.isObject_of_field? hs.components_table).lt _ rfl
    exact ⟨by omega, by omega, fun hmem => absurd (hs.lt_group x hmem) (by omega),
      fun hmem => absurd (hs.lt_content x hmem) (by omega)⟩
  obtain ⟨x, entries, rfl, hx, hcell, hkeys⟩ := hnew path (by simp)
  have hpath := advances_group hgrown.named hcell hkeys (hfresh x hx)
  cases query with
  | none => exact ⟨_, hgrown.trans hpath, ⟨x, .inl rfl, rfl⟩, by simp⟩
  | some q =>
    obtain ⟨y, entries', rfl, hy, hcell', hkeys'⟩ := hnew q (by simp)
    have hquery := advances_group hpath.named hcell' hkeys' (hfresh y hy)
    refine ⟨_, (hgrown.trans hpath).trans hquery, ⟨x, .inr (.inl rfl), rfl⟩, fun q hq => ?_⟩
    exact ⟨y, .inl rfl, (Option.some.inj hq).symm⟩

/-- What an operation declares is inside of the region. -/
theorem inner_declared {id : Nat} {fields : Entries Value} (hs : r.Named site ops s) (hop : op ∈ ops)
    (hshape : s.shape op.content = .object id fields) : r.Inner ((fields.get? key).getD .null) := by
  cases hget : fields.get? key with
  | none => exact inner_scalar _
  | some w =>
    obtain ⟨hcontent, hcell⟩ := Store.shape_eq_object.mp hshape
    exact hs.content_field (hs.contents op hop id hcontent) ((Store.field?_node hcell).trans hget)

theorem inner_responsesOf {responses : Entries Value} (hs : r.Named site ops s) (hop : op ∈ ops)
    (h : Runs (responsesOf op) s responses s') : r.Inner ((responses.get? key).getD .null) := by
  cases hget : responses.get? key with
  | none => exact inner_scalar _
  | some w =>
    obtain ⟨-, id, fields, declared, hshape, hdeclared, rfl⟩ := runs_responsesOf h
    rcases Entries.mem_or_of_mem_putAll (Entries.mem_of_get? hget) with hnil | hmem
    · cases hnil
    · obtain ⟨_, hpair, heq⟩ := List.mem_map.mp hmem
      obtain ⟨e, he, rfl⟩ := List.mem_map.mp hpair
      obtain rfl : e.2 = w := heq
      split at hdeclared
      · obtain ⟨_, hresponses⟩ := hdeclared
        exact hs.inner_entry (inner_declared hs hop hshape) hresponses he
      · simp [← hdeclared] at he

/-- The request of an operation is adopted, whether it is a query or a form. -/
theorem advances_request {query : Option Value} {body : Value} (hs : r.Named site ops s) (hop : op ∈ ops)
    (htable : table.schemas = .node site.table) (hquery : ∀ q, query = some q → ∃ x ∈ r.grouped, q = .node x)
    (hbody : r.Target body)
    (h : Runs (if op.method = .get then classifyQuery table op query body
      else classifyForm (.node site.root) table op query body) s u s') :
    ∃ r', Advances site ops r s r' s' ∧ r'.Handled site s' op .request := by
  have hencode : ∀ {r t text}, r.Named site ops t → Runs (putField op.content encodingKey (.text text)) t () s' →
      Advances site ops r t r s' := fun ht hput =>
    (advances_putField ht hop (inner_scalar _) (fun role heq => absurd heq (by cases role <;> decide)) hput).1
  split at h
  · obtain ⟨v, t, rfl, -, hadopt, hput⟩ := runs_classifyQuery.mp h
    obtain ⟨x, hx, rfl⟩ := hquery v rfl
    obtain ⟨r', hadvances, hhandled⟩ := advances_adoptParameters hs hop htable hx hadopt
    have hlast := hencode hadvances.named hput
    exact ⟨r', hadvances.trans hlast, hlast.handled op hop _ hhandled⟩
  · obtain ⟨content, t, -, -, hfinds, hadopt, hput⟩ := runs_classifyForm.mp h
    obtain ⟨r', hadvances, hhandled⟩ := advances_adoptContent hs hop htable hbody hfinds hadopt
    have hlast := hencode hadvances.named hput
    exact ⟨r', hadvances.trans hlast, hlast.handled op hop _ hhandled⟩

theorem advances_classifyResponses (hs : r.Named site ops s) (hop : op ∈ ops) (htable : table.schemas = .node site.table)
    (h : Runs (classifyResponses (.node site.root) table op) s u s') :
    ∃ r', Advances site ops r s r' s' ∧ r'.Handled site s' op .response := by
  obtain ⟨responses, t, owner, content, hresponses, hgrows, howner, hfinds, hadopt⟩ := runs_classifyResponses h
  have hgrown := advances_grow hs hop hgrows
  have htarget := hgrown.named.target_dereference (inner_responsesOf hs hop hresponses).target howner
  obtain ⟨r', hadvances, hhandled⟩ := advances_adoptContent hgrown.named hop htable htarget hfinds hadopt
  exact ⟨r', hgrown.trans hadvances, hhandled⟩

/-- When an operation has been classified, it refers to schemas in all roles, and the operations before it still do. -/
theorem advances_classify (hs : r.Named site ops s) (hop : op ∈ ops) (htable : table.schemas = .node site.table)
    (h : Runs (classify (.node site.root) table op) s u s') :
    ∃ r', Advances site ops r s r' s' ∧ ∀ role, r'.Handled site s' op role := by
  obtain ⟨_, _, path, query, s₁, s₂, _, _, body, s₃, -, -, hgroup, hpath, hshape, hbody, hrequest, hresponses⟩ :=
    runs_classify.mp h
  obtain ⟨r₁, h₁, ⟨x, hx, rfl⟩, hquery⟩ := advances_groupParameters hs hop hgroup
  obtain ⟨r₂, h₂, hhandled₂⟩ := advances_adoptParameters h₁.named hop htable hx hpath
  obtain ⟨r₃, h₃, hhandled₃⟩ := advances_request h₂.named hop htable
    (fun q hq => (hquery q hq).imp fun y hy => ⟨h₂.within.grouped hy.1, hy.2⟩)
    (h₂.named.target_dereference (inner_declared h₂.named hop hshape).target hbody) hrequest
  obtain ⟨r₄, h₄, hhandled₄⟩ := advances_classifyResponses h₃.named hop htable hresponses
  refine ⟨r₄, ((h₁.trans h₂).trans h₃).trans h₄, fun role => ?_⟩
  cases role with
  | path => exact (h₃.trans h₄).handled op hop _ hhandled₂
  | request => exact h₄.handled op hop _ hhandled₃
  | response => exact hhandled₄

/-- When operations have been classified one after the other, all of them refer to schemas in all roles. -/
theorem handled_of_runs_forM (htable : table.schemas = .node site.table) {remaining : List Operation}
    (hs : r.Named site ops s) (hsub : remaining ⊆ ops)
    (h : Runs (remaining.forM (classify (.node site.root) table)) s u s') :
    ∃ r', Advances site ops r s r' s' ∧ ∀ op ∈ remaining, ∀ role, r'.Handled site s' op role := by
  induction remaining generalizing r s u with
  | nil =>
    obtain rfl := runs_forM_nil.mp h
    exact ⟨r, .refl hs, by simp⟩
  | cons op rest ih =>
    obtain ⟨t, hclassify, hrest⟩ := runs_forM_cons.mp h
    obtain ⟨r₁, h₁, hhandled⟩ := advances_classify hs (hsub List.mem_cons_self) htable hclassify
    obtain ⟨r₂, h₂, hhandled'⟩ := ih h₁.named (fun op hop => hsub (List.mem_cons_of_mem _ hop)) hrest
    refine ⟨r₂, h₁.trans h₂, fun op' hop' role => ?_⟩
    rcases List.mem_cons.mp hop' with rfl | hmem
    · exact h₂.handled op' (hsub List.mem_cons_self) role (hhandled role)
    · exact hhandled' op' hmem role

end Edit

end DeviceApi
