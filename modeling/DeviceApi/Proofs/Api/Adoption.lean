import DeviceApi.Proofs.Api.Chains
import DeviceApi.Proofs.Api.Steps

/-!
# What is adopted

A schema is tagged unless it has another role. Apart from that, parameters and contents that have been found can be
adopted, if the table and the operation are objects. This changes the table, the operation, the schema and, if the
schema is registered, the media type.
-/

namespace DeviceApi

variable {s s' t : Store} {v w : Value} {i : Nat} {key key' : String} {entries : Entries Value} {role : Role}

namespace Store

/-- The value is an object. -/
def IsObject (s : Store) (v : Value) : Prop := ∃ id entries, s.shape v = .object id entries

/-- The schema may be tagged with the role: it is an object, and what it has for a role is nothing else. -/
def MayHave (s : Store) (v : Value) (role : Role) : Prop :=
  ∃ id entries, s.shape v = .object id entries ∧
    (s.isTruthy ((entries.get? roleKey).getD .null) = true → entries.get? roleKey = some (.text role.text))

theorem Puts.isObject {allowed : Nat → String → Value → Prop} (h : s.Puts allowed t) (hv : s.IsObject v) :
    t.IsObject v := by
  obtain ⟨id, entries, hshape⟩ := hv
  obtain ⟨rfl, hcell⟩ := shape_eq_object.mp hshape
  obtain ⟨entries', hcell', -⟩ := h.object hcell
  exact ⟨id, entries', shape_node hcell'⟩

/-- Putting values somewhere turns nothing into an object. -/
theorem Puts.isObject_iff {allowed : Nat → String → Value → Prop} (h : s.Puts allowed t)
    (hv : ∀ i, v = .node i → i < s.cells.size) : t.IsObject v ↔ s.IsObject v := by
  refine ⟨fun hobject => ?_, h.isObject⟩
  by_contra hnot
  cases v with
  | scalar a =>
    obtain ⟨_, _, hshape⟩ := hobject
    cases hshape
  | node i =>
    have hi := hv i rfl
    have hcell : s.cells[i]? = some s.cells[i] := Array.getElem?_eq_getElem hi
    have hsame := h.cell_eq hcell fun entries heq => hnot ⟨i, entries, shape_node (heq ▸ hcell)⟩
    obtain ⟨id, fields, hshape⟩ := hobject
    refine hnot ⟨id, fields, ?_⟩
    rw [← hshape]
    simp only [shape, hsame, hcell]

theorem IsObject.lt (h : s.IsObject v) : ∀ i, v = .node i → i < s.cells.size := by
  rintro i rfl
  obtain ⟨id, entries, hshape⟩ := h
  obtain ⟨heq, hcell⟩ := shape_eq_object.mp hshape
  exact Value.node.inj heq ▸ lt_size_of_cell hcell

theorem Puts.size_le {allowed : Nat → String → Value → Prop} (h : s.Puts allowed t) : s.cells.size ≤ t.cells.size := by
  induction h with
  | grow h => exact h.size_le
  | put => rw [size_set]
  | trans _ _ ih ih' => exact ih.trans ih'

/-- A value into which nothing is put stays as it is. -/
theorem Puts.shape_eq {allowed : Nat → String → Value → Prop} (h : s.Puts allowed t)
    (hv : ∀ i, v = .node i → i < s.cells.size) (hnot : ∀ i key w, v = .node i → ¬ allowed i key w) :
    t.shape v = s.shape v := by
  induction h with
  | grow h => exact h.shape_eq hv
  | @put s j key w entries hcell hallowed =>
    cases v with
    | scalar a => rfl
    | node i =>
      have hne : ¬(i = j ∧ j < s.cells.size) := fun heq => hnot i key w rfl (heq.1 ▸ hallowed)
      simp only [shape, cells_set, if_neg hne]
  | @trans s s' s'' h h' ih ih' => exact (ih' fun i hi => (hv i hi).trans_le h.size_le).trans (ih hv)

/-- What stands under a key stays there when something else is put under other keys. -/
theorem Puts.field?_eq {allowed : Nat → String → Value → Prop} (h : s.Puts allowed t)
    (hv : ∀ i, v = .node i → i < s.cells.size) (hnot : ∀ i w, v = .node i → ¬ allowed i key w) :
    t.field? v (.text key) = s.field? v (.text key) := by
  cases v with
  | scalar a => rfl
  | node i =>
    have hi := hv i rfl
    have hcell : s.cells[i]? = some s.cells[i] := Array.getElem?_eq_getElem hi
    by_cases hobject : ∃ entries, s.cells[i] = .object entries
    · obtain ⟨entries, heq⟩ := hobject
      rw [heq] at hcell
      obtain ⟨entries', hcell', hkeys⟩ := h.object hcell
      rcases hkeys key with heq | ⟨w, hallowed, -⟩
      · simp only [field?, entries?, shape_node hcell, shape_node hcell', heq]
      · exact absurd hallowed (hnot i w rfl)
    · have hsame := h.cell_eq hcell fun entries heq => hobject ⟨entries, heq⟩
      simp only [field?, entries?, shape, hsame, hcell]

/-- What counts as present does not change unless something is put into what is empty. -/
theorem Puts.isTruthy_eq {allowed : Nat → String → Value → Prop} (h : s.Puts allowed t) (hi : i < s.cells.size)
    (hfilled : (∃ key w, allowed i key w) → s.isTruthy (.node i) = true) : t.isTruthy (.node i) = s.isTruthy (.node i) := by
  have hcell : s.cells[i]? = some s.cells[i] := Array.getElem?_eq_getElem hi
  by_cases hobject : ∃ entries, s.cells[i] = .object entries
  · obtain ⟨entries, heq⟩ := hobject
    rw [heq] at hcell
    obtain ⟨added, hadded, hallowed⟩ := h.exists_putAll hcell
    cases added with
    | nil => simp only [isTruthy, shape_node hcell, shape_node hadded, Entries.putAll_nil]
    | cons e rest =>
      obtain ⟨key, hkey, hput⟩ := hallowed e List.mem_cons_self
      have hbefore := hfilled ⟨key, e.2, hput⟩
      have hmem : Scalar.text key ∈ (entries.putAll (e :: rest)).keys := by
        refine (Entries.mem_keys_putAll_of_text fun k hk => ?_).mpr (.inr (hkey ▸ List.mem_cons_self))
        obtain ⟨f, hf, rfl⟩ := List.mem_map.mp hk
        exact (hallowed f hf).imp fun _ h => h.1
      rw [hbefore, isTruthy, shape_node hadded]
      cases hall : entries.putAll (e :: rest) with
      | nil => simp [hall] at hmem
      | cons => rfl
  · have hsame := h.cell_eq hcell fun entries heq => hobject ⟨entries, heq⟩
    simp only [isTruthy, shape, hsame, hcell]

/-- A schema may have a role if it is an object, and what it has for a role is the same or does not count. -/
theorem mayHave_iff_field : s.MayHave v role ↔
    s.IsObject v ∧ ∀ w, s.field? v roleKey = some w → s.isTruthy w = true → w = .text role.text := by
  constructor
  · rintro ⟨id, entries, hshape, hrole⟩
    refine ⟨⟨id, entries, hshape⟩, fun w hfield htruthy => ?_⟩
    obtain ⟨id', entries', hshape', hget⟩ := field?_eq_some.mp hfield
    rw [hshape, Shape.object.injEq] at hshape'
    obtain ⟨rfl, rfl⟩ := hshape'
    exact Option.some.inj (hget.symm.trans (hrole (by rwa [hget, Option.getD_some])))
  · rintro ⟨⟨id, entries, hshape⟩, hrole⟩
    refine ⟨id, entries, hshape, fun htruthy => ?_⟩
    cases hget : entries.get? roleKey with
    | none => simp [hget, isTruthy, shape, Scalar.isTruthy] at htruthy
    | some w =>
      rw [hget, Option.getD_some] at htruthy
      rw [hrole w (field?_eq_some.mpr ⟨id, entries, hshape, hget⟩) htruthy]

/-- Whether a schema may have a role does not change unless it gets another one, or what it has for one begins to count
as present. -/
theorem Puts.mayHave_iff {allowed : Nat → String → Value → Prop} (h : s.Puts allowed t) (hv : s.IsObject v)
    (hkey : ∀ i w, v = .node i → ¬ allowed i roleKey w)
    (hsteady : ∀ i, s.field? v roleKey = some (.node i) → t.isTruthy (.node i) = s.isTruthy (.node i)) :
    t.MayHave v role ↔ s.MayHave v role := by
  rw [mayHave_iff_field, mayHave_iff_field, h.field?_eq hv.lt hkey]
  refine and_congr (iff_of_true (h.isObject hv) hv) (forall_congr' fun w => imp_congr_right fun hw => ?_)
  cases w with
  | scalar a => exact Iff.rfl
  | node i => rw [hsteady i hw]

theorem Puts.mono {allowed allowed' : Nat → String → Value → Prop} (h : s.Puts allowed t)
    (hsub : ∀ i key v, allowed i key v → allowed' i key v) : s.Puts allowed' t := by
  induction h with
  | grow h => exact .grow h
  | put hcell h => exact .put hcell (hsub _ _ _ h)
  | trans _ _ ih ih' => exact .trans ih ih'

end Store

theorem Operation.schemaName_notMem (op : Operation) (role : Role) : op.schemaName role ∉ classificationKeys :=
  IsGenerated.notMem_classificationKeys ⟨op, role, rfl⟩

namespace Edit

variable {table : SchemaTable} {op : Operation} {content : Content} {name : String} {u : Unit}
  {media tagged : Value → Prop}

/-- What adopting schemas may put under a key of a node, if the schemas of some media types are replaced and some
schemas are tagged. -/
inductive Changes (table : SchemaTable) (op : Operation) (media tagged : Value → Prop) (i : Nat) :
    String → Value → Prop
  | registered (hi : table.schemas = .node i) (role : Role) (v : Value) :
      Changes table op media tagged i (op.schemaName role) v
  | mark {key : String} {v : Value} (hi : op.content = .node i) (h : Mark none op key v) :
      Changes table op media tagged i key v
  | schema (hi : media (.node i)) (j : Nat) : Changes table op media tagged i "schema" (.node j)
  | tag (hi : tagged (.node i)) (role : Role) : Changes table op media tagged i roleKey (.text role.text)

theorem Changes.mono {media' tagged' : Value → Prop} (h : Changes table op media tagged i key v)
    (hmedia : ∀ v, media v → media' v) (htagged : ∀ v, tagged v → tagged' v) :
    Changes table op media' tagged' i key v := by
  cases h with
  | registered hi role v => exact .registered hi role v
  | mark hi h => exact .mark hi h
  | schema hi j => exact .schema (hmedia _ hi) j
  | tag hi role => exact .tag (htagged _ hi) role

/-- The schema of a content that has been found stands in the media type, or a reference to it does. -/
theorem FindsContent.exists_declared {root owner : Value} {type : String}
    (hfinds : FindsContent s root owner type content) : ∃ id fields declared, s.shape content.media = .object id fields ∧
    fields.get? "schema" = some declared ∧ s.dereference root declared = .ok content.schema := by
  obtain ⟨id, fields, hmedia, hdeclared⟩ := hfinds.schema
  obtain ⟨idSchema, keywords, hkeywords, -⟩ := hfinds.object
  cases hget : fields.get? "schema" with
  | some declared => exact ⟨id, fields, declared, hmedia, hget, by rwa [hget, Option.getD_some] at hdeclared⟩
  | none =>
    rw [hget, Option.getD_none, Store.dereference_of_not_isReference rfl, Except.ok.injEq] at hdeclared
    rw [← hdeclared] at hkeywords
    cases hkeywords

/-! ## What is put where -/

theorem changes_register (h : Runs (table.register (.text (op.schemaName role)) v) s w s') :
    s.Puts (Changes table op media tagged) s' ∧ ∃ j, w = .node j := by
  obtain ⟨id, entries, hshape, rfl, rfl⟩ := runs_register h
  obtain ⟨hnode, hcell⟩ := Store.shape_eq_object.mp hshape
  exact ⟨.trans (.put hcell (.registered hnode role v)) (.grow (.add _ _)), _, rfl⟩

/-! ## What can be adopted -/

/-- A schema that may have the role can be tagged with it. -/
theorem exists_runs_setRole (h : s.MayHave v role) : ∃ s', Runs (setRole v role) s () s' := by
  obtain ⟨id, entries, hshape, htag⟩ := h
  refine ⟨s.set id (.object (entries.put roleKey (.text role.text))), ?_⟩
  rw [setRole]
  refine runs_bind.mpr ⟨_, s, runs_fieldOf.mpr ⟨⟨id, entries, hshape, rfl⟩, rfl⟩, runs_get_bind.mpr ?_⟩
  rw [if_neg]
  · exact runs_putField.mpr ⟨id, entries, hshape, rfl⟩
  · simp only [Bool.and_eq_true, Bool.not_eq_true', not_and, Bool.not_eq_false]
    exact fun htruthy => Store.isText_iff.mpr (Store.getD_eq_text.mpr (htag htruthy))

theorem mayHave_of_runs {u : Unit} (h : Runs (setRole v role) s u s') : s.MayHave v role := by
  obtain ⟨id, entries, hshape, htag, -⟩ := runs_setRole h
  exact ⟨id, entries, hshape, htag⟩

/-- A schema that has been registered is in the table, and there is a new reference to it. -/
theorem field?_of_register {T : Nat} (hnode : table.schemas = .node T) (h : Runs (table.register (.text name) v) s w s') :
    s'.field? (.node T) name = some v ∧
      ∃ j, w = .node j ∧ s.cells.size ≤ j ∧ s'.cells[j]? = some (referenceCell name) := by
  obtain ⟨id, names, hshape, rfl, rfl⟩ := runs_register h
  obtain ⟨heq, hcell⟩ := Store.shape_eq_object.mp hshape
  obtain rfl : T = id := Value.node.inj (hnode.symm.trans heq)
  have hlt := Store.lt_size_of_cell hcell
  refine ⟨Store.field?_eq_some.mpr ⟨T, names.put (.text name) v, Store.shape_node ?_, Entries.get?_put_self⟩, _, rfl,
    by simp, by rw [Store.cells_add, if_pos rfl]⟩
  rw [Store.cells_add, if_neg (by rw [Store.size_set]; omega), Store.cells_set, if_pos ⟨rfl, hlt⟩]

theorem exists_runs_register (name : String) (v : Value) (h : s.IsObject table.schemas) :
    ∃ w s', Runs (table.register (.text name) v) s w s' ∧ s'.IsObject w := by
  obtain ⟨id, entries, hshape⟩ := h
  let t := s.set id (.object (entries.put (.text name) v))
  refine ⟨(t.add (referenceCell name)).1, (t.add (referenceCell name)).2, ?_, t.cells.size, [("$ref", .text (pointerTo name))],
    Store.shape_node (by rw [Store.cells_add, if_pos rfl]; rfl)⟩
  simp only [SchemaTable.register, runs_bind, runs_putField, runs_textOf, runs_newObject]
  exact ⟨(), t, ⟨id, entries, hshape, rfl⟩, name, t, ⟨⟨rfl, rfl⟩, rfl⟩, rfl, rfl⟩

theorem exists_runs_putField (key : String) (w : Value) (h : s.IsObject v) : ∃ s', Runs (putField v (.text key) w) s () s' := by
  obtain ⟨id, entries, hshape⟩ := h
  exact ⟨_, runs_putField.mpr ⟨id, entries, hshape, rfl⟩⟩

/-- Once the schema of a content has been tagged, the operation is given a copy of what stands in the media type. -/
theorem exists_runs_tag (hop : s.IsObject op.content) (hschema : s.MayHave content.schema role)
    (hmedia : ∃ w, s.field? content.media "schema" = some w ∧ s.IsObject w) :
    ∃ s₂ id fields copy s₃ s', Runs (setRole content.schema role) s () s₂ ∧ s₂.shape content.media = .object id fields ∧
      Runs (copyObject ((fields.get? "schema").getD .null)) s₂ copy s₃ ∧
      Runs (putField op.content role.operationKey copy) s₃ () s' := by
  obtain ⟨s₂, hrole⟩ := exists_runs_setRole hschema
  obtain ⟨idSchema, keywords, hshape, -, rfl⟩ := runs_setRole hrole
  let s₂ := s.set idSchema (.object (keywords.put roleKey (.text role.text)))
  have hputs : s.Puts (fun _ key _ => key = roleKey) s₂ := .put (Store.shape_eq_object.mp hshape).2 rfl
  obtain ⟨w, hfield, hw⟩ := hmedia
  have hobject : s.IsObject content.media := by
    obtain ⟨id, fields, hshape, -⟩ := Store.field?_eq_some.mp hfield
    exact ⟨id, fields, hshape⟩
  obtain ⟨id, fields, hfields, hget⟩ := Store.field?_eq_some.mp
    ((hputs.field?_eq hobject.lt fun _ _ _ heq => absurd heq (by decide)).trans hfield)
  obtain ⟨id', entries, hentries⟩ := hputs.isObject hw
  have hcopy := runs_copyObject.mpr ⟨id', entries, hentries, rfl, rfl⟩
  have hgrows : s₂.Puts (fun _ key _ => key = roleKey) (s₂.add (.object entries)).2 := .grow (.add _ _)
  obtain ⟨s', hhandle⟩ := exists_runs_putField role.operationKey _ (hgrows.isObject (hputs.isObject hop))
  refine ⟨_, id, fields, _, _, s', hrole, hfields, ?_, hhandle⟩
  rwa [hget, Option.getD_some]

/-- When the schema of a content is registered and replaced, this changes the table and the media type. -/
theorem puts_replace {reference : Value} {s₀ : Store}
    (hregister : Runs (table.register (op.schemaName role) v) s reference s₀)
    (hput : Runs (putField content.media "schema" reference) s₀ u s') :
    s.Puts (fun i key _ => (table.schemas = .node i ∧ key = op.schemaName role) ∨
      (content.media = .node i ∧ key = "schema")) s' := by
  obtain ⟨idTable, names, hnames, -, rfl⟩ := runs_register hregister
  obtain ⟨hnode, hcell⟩ := Store.shape_eq_object.mp hnames
  exact (Store.Puts.trans (.put hcell (.inl ⟨hnode, rfl⟩)) (.grow (.add _ _))).trans
    (puts_putField hput fun _ hi => .inr ⟨hi, rfl⟩).1

section

variable {root owner : Value} {type : String} (hfinds : FindsContent s root owner type content)
  (hsteady : ∀ i, s.field? content.schema roleKey = some (.node i) → i < s.cells.size ∧ table.schemas ≠ .node i)
include hfinds hsteady

/-- Whether a schema may have a role does not change when it is registered. -/
theorem mayHave_iff_of_replace {reference : Value} {s₀ : Store} {role' : Role}
    (hregister : Runs (table.register (op.schemaName role) v) s reference s₀)
    (hput : Runs (putField content.media "schema" reference) s₀ u s') :
    s'.MayHave content.schema role' ↔ s.MayHave content.schema role' := by
  obtain ⟨id, fields, declared, hmedia, hget, -⟩ := hfinds.exists_declared
  obtain ⟨idSchema, keywords, hkeywords, -⟩ := hfinds.object
  have hputs := puts_replace hregister hput
  refine hputs.mayHave_iff ⟨idSchema, keywords, hkeywords⟩ (fun i w _ hallowed => ?_) fun i hi =>
    hputs.isTruthy_eq (hsteady i hi).1 fun hallowed => ?_
  · rcases hallowed with ⟨-, heq⟩ | ⟨-, heq⟩
    · exact op.schemaName_notMem role (heq ▸ by decide)
    · exact absurd heq (by decide)
  · obtain ⟨key, w, ⟨hnode, -⟩ | ⟨hnode, -⟩⟩ := hallowed
    · exact absurd hnode (hsteady i hi).2
    · rw [← hnode, Store.isTruthy, hmedia]
      cases fields with
      | nil => cases hget
      | cons => rfl

/-- **Adoption.** A content that has been found can be adopted just if its schema may have the role. What the schema has
for a role must not be the table, into which the schema may come. -/
theorem exists_runs_adoptContent_iff (htable : s.IsObject table.schemas) (hop : s.IsObject op.content) :
    (∃ s', Runs (adoptContent table op role content) s () s') ↔ s.MayHave content.schema role := by
  constructor
  · rintro ⟨s', h⟩
    obtain ⟨s₁, s₂, id, fields, -, hadopt, hrole, -⟩ := runs_adoptContent h
    rcases hadopt with ⟨-, rfl⟩ | ⟨reference, s₀, -, hregister, hput⟩
    · exact mayHave_of_runs hrole
    · exact (mayHave_iff_of_replace hfinds hsteady hregister hput).mp (mayHave_of_runs hrole)
  intro hschema
  obtain ⟨id, fields, declared, hmedia, hget, -⟩ := hfinds.exists_declared
  have hfield : s.field? content.media "schema" = some declared := Store.field?_eq_some.mpr ⟨id, fields, hmedia, hget⟩
  suffices h : ∃ s₁, ((s.isReference declared = true ∧ s₁ = s) ∨ ∃ reference s₀, s.isReference declared = false ∧
      Runs (table.register (op.schemaName role) content.schema) s reference s₀ ∧
      Runs (putField content.media "schema" reference) s₀ () s₁) ∧ s₁.IsObject op.content ∧
      s₁.MayHave content.schema role ∧ ∃ w, s₁.field? content.media "schema" = some w ∧ s₁.IsObject w by
    obtain ⟨s₁, hadopt, hop₁, hschema₁, hmedia₁⟩ := h
    obtain ⟨s₂, id', fields', copy, s₃, s', hrole, hfields', hcopy, hhandle⟩ := exists_runs_tag hop₁ hschema₁ hmedia₁
    refine ⟨s', ?_⟩
    simp only [adoptContent, runs_bind, runs_fieldOf, runs_isReference]
    refine ⟨declared, s, ⟨⟨id, fields, hmedia, by rw [hget, Option.getD_some]⟩, rfl⟩, _, s, ⟨rfl, rfl⟩, ?_⟩
    rcases hadopt with ⟨hreference, rfl⟩ | ⟨reference, s₀, hinline, hregister, hput⟩
    · rw [if_neg (by simp [hreference])]
      simp only [runs_bind, runs_fieldOf]
      exact ⟨(), s₂, hrole, _, s₂, ⟨⟨id', fields', hfields', rfl⟩, rfl⟩, copy, s₃, hcopy, hhandle⟩
    · rw [if_pos (by simp [hinline])]
      simp only [runs_bind, runs_fieldOf]
      exact ⟨reference, s₀, hregister, (), s₁, hput, (), s₂, hrole, _, s₂, ⟨⟨id', fields', hfields', rfl⟩, rfl⟩, copy, s₃,
        hcopy, hhandle⟩
  cases hreference : s.isReference declared with
  | true =>
    refine ⟨s, .inl ⟨rfl, rfl⟩, hop, hschema, declared, hfield, ?_⟩
    unfold Store.isReference at hreference
    split at hreference
    · next pointer hpointer => exact (Store.entries?_eq_some.mp hpointer).imp fun id h => ⟨pointer, h⟩
    · cases hreference
  | false =>
    obtain ⟨reference, s₀, hregister, hobject⟩ := exists_runs_register (op.schemaName role) content.schema htable
    have hfirst : s.Puts (Changes table op (fun _ => True) fun _ => False) s₀ := (changes_register hregister).1
    obtain ⟨s₁, hput⟩ := exists_runs_putField "schema" reference (hfirst.isObject ⟨id, fields, hmedia⟩)
    have hputs := puts_replace hregister hput
    obtain ⟨hlast, hnew⟩ : s₀.Puts (fun _ _ _ => True) s₁ ∧ _ := puts_putField hput fun _ _ => trivial
    exact ⟨s₁, .inr ⟨reference, s₀, rfl, hregister, hput⟩, hputs.isObject hop,
      (mayHave_iff_of_replace hfinds hsteady hregister hput).mpr hschema, reference, hnew, hlast.isObject hobject⟩

end

end Edit

end DeviceApi
