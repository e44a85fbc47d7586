import DeviceApi.Proofs.Api.Marks

/-!
# Steps of classification

The classification of one operation is a sequence of writes. It puts the schema of the path
parameters, which is a new object, into the table, and at most one schema for each of the other
roles.
-/

namespace DeviceApi

namespace Store

variable {s : Store} {root v : Value}

/-- What is no reference stands for itself. -/
theorem dereference_of_not_isReference (h : s.isReference v = false) :
    s.dereference root v = .ok v := by
  unfold dereference chainEnd
  unfold isReference at h
  split
  · rfl
  · next entries hentries =>
    simp only [hentries, Entries.has_eq_false] at h
    rw [h]

/-- The value is an object with entries. -/
def Filled (s : Store) (v : Value) : Prop :=
  ∃ id entries, s.shape v = .object id entries ∧ entries ≠ []

end Store

namespace Classifies

variable {root T : Nat} {gates : Set Gate} {strict : Prop} {v : Value}

theorem filled {view view' : View} {registered : Entries Value}
    (h : Classifies root gates strict T view registered view') (hv : view.store.Filled v) :
    view'.store.Filled v := by
  obtain ⟨id, entries, hshape, hne⟩ := hv
  obtain ⟨rfl, hcell⟩ := Store.shape_eq_object.mp hshape
  obtain ⟨entries', hcell', houtlasts⟩ := h.object hcell
  exact ⟨id, entries', Store.shape_node hcell', houtlasts.filled hne⟩

/-- The schema of an object remains one. -/
theorem object_type {view view' : View} {registered : Entries Value}
    (h : Classifies root gates strict T view registered view')
    (hv : ∃ id entries, view.store.shape v = .object id entries ∧
      entries.get? "type" = some (.text "object")) :
    ∃ id entries, view'.store.shape v = .object id entries ∧
      entries.get? "type" = some (.text "object") := by
  obtain ⟨id, entries, hshape, htype⟩ := hv
  obtain ⟨rfl, hcell⟩ := Store.shape_eq_object.mp hshape
  obtain ⟨entries', hcell', -⟩ := h.object hcell
  exact ⟨id, entries', Store.shape_node hcell', (h.get?_type_eq hcell hcell').trans htype⟩

end Classifies

namespace Edit

variable {root T : Nat} {gates : Set Gate} {strict : Prop} {s s' t : Store} {K : Set Nat} {v w : Value}
  {u : Unit} {table : SchemaTable} {op : Operation} {role : Role} {content : Content} {type key : String}

theorem classifies_setRole (h : Runs (setRole v role) s u s') (hquiet : Quiet root gates s)
    (hv : View.Linked ⟨s, K⟩ v)
    (hobject : ∃ id entries, s.shape v = .object id entries ∧
      entries.get? "type" = some (.text "object")) :
    Classifies root gates strict T ⟨s, K⟩ [] ⟨s', K⟩ := by
  obtain ⟨id, entries, hshape, -, rfl⟩ := runs_setRole h
  obtain ⟨id', entries', hshape', htype⟩ := hobject
  rw [hshape, Shape.object.injEq] at hshape'
  obtain ⟨rfl, rfl⟩ := hshape'
  obtain ⟨rfl, hcell⟩ := Store.shape_eq_object.mp hshape
  exact .tag role (hv id rfl) (fun hcrowded => (hquiet id entries hcrowded hcell).1 htype) hcell htype

theorem classifies_putField (hv : View.Writable root gates ⟨s, K⟩ v) (hfilled : s.Filled v)
    (hkey : key ∈ classificationKeys) (hw : View.Free root gates ⟨s, K⟩ w)
    (hnot : strict → ∀ i, v = .node i → ¬ s.Reaches w i) (h : Runs (putField v (.text key) w) s u s') :
    Classifies root gates strict T ⟨s, K⟩ [] ⟨s', K⟩ := by
  obtain ⟨id, entries, hshape, rfl⟩ := runs_putField.mp h
  obtain ⟨id', entries', hshape', hne⟩ := hfilled
  rw [hshape, Shape.object.injEq] at hshape'
  obtain ⟨rfl, rfl⟩ := hshape'
  obtain ⟨rfl, hcell⟩ := Store.shape_eq_object.mp hshape
  exact .write hv hcell hne hkey hw fun hstrict => hnot hstrict id rfl

/-- What an operation contains: it may be written to, and if the writes are strict then it is a
gate. -/
structure IsContent (root : Nat) (gates : Set Gate) (strict : Prop) (view : View) (v : Value) : Prop where
  writable : view.Writable root gates v
  gate : strict → ∃ g ∈ gates, v = .node g.node

theorem IsContent.mono {K' : Set Nat} (h : IsContent root gates strict ⟨s, K⟩ v) (hsub : K ⊆ K') :
    IsContent root gates strict ⟨s', K'⟩ v := ⟨h.writable.mono hsub, h.gate⟩

/-- Only an operation with entries is classified. -/
theorem filled_of_classify {document : Value} (h : Runs (classify document table op) s u s') :
    s.Filled op.content := by
  obtain ⟨id, entries, _, _, _, _, _, _, _, _, hentries, htruthy, -⟩ := runs_classify.mp h
  refine ⟨id, entries, hentries, ?_⟩
  rintro rfl
  simp [Store.isTruthy, Store.shape, Scalar.isTruthy] at htruthy

/-- The responses of a known operation are linked. -/
theorem linked_responsesOf {responses : Entries Value} (hgated : View.Gated root gates ⟨s, K⟩)
    (hop : View.Linked ⟨s, K⟩ op.content) (h : Runs (responsesOf op) s responses s') {e : Scalar × Value}
    (he : e ∈ responses) : View.Linked ⟨s, K⟩ e.2 := by
  obtain ⟨-, id, entries, declared, hentries, hdeclared, rfl⟩ := runs_responsesOf h
  rcases Entries.mem_or_of_mem_putAll he with hnil | hmem
  · cases hnil
  · obtain ⟨_, hpair, heq⟩ := List.mem_map.mp hmem
    obtain ⟨e', he', rfl⟩ := List.mem_map.mp hpair
    split at hdeclared
    · obtain ⟨_, hshape⟩ := hdeclared
      have hlinked : View.Linked ⟨s, K⟩ e'.2 :=
        hgated.linked_entry (hgated.linked_field hop hentries) hshape he'
      exact heq ▸ hlinked
    · simp [← hdeclared] at he'

section

variable (hpassage : Passage root gates) (hnode : table.schemas = .node T)
  (hT : ∀ g ∈ gates, g.owner ≠ T)
include hpassage hnode hT

/-- What is registered comes into the table, and the reference to it may be put anywhere. No older node
lies below the reference. -/
theorem classifies_register (hgated : View.Gated root gates ⟨s, K⟩)
    (hv : View.Free root gates ⟨s, K⟩ v)
    (h : Runs (table.register (.text (op.schemaName role)) v) s w s') :
    ∃ K', Classifies root gates strict T ⟨s, K⟩ [(.text (op.schemaName role), v)] ⟨s', K'⟩ ∧
      View.Free root gates ⟨s', K'⟩ w ∧ ∀ i ∈ K, ¬ s'.Reaches w i := by
  obtain ⟨id, entries, hshape, rfl, rfl⟩ := runs_register h
  obtain ⟨heq, hcell⟩ := Store.shape_eq_object.mp hshape
  obtain rfl : id = T := by simpa [hnode] using heq.symm
  have hput : Classifies root gates strict id ⟨s, K⟩ [(.text (op.schemaName role), v)]
      ⟨s.set id (.object (entries.put (.text (op.schemaName role)) v)), K⟩ :=
    .register hcell ⟨op, role, rfl⟩ hv
  have hparts : ∀ w ∈ (referenceCell (op.schemaName role)).parts, View.Free root gates
      ⟨s.set id (.object (entries.put (.text (op.schemaName role)) v)), K⟩ w := by
    simp [referenceCell, Cell.parts, Entries.values]
  obtain ⟨hext, hfree⟩ := (hput.gated hT hgated hpassage).extends_add hparts fun _ _ heq => by
    obtain rfl := (Cell.object.inj heq).symm
    simp
  refine ⟨_, hput.trans (.extend hext), hfree, fun i hi hreach => ?_⟩
  have hlt : i < s.cells.size := hgated.lt i hi
  rcases Store.eq_or_of_reaches_add hreach with heq | ⟨x, hx, hbelow⟩
  · rw [Store.size_set] at heq
    omega
  · obtain rfl : x = .text (pointerTo (op.schemaName role)) := by
      simpa [referenceCell, Cell.parts, Entries.values] using hx
    exact Store.not_reaches_scalar hbelow

/-- Adopting parameters registers their schema. -/
theorem classifies_adoptParameters (hquiet : Quiet root gates s) (hgated : View.Gated root gates ⟨s, K⟩)
    (hop : IsContent root gates strict ⟨s, K⟩ op.content) (hfilled : s.Filled op.content)
    (hv : View.Free root gates ⟨s, K⟩ v)
    (hobject : ∃ id entries, s.shape v = .object id entries ∧
      entries.get? "type" = some (.text "object"))
    (h : Runs (adoptParameters table op role v) s u s') :
    ∃ K', Classifies root gates strict T ⟨s, K⟩ [(.text (op.schemaName role), v)] ⟨s', K'⟩ := by
  obtain ⟨s₁, reference, s₂, hrole, hregister, hhandle⟩ := runs_adoptParameters h
  have hstep₁ : Classifies root gates strict T ⟨s, K⟩ [] ⟨s₁, K⟩ :=
    classifies_setRole hrole hquiet hv.linked hobject
  obtain ⟨K₂, hstep₂, hreference, hnew⟩ := classifies_register hpassage hnode hT
    (hstep₁.gated hT hgated hpassage) (hv.mono subset_rfl) hregister
  have hstep := hstep₁.trans hstep₂
  refine ⟨K₂, hstep.trans (classifies_putField (hop.mono hstep.known_sub).writable
    (hstep.filled hfilled) ?_ hreference (fun _ i hi => hnew i (hop.writable i hi).1) hhandle)⟩
  cases role <;> decide

/-- Adopting a content registers its schema unless it is a reference. -/
theorem classifies_adoptContent {owner : Value} (hquiet : Quiet root gates s)
    (hgated : View.Gated root gates ⟨s, K⟩)
    (hop : IsContent root gates strict ⟨s, K⟩ op.content) (hfilled : s.Filled op.content)
    (howner : View.Linked ⟨s, K⟩ owner) (htype : type ∉ gateKeys)
    (hfinds : FindsContent s (.node root) owner type content)
    (h : Runs (adoptContent table op role content) s u s') :
    ∃ K' registered, Classifies root gates strict T ⟨s, K⟩ registered ⟨s', K'⟩ ∧
      (registered = [] ∨ registered = [(.text (op.schemaName role), content.schema)]) := by
  obtain ⟨s₁, s₂, id, fields, hfields, hadopt, hrole, id', fields', copy, s₃, hfields', hcopy,
    hhandle⟩ := runs_adoptContent h
  obtain ⟨_, entries, id₁, hentries, htypes⟩ := hfinds.media
  have hcontent : View.Linked ⟨s, K⟩ ((entries.get? "content").getD .null) :=
    hgated.linked_field howner hentries
  have hmedia : View.Free root gates ⟨s, K⟩ content.media := by
    have htypesNode := (Store.shape_eq_object.mp htypes).1
    have hfree := hgated.free_field hcontent htypes
      (hpassage.ne_key (hgated.not_crowded_field howner hentries (by decide) htypesNode) htype)
    rwa [Entries.get?_cons_text, if_pos rfl, Option.getD_some] at hfree
  obtain ⟨_, fields₀, hfields₀, hschema⟩ := hfinds.schema
  rw [hfields, Shape.object.injEq] at hfields₀
  obtain ⟨-, rfl⟩ := hfields₀
  have hlinked : View.Linked ⟨s, K⟩ content.schema :=
    hgated.linked_dereference (hgated.linked_field hmedia.linked hfields) hschema
  -- A schema that stands in the content is registered, and a reference is put in its place.
  obtain ⟨K₁, registered, hstep₁, hregistered⟩ : ∃ K₁ registered,
      Classifies root gates strict T ⟨s, K⟩ registered ⟨s₁, K₁⟩ ∧
        (registered = [] ∨ registered = [(.text (op.schemaName role), content.schema)]) := by
    rcases hadopt with ⟨-, rfl⟩ | ⟨reference, s₀, hinline, hregister, hput⟩
    · exact ⟨K, [], .refl hgated, .inl rfl⟩
    · rw [Store.dereference_of_not_isReference hinline, Except.ok.injEq] at hschema
      have hfree : View.Free root gates ⟨s, K⟩ content.schema :=
        hschema ▸ hgated.free_field_of_free hpassage hmedia hfields
      have hne : fields ≠ [] := by
        rintro rfl
        obtain ⟨_, _, hobject, -⟩ := hfinds.object
        rw [← hschema] at hobject
        simp [Store.shape] at hobject
      obtain ⟨K₁, hstep, hreference, hnew⟩ :=
        classifies_register hpassage hnode hT hgated hfree hregister
      refine ⟨K₁, _, hstep.trans (classifies_putField ((hmedia.mono hstep.known_sub).writable hpassage)
        (hstep.filled ⟨id, fields, hfields, hne⟩) (by decide) hreference
        (fun _ i hi => hnew i (hmedia i hi).1) hput), .inr rfl⟩
  have hstep₂ : Classifies root gates strict T ⟨s₁, K₁⟩ [] ⟨s₂, K₁⟩ :=
    classifies_setRole hrole (hstep₁.quiet hT hpassage hgated hquiet) (hlinked.mono hstep₁.known_sub)
      (hstep₁.object_type hfinds.object)
  have hstep := hstep₁.trans hstep₂
  have hgated₂ := hstep.gated hT hgated hpassage
  -- The operation is given a copy of what then stands in the content.
  have hschema : View.Free root gates ⟨s₂, K₁⟩ ((fields'.get? "schema").getD .null) :=
    hgated₂.free_field_of_free hpassage (hmedia.mono hstep.known_sub) hfields'
  obtain ⟨_, parts, hparts, rfl, rfl⟩ := runs_copyObject.mp hcopy
  obtain ⟨hnode', hcell⟩ := Store.shape_eq_object.mp hparts
  rw [hnode'] at hschema
  have hfreeParts : ∀ w ∈ (Cell.object parts).parts, View.Free root gates ⟨s₂, K₁⟩ w := by
    intro w hw
    obtain ⟨e, he, rfl⟩ := List.mem_map.mp hw
    exact hgated₂.free_of_free hpassage hschema hcell (Cell.mem_places_object.mpr ⟨e.1, rfl, he⟩)
  obtain ⟨hext, hfree⟩ := hgated₂.extends_add hfreeParts fun hsound _ heq => by
    obtain rfl := (Cell.object.inj heq).symm
    exact hsound.nodup _ _ (hschema _ rfl).1 hcell
  have hstep₃ := hstep.trans (.extend hext)
  refine ⟨_, _, hstep₃.trans (classifies_putField (hop.mono hstep₃.known_sub).writable
    (hstep₃.filled hfilled) ?_ hfree (fun hstrict i hi hreach => ?_) hhandle), by simpa using hregistered⟩
  · cases role <;> decide
  · obtain ⟨g, hg, hgnode⟩ := hop.gate hstrict
    obtain rfl : i = g.node := by simpa [hi] using hgnode
    exact (hext.gated.free_of_reaches hpassage hfree hreach _ rfl).2.2 g hg rfl

/-- Classifying the responses registers the schema of the successful one at most. -/
theorem classifies_classifyResponses (hquiet : Quiet root gates s)
    (hgated : View.Gated root gates ⟨s, K⟩)
    (hop : IsContent root gates strict ⟨s, K⟩ op.content) (hfilled : s.Filled op.content)
    (h : Runs (classifyResponses (.node root) table op) s u s') :
    ∃ K' registered, Classifies root gates strict T ⟨s, K⟩ registered ⟨s', K'⟩ ∧
      (registered = [] ∨ ∃ w, registered = [(.text (op.schemaName .response), w)]) := by
  obtain ⟨responses, t, owner, content, hresponses, hgrows, howner, hfinds, hadopt⟩ :=
    runs_classifyResponses h
  have hsuccess : View.Linked ⟨s, K⟩ ((responses.get? "200").getD .null) := by
    cases hget : responses.get? "200" with
    | none => simp
    | some w => exact linked_responsesOf hgated hop.writable.linked hresponses (Entries.mem_of_get? hget)
  have hgated' : View.Gated root gates ⟨t, K⟩ := hgated.grow hgrows
  have hstep : Classifies root gates strict T ⟨s, K⟩ [] ⟨t, K⟩ := .extend (hgated.extends_grow hgrows)
  obtain ⟨K', registered, hstep', hregistered⟩ := classifies_adoptContent hpassage hnode hT
    (hquiet.grow hgated hgrows) hgated' (hop.mono subset_rfl) (hstep.filled hfilled)
    (hgated'.linked_dereference (hsuccess.mono subset_rfl) howner) (by decide) hfinds hadopt
  exact ⟨K', registered, hstep.trans hstep', hregistered.imp_right fun heq => ⟨_, heq⟩⟩

/-- Classifying the request registers one schema at most. -/
theorem classifies_request {query : Option Value} {body : Value} (hquiet : Quiet root gates s)
    (hgated : View.Gated root gates ⟨s, K⟩)
    (hop : IsContent root gates strict ⟨s, K⟩ op.content) (hfilled : s.Filled op.content)
    (hquery : ∀ v, query = some v → View.Free root gates ⟨s, K⟩ v ∧
      ∃ id entries, s.shape v = .object id entries ∧ entries.get? "type" = some (.text "object"))
    (hbody : View.Linked ⟨s, K⟩ body)
    (h : Runs (if op.method = .get then classifyQuery table op query body
      else classifyForm (.node root) table op query body) s u s') :
    ∃ K' registered, Classifies root gates strict T ⟨s, K⟩ registered ⟨s', K'⟩ ∧
      (registered = [] ∨ ∃ w, registered = [(.text (op.schemaName .request), w)]) := by
  have hencoding : ∀ {t : Store} {K₁ : Set Nat} {registered : Entries Value} {encoding : String},
      Classifies root gates strict T ⟨s, K⟩ registered ⟨t, K₁⟩ →
      Runs (putField op.content encodingKey (.text encoding)) t () s' →
      Classifies root gates strict T ⟨s, K⟩ registered ⟨s', K₁⟩ := by
    intro t K₁ registered encoding hstep hput
    simpa using hstep.trans (classifies_putField (hop.mono hstep.known_sub).writable
      (hstep.filled hfilled) (by decide) View.free_scalar (by simp) hput)
  split at h
  · obtain ⟨v, t, rfl, -, hadopt, hput⟩ := runs_classifyQuery.mp h
    obtain ⟨hfree, hobject⟩ := hquery v rfl
    obtain ⟨K₁, hstep⟩ := classifies_adoptParameters hpassage hnode hT hquiet hgated hop hfilled hfree
      hobject hadopt
    exact ⟨K₁, _, hencoding hstep hput, .inr ⟨v, rfl⟩⟩
  · obtain ⟨content, t, -, -, hfinds, hadopt, hput⟩ := runs_classifyForm.mp h
    obtain ⟨K₁, registered, hstep, hregistered⟩ := classifies_adoptContent hpassage hnode hT
      hquiet hgated hop hfilled hbody (by decide) hfinds hadopt
    exact ⟨K₁, registered, hencoding hstep hput, hregistered.imp_right fun heq => ⟨_, heq⟩⟩

/-- Before its responses are looked at, an operation has registered a new object for the path parameters and one schema at
most for the request. -/
theorem classifies_before_responses {id id' : Nat} {fields fields' : Entries Value} {path body : Value}
    {query : Option Value} {s₁ s₂ : Store} (hquiet : Quiet root gates s) (hgated : View.Gated root gates ⟨s, K⟩)
    (hop : IsContent root gates strict ⟨s, K⟩ op.content) (hfields : s.shape op.content = .object id fields)
    (hpresent : s.isTruthy ((fields.get? "parameters").getD .null) = true)
    (hgroup : Runs (groupParameters (.node root) ((fields.get? "parameters").getD .null)) s (some path, query) s₁)
    (hpath : Runs (adoptParameters table op .path path) s₁ () s₂) (hfields' : s₂.shape op.content = .object id' fields')
    (hbody : s₂.dereference (.node root) ((fields'.get? "requestBody").getD .null) = .ok body)
    (h : Runs (if op.method = .get then classifyQuery table op query body
      else classifyForm (.node root) table op query body) s₂ () t) :
    ∃ K', ∃ request : Entries Value,
      Classifies root gates strict T ⟨s, K⟩ ((.text (op.schemaName .path), path) :: request) ⟨t, K'⟩ ∧
        (∃ x, path = .node x ∧ s.cells.size ≤ x) ∧
        (request = [] ∨ ∃ w, request = [(.text (op.schemaName .request), w)]) ∧
        ∀ names, s.Puts (Given table names op) t := by
  have hfilled : s.Filled op.content := by
    refine ⟨id, fields, hfields, ?_⟩
    rintro rfl
    simp [Store.isTruthy, Store.shape, Scalar.isTruthy] at hpresent
  obtain ⟨K₁, hext, hnewPath, hnewQuery⟩ := extends_groupParameters hpassage hquiet hgated
    (hgated.linked_field hop.writable.linked hfields) hgroup
  have hstep₁ : Classifies root gates strict T ⟨s, K⟩ [] ⟨s₁, K₁⟩ := .extend hext
  have hschema := hnewPath path rfl
  obtain ⟨K₂, hstep₂⟩ := classifies_adoptParameters hpassage hnode hT
    (hquiet.grow hgated hext.grows) hext.gated (hop.mono hstep₁.known_sub) (hstep₁.filled hfilled) hschema.free hschema.object hpath
  have hstep := hstep₁.trans hstep₂
  have hgated₂ := hstep.gated hT hgated hpassage
  obtain ⟨K₃, request, hstep₃, hrequestKeys⟩ := classifies_request hpassage hnode hT
    (hstep.quiet hT hpassage hgated hquiet) hgated₂
    (hop.mono hstep.known_sub) (hstep.filled hfilled)
    (fun v hv => ⟨(hnewQuery v hv).free.mono hstep₂.known_sub, hstep₂.object_type (hnewQuery v hv).object⟩)
    (hgated₂.linked_dereference
      (hgated₂.linked_field (hop.mono hstep.known_sub).writable.linked hfields') hbody) h
  refine ⟨K₃, request, hstep.trans hstep₃, hschema.fresh, hrequestKeys, fun names => ?_⟩
  exact ((Store.Puts.grow hext.grows).trans (puts_adoptParameters names hpath).1).trans (puts_request names h).1

/-- Classification of an operation comes apart into what happens before its responses are looked at, and their
classification. -/
theorem classifies_parts (hquiet : Quiet root gates s) (hgated : View.Gated root gates ⟨s, K⟩)
    (hop : IsContent root gates strict ⟨s, K⟩ op.content)
    (h : Runs (classify (.node root) table op) s u s') :
    ∃ t K' path, ∃ request : Entries Value,
      Classifies root gates strict T ⟨s, K⟩ ((.text (op.schemaName .path), path) :: request) ⟨t, K'⟩ ∧
        (∃ x, path = .node x ∧ s.cells.size ≤ x) ∧
        (request = [] ∨ ∃ w, request = [(.text (op.schemaName .request), w)]) ∧
        (∀ names, s.Puts (Given table names op) t) ∧ Runs (classifyResponses (.node root) table op) t () s' := by
  obtain ⟨id, entries, path, query, s₁, s₂, id', entries', body, s₃, hentries, htruthy, hgroup, hpath,
    hentries', hbody, hrequest, hresponses⟩ := runs_classify.mp h
  obtain ⟨K', request, hstep, hfresh, hkeys, hputs⟩ := classifies_before_responses hpassage hnode hT hquiet hgated hop
    hentries htruthy hgroup hpath hentries' hbody hrequest
  exact ⟨s₃, K', path, request, hstep, hfresh, hkeys, hputs, hresponses⟩

/-- The classification of an operation registers a new object for the path parameters, and one
schema at most for the request and for the response. -/
theorem classifies_classify (hquiet : Quiet root gates s) (hgated : View.Gated root gates ⟨s, K⟩)
    (hop : IsContent root gates strict ⟨s, K⟩ op.content)
    (h : Runs (classify (.node root) table op) s u s') :
    ∃ K' path, ∃ rest : Entries Value,
      Classifies root gates strict T ⟨s, K⟩ ((.text (op.schemaName .path), path) :: rest) ⟨s', K'⟩ ∧
        (∃ x, path = .node x ∧ s.cells.size ≤ x) ∧
        rest.keys.Sublist [.text (op.schemaName .request), .text (op.schemaName .response)] := by
  obtain ⟨t, K₃, path, request, hstep, hfresh, hrequestKeys, -, hresponses⟩ :=
    classifies_parts hpassage hnode hT hquiet hgated hop h
  obtain ⟨K₄, response, hstep₄, hresponseKeys⟩ := classifies_classifyResponses hpassage hnode hT
    (hstep.quiet hT hpassage hgated hquiet) (hstep.gated hT hgated hpassage) (hop.mono hstep.known_sub)
    (hstep.filled (filled_of_classify h)) hresponses
  refine ⟨K₄, path, request ++ response, by simpa using hstep.trans hstep₄, hfresh, ?_⟩
  rcases hrequestKeys with rfl | ⟨_, rfl⟩ <;> rcases hresponseKeys with rfl | ⟨_, rfl⟩ <;>
    simp [Entries.keys]

/-- Naming an operation does not register anything. -/
theorem classifies_classifyAndName {names : Option MethodNames} (hquiet : Quiet root gates s)
    (hgated : View.Gated root gates ⟨s, K⟩) (hop : IsContent root gates strict ⟨s, K⟩ op.content)
    (h : Runs (classifyAndName (.node root) table names op) s u s') :
    ∃ K' path, ∃ rest : Entries Value,
      Classifies root gates strict T ⟨s, K⟩ ((.text (op.schemaName .path), path) :: rest) ⟨s', K'⟩ ∧
        (∃ x, path = .node x ∧ s.cells.size ≤ x) ∧
        rest.keys.Sublist [.text (op.schemaName .request), .text (op.schemaName .response)] := by
  unfold classifyAndName at h
  obtain ⟨_, t, hclassify, hname⟩ := runs_bind.mp h
  obtain ⟨K', path, rest, hstep, hfresh, hkeys⟩ :=
    classifies_classify hpassage hnode hT hquiet hgated hop hclassify
  refine ⟨K', path, rest, ?_, hfresh, hkeys⟩
  split at hname
  · obtain ⟨-, rfl⟩ := runs_pure.mp hname
    exact hstep
  · split at hname
    · simpa using hstep.trans (classifies_putField (hop.mono hstep.known_sub).writable
        (hstep.filled (filled_of_classify hclassify)) (by decide) View.free_scalar (by simp) hname)
    · simp at hname

end

end Edit

end DeviceApi
