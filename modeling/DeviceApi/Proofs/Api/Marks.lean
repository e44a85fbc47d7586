import DeviceApi.Proofs.Api.Chains
import DeviceApi.Proofs.Api.Visit
import DeviceApi.Proofs.Api.Writes

/-!
# What operations are marked with

Classification puts references to its schemas into an operation, the encoding of its request, and the name
of its method if there is a source of names. Whatever is classified afterwards, nothing else comes under
the same keys of the operation.
-/

namespace DeviceApi

/-- How the parameters of a request with this method are sent. -/
def Method.encoding : Method → RequestEncoding
  | .get => .query
  | _ => .form

/-- The keys of operations do not end in the name of a role. -/
theorem IsGenerated.notMem_classificationKeys {name : String} (h : IsGenerated name) :
    name ∉ classificationKeys := by
  obtain ⟨op, role, rfl⟩ := h
  intro hkey
  simp only [classificationKeys, Role.all, List.map, List.cons_append, List.nil_append,
    List.mem_cons, List.not_mem_nil, or_false] at hkey
  rcases hkey with heq | heq | heq | heq | heq | heq | heq <;>
    · have hlist := congrArg (List.reverse ∘ String.toList) heq
      cases role <;>
        simp [Operation.schemaName, Role.text, roleKey, encodingKey, methodNameKey, Role.operationKey,
          String.toList_append] at hlist

variable {s s' s'' : Store} {i : Nat} {key : String} {v : Value} {entries : Entries Value}

namespace Store

/-- From one store to another by nodes that are added and by values that are put under keys of objects,
each of them allowed. -/
inductive Puts (allowed : Nat → String → Value → Prop) : Store → Store → Prop
  | grow {s s' : Store} (h : s.Grows s') : Puts allowed s s'
  | put {s : Store} {i : Nat} {key : String} {v : Value} {entries : Entries Value}
      (hcell : s.cells[i]? = some (.object entries)) (h : allowed i key v) :
      Puts allowed s (s.set i (.object (entries.put (.text key) v)))
  | trans {s s' s'' : Store} (h : Puts allowed s s') (h' : Puts allowed s' s'') : Puts allowed s s''

variable {allowed : Nat → String → Value → Prop}

/-- Under each key of an object there is what was there before, or something that is allowed. -/
theorem Puts.object (h : Puts allowed s s') (hcell : s.cells[i]? = some (.object entries)) :
    ∃ entries', s'.cells[i]? = some (.object entries') ∧ ∀ key : String,
      entries'.get? (.text key) = entries.get? (.text key) ∨
        ∃ v, allowed i key v ∧ entries'.get? (.text key) = some v := by
  induction h generalizing entries with
  | grow hgrows => exact ⟨entries, (hgrows.agree i (lt_size_of_cell hcell)).trans hcell, fun _ => .inl rfl⟩
  | @put s j key v before hbefore hallowed =>
    rw [cells_set]
    by_cases hi : i = j
    · subst hi
      obtain rfl : before = entries := by simpa [hcell] using hbefore.symm
      refine ⟨_, if_pos ⟨rfl, lt_size_of_cell hcell⟩, fun key' => ?_⟩
      rw [Entries.get?_put]
      split
      · next heq => exact .inr ⟨v, heq ▸ hallowed, rfl⟩
      · exact .inl rfl
    · exact ⟨entries, by rw [if_neg fun h => hi h.1, hcell], fun _ => .inl rfl⟩
  | trans h h' ih ih' =>
    obtain ⟨middle, hmiddle, hfirst⟩ := ih hcell
    obtain ⟨last, hlast, hsecond⟩ := ih' hmiddle
    refine ⟨last, hlast, fun key => ?_⟩
    rcases hsecond key with heq | hput
    · rw [heq]
      exact hfirst key
    · exact .inr hput

/-- What is no object stays as it is when values are put into objects. -/
theorem Puts.cell_eq {cell : Cell} (h : Puts allowed s s')
    (hcell : s.cells[i]? = some cell) (hnot : ∀ entries, cell ≠ .object entries) : s'.cells[i]? = some cell := by
  induction h with
  | grow hgrows => exact (hgrows.agree i (lt_size_of_cell hcell)).trans hcell
  | @put s j key v before hbefore hallowed =>
    rw [cells_set, if_neg]
    · exact hcell
    · rintro ⟨rfl, -⟩
      exact hnot before (by simpa [hcell] using hbefore)
  | trans h h' ih ih' => exact ih' (ih hcell)

/-- The entries of an object are those from before, with allowed ones put over them. -/
theorem Puts.exists_putAll (h : Puts allowed s s') (hcell : s.cells[i]? = some (.object entries)) :
    ∃ added : Entries Value, s'.cells[i]? = some (.object (entries.putAll added)) ∧
      ∀ e ∈ added, ∃ key, e.1 = .text key ∧ allowed i key e.2 := by
  induction h generalizing entries with
  | grow hgrows => exact ⟨[], (hgrows.agree i (lt_size_of_cell hcell)).trans hcell, by simp⟩
  | @put s j key v before hbefore hallowed =>
    rw [cells_set]
    by_cases hi : i = j
    · subst hi
      obtain rfl : before = entries := by simpa [hcell] using hbefore.symm
      exact ⟨[(.text key, v)], if_pos ⟨rfl, lt_size_of_cell hcell⟩, by simpa using hallowed⟩
    · exact ⟨[], by rw [if_neg fun h => hi h.1, hcell]; rfl, by simp⟩
  | trans h h' ih ih' =>
    obtain ⟨first, hfirst, hallowed⟩ := ih hcell
    obtain ⟨second, hsecond, hallowed'⟩ := ih' hfirst
    refine ⟨first ++ second, by rw [Entries.putAll_append, hsecond], fun e he => ?_⟩
    exact (List.mem_append.mp he).elim (hallowed e) (hallowed' e)

/-- A field of an object keeps its value if no other value is allowed there. -/
theorem Puts.exists_field (h : Puts allowed s s') {P : Value → Prop} {w : Value}
    (hw : ∃ v, s.field? w (.text key) = some v ∧ P v)
    (hP : ∀ i v, w = .node i → allowed i key v → P v) : ∃ v, s'.field? w (.text key) = some v ∧ P v := by
  obtain ⟨v, hfield, hv⟩ := hw
  obtain ⟨id, entries, hshape, hget⟩ := field?_eq_some.mp hfield
  obtain ⟨rfl, hcell⟩ := shape_eq_object.mp hshape
  obtain ⟨entries', hcell', hkeys⟩ := h.object hcell
  rcases hkeys key with heq | ⟨v', hallowed, hget'⟩
  · exact ⟨v, field?_eq_some.mpr ⟨id, entries', shape_node hcell', heq.trans hget⟩, hv⟩
  · exact ⟨v', field?_eq_some.mpr ⟨id, entries', shape_node hcell', hget'⟩, hP id v' rfl hallowed⟩

end Store

namespace Edit

variable {root w : Value} {u : Unit} {table : SchemaTable} {names : Option MethodNames} {op op' : Operation}
  {role : Role} {content : Content}

/-- What an operation may hold under the keys that classification gives it. -/
inductive Mark (names : Option MethodNames) (op : Operation) : String → Value → Prop
  | handle (role : Role) (j : Nat) : Mark names op role.operationKey (.node j)
  | encoding : Mark names op encodingKey (.text op.method.encoding.text)
  | name {source : MethodNames} {name : String} (hnames : names = some source)
      (hname : source.resolvePath op.path = .ok name) : Mark names op methodNameKey (.text name)

/-- The keys that classification gives an operation. -/
def markKeys (names : Option MethodNames) : List String :=
  encodingKey :: Role.all.map Role.operationKey ++ if names.isSome then [methodNameKey] else []

/-- What the classification of an operation may put under a key of a node. -/
inductive Given (table : SchemaTable) (names : Option MethodNames) (op : Operation) (i : Nat) :
    String → Value → Prop
  | tag (role : Role) : Given table names op i roleKey (.text role.text)
  | schema (v : Value) : Given table names op i "schema" v
  | registered (role : Role) (v : Value) : Given table names op i (op.schemaName role) v
  | mark {key : String} {v : Value} (hi : op.content = .node i) (h : Mark names op key v) :
      Given table names op i key v

/-- The operation has all of its marks. -/
def Marked (s : Store) (names : Option MethodNames) (op : Operation) : Prop :=
  ∀ key ∈ markKeys names, ∃ v, s.field? op.content (.text key) = some v ∧ Mark names op key v

theorem markKeys_subset : markKeys names ⊆ classificationKeys := by
  unfold markKeys
  split <;> decide

theorem Mark.congr (h : Mark names op key v) (hpath : op.path = op'.path) (hmethod : op.method = op'.method) :
    Mark names op' key v := by
  cases h with
  | handle role j => exact .handle role j
  | encoding => exact hmethod ▸ .encoding
  | name hnames hname => exact .name hnames (hpath ▸ hname)

theorem Given.mark_of_mem (h : Given table names op i key v) (hkey : key ∈ markKeys names) :
    op.content = .node i ∧ Mark names op key v := by
  cases h with
  | mark hi h => exact ⟨hi, h⟩
  | registered role v =>
    exact absurd (markKeys_subset hkey) (IsGenerated.notMem_classificationKeys ⟨op, role, rfl⟩)
  | tag | schema =>
    refine absurd hkey ?_
    unfold markKeys
    split <;> decide

theorem operationKey_injective {role role' : Role} (h : role.operationKey = role'.operationKey) : role = role' := by
  revert h
  cases role <;> cases role' <;> decide

theorem operationKey_mem_markKeys (role : Role) : role.operationKey ∈ markKeys names := by
  unfold markKeys
  cases role <;> split <;> decide

theorem encodingKey_mem_markKeys : encodingKey ∈ markKeys names := by simp [markKeys]

/-- A mark of an operation lasts while operations are classified. -/
theorem mark_lasts (hputs : s.Puts (Given table names op') s')
    (hsame : ∀ i, op.content = .node i → op'.content = .node i → op'.path = op.path ∧ op'.method = op.method)
    (hkey : key ∈ markKeys names)
    (h : ∃ v, s.field? op.content (.text key) = some v ∧ Mark names op key v) :
    ∃ v, s'.field? op.content (.text key) = some v ∧ Mark names op key v := by
  refine hputs.exists_field h fun i v hi hgiven => ?_
  obtain ⟨hi', hmark⟩ := hgiven.mark_of_mem hkey
  obtain ⟨hpath, hmethod⟩ := hsame i hi hi'
  exact hmark.congr hpath hmethod

theorem Marked.puts (h : Marked s names op) (hputs : s.Puts (Given table names op') s')
    (hsame : ∀ i, op.content = .node i → op'.content = .node i → op'.path = op.path ∧ op'.method = op.method) :
    Marked s' names op := fun key hkey => mark_lasts hputs hsame hkey (h key hkey)

/-! ## What is put where -/

theorem puts_putField {allowed : Nat → String → Value → Prop}
    (h : Runs (putField v (.text key) w) s u s') (hallowed : ∀ i, v = .node i → allowed i key w) :
    s.Puts allowed s' ∧ s'.field? v (.text key) = some w := by
  obtain ⟨id, entries, hshape, rfl⟩ := runs_putField.mp h
  obtain ⟨rfl, hcell⟩ := Store.shape_eq_object.mp hshape
  exact ⟨.put hcell (hallowed id rfl), Store.field?_eq_some.mpr
    ⟨id, entries.put (.text key) w, Store.shape_set_of_shape hshape, Entries.get?_put_self⟩⟩

theorem puts_setRole (h : Runs (setRole v role) s u s') : s.Puts (Given table names op) s' := by
  obtain ⟨id, entries, hshape, -, rfl⟩ := runs_setRole h
  exact .put (Store.shape_eq_object.mp hshape).2 (.tag role)

theorem puts_register (h : Runs (table.register (.text (op.schemaName role)) v) s w s') :
    s.Puts (Given table names op) s' ∧ ∃ j, w = .node j := by
  obtain ⟨id, entries, hshape, rfl, rfl⟩ := runs_register h
  exact ⟨.trans (.put (Store.shape_eq_object.mp hshape).2 (.registered role v)) (.grow (.add _ _)), _, rfl⟩

/-- A mark that has been put is there, and lasts. -/
theorem puts_mark (table : SchemaTable) (h : Runs (putField op.content (.text key) v) s u s')
    (hmark : Mark names op key v) : s.Puts (Given table names op) s' ∧
      ∃ v, s'.field? op.content (.text key) = some v ∧ Mark names op key v := by
  obtain ⟨hputs, hfield⟩ := puts_putField h fun i hi => @Given.mark table _ _ i _ _ hi hmark
  exact ⟨hputs, v, hfield, hmark⟩

theorem puts_adoptParameters (names : Option MethodNames) (h : Runs (adoptParameters table op role v) s u s') :
    s.Puts (Given table names op) s' ∧
      ∃ v, s'.field? op.content (.text role.operationKey) = some v ∧ Mark names op role.operationKey v := by
  obtain ⟨s₁, reference, s₂, hrole, hregister, hhandle⟩ := runs_adoptParameters h
  obtain ⟨hregistered, j, rfl⟩ := puts_register hregister
  obtain ⟨hput, hmark⟩ := puts_mark table hhandle (.handle role j)
  exact ⟨((puts_setRole hrole).trans hregistered).trans hput, hmark⟩

theorem puts_adoptContent (names : Option MethodNames) (h : Runs (adoptContent table op role content) s u s') :
    s.Puts (Given table names op) s' ∧
      ∃ v, s'.field? op.content (.text role.operationKey) = some v ∧ Mark names op role.operationKey v := by
  obtain ⟨s₁, s₂, id, fields, hfields, hadopt, hrole, id', fields', copy, s₃, hfields', hcopy,
    hhandle⟩ := runs_adoptContent h
  have hfirst : s.Puts (Given table names op) s₁ := by
    rcases hadopt with ⟨-, rfl⟩ | ⟨reference, s₀, -, hregister, hput⟩
    · exact .grow (.refl _)
    · exact (puts_register hregister).1.trans (puts_putField hput fun i _ => .schema reference).1
  obtain ⟨_, parts, -, rfl, rfl⟩ := runs_copyObject.mp hcopy
  obtain ⟨hput, hmark⟩ := puts_mark table hhandle (.handle role s₂.cells.size)
  exact ⟨((hfirst.trans (puts_setRole hrole)).trans (.grow (.add _ _))).trans hput, hmark⟩

/-- Putting entries over those of a new object leaves the older nodes as they are. -/
theorem grows_overlay {t t' : Store} {n : Nat} (hgrows : s.Grows t) (hn : s.cells.size ≤ n)
    (h : Runs (overlay (.node n) w) t u t') : s.Grows t' := by
  have hset : ∀ {t : Store} {entries : Entries Value}, s.Grows t → s.Grows (t.set n (.object entries)) :=
    fun hgrows => ⟨by simpa using hgrows.size_le, fun i hi => hgrows.cells_set hi (by omega)⟩
  exact h.overlay_induct s.Grows hgrows (fun _ _ _ _ _ => hset hgrows)
    fun _ _ _ _ _ _ _ _ hgrows _ _ => hset hgrows

theorem grows_addParameter {groups groups' : ParameterGroups}
    (h : Runs (addParameter root groups v) s groups' s') : s.Grows s' := by
  obtain ⟨_, _, parameter, _, property, _, _, -, -, -, hproperty, -, -, -⟩ := runs_addParameter h
  obtain ⟨t, hnew, hcases⟩ := runs_propertyOf hproperty
  obtain ⟨rfl, rfl⟩ := runs_newObject.mp hnew
  rcases hcases with ⟨-, hoverlay⟩ | ⟨-, rfl⟩
  · exact grows_overlay (.add s _) le_rfl hoverlay
  · exact .add s _

theorem grows_groupSchema? {group : Option ParameterGroup} {schema : Option Value}
    (h : Runs (groupSchema? group) s schema s') : s.Grows s' := by
  cases group with
  | none =>
    obtain ⟨-, rfl⟩ := runs_pure.mp h
    exact .refl s
  | some group =>
    obtain ⟨v, t, hgroup, hdone⟩ := runs_bind.mp h
    obtain ⟨-, rfl⟩ := runs_pure.mp hdone
    obtain ⟨properties, s₁, hproperties, hcases⟩ := runs_groupSchema hgroup
    obtain ⟨-, rfl⟩ := runs_newObject.mp hproperties
    rcases hcases with ⟨-, hnew⟩ | ⟨required, s₂, -, hrequired, hnew⟩
    · obtain ⟨-, rfl⟩ := runs_newObject.mp hnew
      exact (Store.Grows.add s _).trans (.add _ _)
    · obtain ⟨-, rfl⟩ := runs_newList.mp hrequired
      obtain ⟨-, rfl⟩ := runs_newObject.mp hnew
      exact ((Store.Grows.add s _).trans (.add _ _)).trans (.add _ _)

/-- Parameters are grouped in new nodes. -/
theorem grows_groupParameters {path query : Option Value}
    (h : Runs (groupParameters root v) s (path, query) s') : s.Grows s' := by
  obtain ⟨items, groups, s₁, s₂, -, hgroups, -, hpath, hquery⟩ := runs_groupParameters h
  have hadd : s.Grows s₁ := Runs.foldlM_induct (fun _ _ t => s.Grows t) hgroups (.refl s)
    fun _ _ _ _ _ _ _ _ hI hstep => hI.trans (grows_addParameter hstep)
  exact (hadd.trans (grows_groupSchema? hpath)).trans (grows_groupSchema? hquery)

/-! ## An operation and the others -/

theorem puts_request (names : Option MethodNames) {query : Option Value} {body : Value}
    (h : Runs (if op.method = .get then classifyQuery table op query body
      else classifyForm root table op query body) s u s') :
    s.Puts (Given table names op) s' ∧ ∀ key ∈ [Role.request.operationKey, encodingKey],
      ∃ v, s'.field? op.content (.text key) = some v ∧ Mark names op key v := by
  have hencoding : ∀ {t : Store} {encoding : RequestEncoding}, op.method.encoding = encoding →
      s.Puts (Given table names op) t ∧ (∃ v, t.field? op.content (.text Role.request.operationKey) = some v ∧
        Mark names op Role.request.operationKey v) →
      Runs (putField op.content (.text encodingKey) (.text encoding.text)) t () s' →
      s.Puts (Given table names op) s' ∧ ∀ key ∈ [Role.request.operationKey, encodingKey],
        ∃ v, s'.field? op.content (.text key) = some v ∧ Mark names op key v := by
    rintro t encoding rfl ⟨hputs, hhandle⟩ hput
    have hmarked : Mark names op encodingKey (.text op.method.encoding.text) := .encoding
    obtain ⟨hlast, hmark⟩ := puts_mark table hput hmarked
    refine ⟨hputs.trans hlast, fun key hkey => ?_⟩
    rcases List.mem_pair.mp hkey with rfl | rfl
    · exact mark_lasts hlast (fun _ _ _ => ⟨rfl, rfl⟩) (operationKey_mem_markKeys .request) hhandle
    · exact hmark
  split at h
  · next hget =>
    obtain ⟨v, t, -, -, hadopt, hput⟩ := runs_classifyQuery.mp h
    exact hencoding (by rw [hget]; rfl) (puts_adoptParameters names hadopt) hput
  · next hget =>
    obtain ⟨content, t, -, -, -, hadopt, hput⟩ := runs_classifyForm.mp h
    refine hencoding ?_ (puts_adoptContent names hadopt) hput
    cases hmethod : op.method <;> first | rfl | exact absurd hmethod hget

/-- Classifying an operation gives it all of its marks. -/
theorem puts_classifyAndName (h : Runs (classifyAndName root table names op) s u s') :
    s.Puts (Given table names op) s' ∧ Marked s' names op := by
  unfold classifyAndName at h
  obtain ⟨_, t, hclassify, hname⟩ := runs_bind.mp h
  obtain ⟨_, _, path, query, s₁, s₂, _, _, body, s₃, -, -, hgroup, hpath, -, -, hrequest,
    hresponses⟩ := runs_classify.mp hclassify
  obtain ⟨responses, s₄, _, content, hresponsesOf, hgrows, -, -, hresponse⟩ :=
    runs_classifyResponses hresponses
  obtain ⟨hputs₁, hmark₁⟩ := puts_adoptParameters names hpath
  obtain ⟨hputs₂, hmark₂⟩ := puts_request names hrequest
  obtain ⟨hputs₃, hmark₃⟩ := puts_adoptContent names hresponse
  have hlast : s₃.Puts (Given table names op) t := .trans (.grow hgrows) hputs₃
  have hall : s.Puts (Given table names op) t :=
    (((Store.Puts.grow (grows_groupParameters hgroup)).trans hputs₁).trans hputs₂).trans hlast
  have hlasts : ∀ {t₁ t₂ : Store} {key : String}, t₁.Puts (Given table names op) t₂ → key ∈ markKeys names →
      (∃ v, t₁.field? op.content (.text key) = some v ∧ Mark names op key v) →
      ∃ v, t₂.field? op.content (.text key) = some v ∧ Mark names op key v := fun hputs =>
    mark_lasts hputs fun _ _ _ => ⟨rfl, rfl⟩
  have hhandles : ∀ role : Role, ∃ v, t.field? op.content (.text role.operationKey) = some v ∧
      Mark names op role.operationKey v := by
    intro role
    cases role with
    | path => exact hlasts (hputs₂.trans hlast) (operationKey_mem_markKeys .path) hmark₁
    | request => exact hlasts hlast (operationKey_mem_markKeys .request) (hmark₂ _ (by simp))
    | response => exact hmark₃
  have hencoding := hlasts hlast encodingKey_mem_markKeys (hmark₂ encodingKey (by simp))
  split at hname
  · obtain ⟨-, rfl⟩ := runs_pure.mp hname
    refine ⟨hall, fun key hkey => ?_⟩
    simp only [markKeys, Option.isSome_none, Bool.false_eq_true, if_false, List.append_nil, List.mem_cons,
      List.mem_map] at hkey
    rcases hkey with rfl | ⟨role, -, rfl⟩
    · exact hencoding
    · exact hhandles role
  · next source =>
    split at hname
    · next name hresolve =>
      have hmarked : Mark (some source) op methodNameKey (.text name) := .name rfl hresolve
      obtain ⟨hput, hmark⟩ := puts_mark table hname hmarked
      refine ⟨hall.trans hput, fun key hkey => ?_⟩
      have hkey' := hkey
      simp only [markKeys, Option.isSome_some, if_true, List.cons_append, List.mem_cons, List.mem_append,
        List.mem_map, List.not_mem_nil, or_false] at hkey'
      rcases hkey' with rfl | ⟨role, -, rfl⟩ | rfl
      · exact hlasts hput hkey hencoding
      · exact hlasts hput hkey (hhandles role)
      · exact hmark
    · simp at hname

/-- Once operations have been classified, all of them have their marks, if what they contain tells path and
method. -/
theorem marked_of_forM {ops : List Operation}
    (hsame : ∀ op ∈ ops, ∀ op' ∈ ops, ∀ i, op.content = .node i → op'.content = .node i →
      op'.path = op.path ∧ op'.method = op.method)
    (h : Runs (ops.forM (classifyAndName root table names)) s u s') : ∀ op ∈ ops, Marked s' names op := by
  suffices hgeneral : ∀ (done rest : List Operation) t, done ++ rest = ops → (∀ op ∈ done, Marked t names op) →
      Runs (rest.forM (classifyAndName root table names)) t u s' → ∀ op ∈ ops, Marked s' names op from
    hgeneral [] ops s rfl (by simp) h
  intro done rest
  induction rest generalizing done with
  | nil =>
    intro t hdone hmarked hrun
    obtain rfl := runs_forM_nil.mp hrun
    rwa [← hdone, List.append_nil]
  | cons op rest ih =>
    intro t hdone hmarked hrun
    obtain ⟨t', hop, hrest⟩ := runs_forM_cons.mp hrun
    obtain ⟨hputs, hself⟩ := puts_classifyAndName hop
    refine ih (done ++ [op]) t' (by simpa using hdone) (fun op' hop' => ?_) hrest
    rcases List.mem_append.mp hop' with hmem | hmem
    · exact (hmarked op' hmem).puts hputs
        (hsame op' (hdone ▸ List.mem_append_left _ hmem) op (hdone ▸ by simp))
    · exact List.mem_singleton.mp hmem ▸ hself

end Edit

end DeviceApi
