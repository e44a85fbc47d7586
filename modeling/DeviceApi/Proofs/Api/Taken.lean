import DeviceApi.Proofs.Api.Declared
import DeviceApi.Proofs.Api.Traces

/-!
# What an operation has adopted so far

An operation adopts the schemas of its parameters, which are new, and contents, which are found where they were in the
beginning. Each step keeps the traces of the others, so references and contents lead where they led in the beginning, and
media types whose schemas have been registered lead to the same schemas.
-/

namespace DeviceApi

variable {s t t' : Store} {v w : Value} {i : Nat} {key : String}

/-- The media type of what has its schema in a role. -/
def Role.contentType? : Role → Option String
  | .path => none
  | .request => some formContentType
  | .response => some jsonContentType

theorem Role.mem_contentTypes {role : Role} {type : String} (h : role.contentType? = some type) : type ∈ contentTypes := by
  cases role with
  | path => cases h
  | request | response =>
    obtain rfl := Option.some.inj h
    decide

theorem Role.contentType?_injective {role role' : Role} {type : String} (h : role.contentType? = some type)
    (h' : role'.contentType? = some type) : role = role' := by
  rw [← h'] at h
  revert h h'
  cases role <;> cases role' <;> simp [contentType?, formContentType, jsonContentType]

namespace Edit

variable {root c T : Nat} {entries : Entries Value} {table : SchemaTable} {op : Operation} {role role' : Role}
  {x : Adoption} {content : Content} {taken : Role → Option Adoption} {u : Unit}

/-- The value is a node that has been added. -/
def Added (s : Store) (v : Value) : Prop := ∃ i, v = .node i ∧ s.cells.size ≤ i

theorem Added.not_ordinary (h : Added s v) : ¬ Ordinary s root c T entries v := by
  obtain ⟨i, rfl, hle⟩ := h
  exact fun hv => absurd (hv.lt i rfl) (by omega)

/-- An operation of an opened document where references are plain and none of them goes to a schema that the operation is
going to register. -/
structure Placed (s : Store) (root c T : Nat) (entries : Entries Value) (table : SchemaTable) (op : Operation) : Prop where
  opened : Opened s root c T entries
  node : table.schemas = .node T
  schemas : s.IsObject table.schemas
  content : IsContent root (deepGates s root (entries.get? "paths") c T) True ⟨s, {i | i < s.cells.size}⟩ op.content
  object : s.IsObject op.content
  plain : ∀ v p, Ordinary s root c T entries v → s.field? v referenceKey = some (.text p) →
    Pointer.Plain p ∧ ∀ role, p ≠ pointerTo (op.schemaName role)
  written : ∀ v, Ordinary s root c T entries v → s.Has v → s.Written v

/-- Contents are found at ordinary places. -/
theorem Placed.exists_owner (h : Placed s root c T entries table op) (hsupplies : s.Supplies (.node root) op role content) :
    ∃ owner type, role.contentType? = some type ∧ Ordinary s root c T entries owner ∧
      FindsContent s (.node root) owner type content := by
  have hordinary : ∀ {v w}, Ordinary s root c T entries v → s.dereference (.node root) v = .ok w →
      Ordinary s root c T entries w := h.opened.ordinary_dereference fun v p hv hp => (h.plain v p hv hp).1
  cases role with
  | path => exact hsupplies.elim
  | request =>
    obtain ⟨-, body, hbody, hfinds⟩ := hsupplies
    exact ⟨body, _, rfl, hordinary (ordinary_declared h.opened h.content "requestBody") hbody, hfinds⟩
  | response =>
    obtain ⟨owner, howner, hfinds⟩ := hsupplies
    exact ⟨owner, _, rfl, hordinary (ordinary_success h.opened h.content) howner, hfinds⟩

/-- What an operation can adopt in a role: parameters are given new schemas, those of the query if there can be no body, and
contents are those that the operation has. -/
def Found (s : Store) (root : Nat) (op : Operation) (role : Role) : Adoption → Prop
  | .parameters v => Added s v ∧ (role = .path ∨ role = .request ∧ op.method = .get)
  | .content found => s.Supplies (.node root) op role found ∧ s.MayHave found.schema role

/-- Where the operation has a content, it can adopt nothing else. -/
theorem Found.eq_content (h : Found s root op role x) (hsupplies : s.Supplies (.node root) op role content) :
    x = .content content := by
  cases x with
  | parameters v =>
    obtain rfl | ⟨rfl, hmethod⟩ := h.2
    · exact hsupplies.elim
    · exact absurd hmethod hsupplies.1
  | content found => exact congrArg _ (h.1.unique hsupplies)

/-- The media types in which schemas have been replaced by references. -/
def InMedia (s : Store) (taken : Role → Option Adoption) (v : Value) : Prop :=
  ∃ role found, taken role = some (.content found) ∧ (Adoption.content found).isRegistered s = true ∧ v = found.media

/-- The schemas that have been tagged: new ones, and those of contents. -/
def IsTagged (s : Store) (taken : Role → Option Adoption) (v : Value) : Prop :=
  Added s v ∨ ∃ role found, taken role = some (.content found) ∧ v = found.schema

/-- A content that is found in the beginning has ordinary parts, and its schema may have the role. -/
structure Held (s : Store) (root c T : Nat) (entries : Entries Value) (role : Role) (content : Content) : Prop where
  types : ∃ types id type, role.contentType? = some type ∧ s.shape types = .object id [(.text type, content.media)]
  media : Ordinary s root c T entries content.media
  field : s.field? content.media "schema" = some (Adoption.declared s content)
  declared : Ordinary s root c T entries (Adoption.declared s content)
  leads : s.dereference (.node root) (Adoption.declared s content) = .ok content.schema
  schema : Ordinary s root c T entries content.schema
  object : s.field? content.schema "type" = some (.text "object")
  mayHave : s.MayHave content.schema role
  not_reference : s.isReference content.schema = false

theorem Placed.held (h : Placed s root c T entries table op) (hfound : Found s root op role (.content content)) :
    Held s root c T entries role content := by
  obtain ⟨hsupplies, hmay⟩ := hfound
  obtain ⟨owner, type, htype, howner, hfinds⟩ := h.exists_owner hsupplies
  obtain ⟨hmedia, hordinary⟩ := h.opened.ordinary_content (fun v p hv hp => (h.plain v p hv hp).1) howner hfinds
  obtain ⟨types, id, declared, hcontent, htypes, hdeclared, hschema, hobject⟩ := findsContent_iff_fields.mp hfinds
  obtain ⟨n, hchain⟩ := Store.dereference_eq_ok.mp hschema
  obtain rfl : Adoption.declared s content = declared := by rw [Adoption.declared, hdeclared, Option.getD_some]
  exact ⟨⟨types, id, type, htype, htypes⟩, hmedia, hdeclared, h.opened.ordinary_field hmedia hdeclared, hschema, hordinary,
    hobject, hmay, hchain.not_isReference⟩

theorem Held.isObject (h : Held s root c T entries role content) : s.IsObject content.schema := by
  obtain ⟨id, keywords, hkeywords, -⟩ := Store.field?_eq_some.mp h.object
  exact ⟨id, keywords, hkeywords⟩

theorem isReference_declared (h : (Adoption.content content).isRegistered s = true) :
    s.isReference (Adoption.declared s content) = false := by simpa [Adoption.isRegistered] using h

/-- Contents in two roles have two media types. -/
theorem Held.media_ne {content' : Content} (h : Held s root c T entries role content)
    (h' : Held s root c T entries role' content') (hopened : Opened s root c T entries) (hne : role' ≠ role) :
    content.media ≠ content'.media := by
  intro heq
  obtain ⟨_, _, type, htype, htypes⟩ := h.types
  obtain ⟨_, _, type', htype', htypes'⟩ := h'.types
  obtain ⟨i, _, hshape, -⟩ := Store.field?_eq_some.mp h.field
  have hi := (Store.shape_eq_object.mp hshape).1
  have hget : ∀ {type : String} {v : Value}, v = .node i → Entries.get? (.text type) [(.text type, v)] = some (.node i) :=
    fun hv => by rw [Entries.get?_cons_text, if_pos rfl, hv]
  have hstands := stands_of_get? (Store.shape_eq_object.mp htypes).2 (hget hi)
  have hstands' := stands_of_get? (Store.shape_eq_object.mp htypes').2 (hget (heq ▸ hi))
  obtain rfl : type' = type := by simpa using (hopened.tidy.unique _ _ _ _ _ hstands' hstands).2
  exact hne (Role.contentType?_injective htype' htype)

/-- Where contents are found, adopting them leaves things steady. -/
theorem Placed.steady (h : Placed s root c T entries table op)
    (hfound : ∀ role x, taken role = some x → Found s root op role x)
    (hputs : s.Puts (Changes table op (InMedia s taken) (IsTagged s taken)) t) :
    Steady s t root c T entries table op (InMedia s taken) (IsTagged s taken) where
  opened := h.opened
  node := h.node
  content := h.content
  plain := h.plain
  puts := hputs
  media_place := by
    rintro i ⟨role, found, htaken, -, hi⟩
    have hheld := h.held (hfound role _ htaken)
    obtain ⟨types, id, type, htype, htypes⟩ := hheld.types
    have hfield : s.field? types type = some (.node i) :=
      Store.field?_eq_some.mpr ⟨id, _, htypes, by rw [Entries.get?_cons_text, if_pos rfl, hi]⟩
    exact ⟨hi ▸ hheld.media, fun j key hj => ⟨type, Role.mem_contentTypes htype, (h.opened.place_of_field hfield hj).2⟩⟩
  media_schema := by
    rintro v ⟨role, found, htaken, hregistered, rfl⟩
    exact ⟨_, (h.held (hfound role _ htaken)).field, isReference_declared hregistered⟩
  tagged_new := by
    rintro i (⟨j, heq, hle⟩ | ⟨role, found, htaken, heq⟩)
    · exact .inr (Value.node.inj heq ▸ hle)
    · exact .inl (heq ▸ (h.held (hfound role _ htaken)).schema)
  tagged_schema := by
    rintro v (hadded | ⟨role, found, htaken, rfl⟩) hv
    · exact absurd hv hadded.not_ordinary
    · have hheld := h.held (hfound role _ htaken)
      exact ⟨hheld.object, role, hheld.mayHave⟩
  tagged_place := by
    rintro i (⟨j, heq, hle⟩ | ⟨role, found, htaken, heq⟩) k key hk
    · obtain rfl := Value.node.inj heq
      exact absurd (h.opened.tidy.inside _ _ _ hk).1 (by omega)
    · have hheld := h.held (hfound role _ htaken)
      refine (h.opened.place_of_dereference (fun v p hv hp => (h.plain v p hv hp).1) hheld.declared (heq ▸ hheld.leads)
        hk).imp_left ?_
      rintro ⟨hself, hnot⟩
      obtain ⟨hmedia, hkey⟩ := h.opened.place_of_field (hself ▸ hheld.field) hk
      exact ⟨⟨role, found, htaken, by simp [Adoption.isRegistered, hnot], hmedia.symm⟩, hkey⟩

/-- What an operation has adopted so far, each in its role, has left its trace. -/
structure Taken (s t : Store) (root c T : Nat) (entries : Entries Value) (table : SchemaTable) (op : Operation)
    (taken : Role → Option Adoption) : Prop extends
    Steady s t root c T entries table op (InMedia s taken) (IsTagged s taken) where
  found : ∀ role x, taken role = some x → Found s root op role x
  trace : ∀ role x, taken role = some x → x.Trace s t table op role

namespace Taken

variable (hplaced : Placed s root c T entries table op)
include hplaced

theorem start : Taken s s root c T entries table op fun _ => none where
  toSteady := hplaced.steady (by simp) (.grow (.refl s))
  found := by simp
  trace := by simp

variable (h : Taken s t root c T entries table op taken)
include h

/-- Media types with a registered schema refer to it. -/
theorem adopted : Adopted s t root c T entries table op (InMedia s taken) (IsTagged s taken) where
  toSteady := h.toSteady
  media_reference := by
    rintro v ⟨role, found, htaken, hregistered, rfl⟩
    obtain ⟨j, -, hfield, hcell⟩ := (h.trace role _ htaken).media_eq found rfl hregistered
    have hheld := hplaced.held (h.found role _ htaken)
    have hschema := hheld.leads
    rw [Store.dereference_of_not_isReference (isReference_declared hregistered), Except.ok.injEq] at hschema
    have hregister : t.field? (.node T) (op.schemaName role) = some found.schema :=
      h.node ▸ (h.trace role _ htaken).registered_eq hregistered
    refine ⟨j, op.schemaName role, found.schema, hfield, hcell, ?_, hheld.field.trans (congrArg some hschema), hheld.isObject⟩
    refine Store.dereference_eq_ok.mpr ⟨1, .cons (p := pointerTo (op.schemaName role))
      (Store.field?_eq_some.mpr ⟨_, _, Store.shape_node hcell, rfl⟩) (h.resolve_registered hregister ?_) (.nil ?_)⟩
    · obtain ⟨id, fields, hshape⟩ := h.puts.isObject hheld.isObject
      obtain ⟨heq, hcell⟩ := Store.shape_eq_object.mp hshape
      rw [heq, Store.isNull_node hcell]
    · rw [h.isReference_eq hheld.schema, hheld.not_reference]

/-- A schema that is adopted becomes part of what has been adopted, and the other traces last. -/
theorem step (hx : Found s root op role x) (hnew : ∀ v, x = .parameters v → t.isReference v = false)
    (hmay : t.MayHave x.schema role)
    (hputs : t.Puts (x.Changes s table op role) t') (htrace : x.Trace s t' table op role) :
    Taken s t' root c T entries table op (Function.update taken role (some x)) := by
  have hfound : ∀ role' x', Function.update taken role (some x) role' = some x' → Found s root op role' x' := by
    intro role' x' htaken
    by_cases hrole : role' = role
    · subst hrole
      rw [Function.update_self, Option.some.injEq] at htaken
      exact htaken ▸ hx
    · rw [Function.update_of_ne hrole] at htaken
      exact h.found role' x' htaken
  have hmore : ∀ {role' found}, taken role' = some (.content found) →
      Function.update taken role (some x) role' = some (.content found) := by
    intro role' found htaken
    by_cases hrole : role' = role
    · subst hrole
      rw [Function.update_self, hx.eq_content (h.found role' _ htaken).1]
    · rw [Function.update_of_ne hrole, htaken]
  have hchanges : ∀ i key w, x.Changes s table op role i key w → Changes table op
      (InMedia s (Function.update taken role (some x))) (IsTagged s (Function.update taken role (some x))) i key w := by
    intro i key w hc
    cases hc with
    | registered hi hregistered => exact .registered hi role _
    | handle hi j => exact .mark hi (.handle role j)
    | encoding hi => exact .mark hi .encoding
    | media heq hregistered hi j =>
      exact .schema ⟨role, _, by rw [Function.update_self, heq], heq ▸ hregistered, hi.symm⟩ j
    | tag hi =>
      refine .tag ?_ role
      cases x with
      | parameters v => exact .inl (hi ▸ hx.1)
      | content found => exact .inr ⟨role, found, Function.update_self _ _ _, hi.symm⟩
  -- What is put into new nodes is put into the schema of parameters.
  have hschema : ∀ i key w, x.Changes s table op role i key w → s.cells.size ≤ i → t.isReference (.node i) = false := by
    intro i key w hc hle
    cases hc with
    | registered hi _ => exact absurd (hplaced.schemas.lt i hi) (by omega)
    | handle hi _ | encoding hi => exact absurd (hplaced.object.lt i hi) (by omega)
    | media heq _ hi _ =>
      have hheld := hplaced.held (heq ▸ hx)
      exact absurd (hheld.media.lt i hi) (by omega)
    | tag hi =>
      cases x with
      | parameters v => exact hi ▸ hnew v rfl
      | content found =>
        have hheld := hplaced.held hx
        exact absurd (hheld.schema.lt i hi) (by omega)
  refine ⟨hplaced.steady hfound ((h.puts.mono fun i key w hc => hc.mono ?_ ?_).trans (hputs.mono hchanges)), hfound, ?_⟩
  · rintro v ⟨role', found, htaken, hregistered, rfl⟩
    exact ⟨role', found, hmore htaken, hregistered, rfl⟩
  · rintro v (hadded | ⟨role', found, htaken, rfl⟩)
    · exact .inl hadded
    · exact .inr ⟨role', found, hmore htaken, rfl⟩
  intro role' x' htaken
  by_cases hrole : role' = role
  · subst hrole
    rw [Function.update_self, Option.some.injEq] at htaken
    exact htaken ▸ htrace
  · rw [Function.update_of_ne hrole] at htaken
    have htrace' := h.trace role' x' htaken
    refine htrace'.keep hputs hschema (fun i w hi hc => ?_) (fun i w _ hc => hrole hc.role_eq_of_operationKey)
      (fun _ i w _ hc => hrole hc.of_schemaName.1) fun found heq _ i w hi hc => ?_
    · exact htrace'.schema_ne hmay (Ne.symm hrole) (hi.trans hc.of_roleKey.1.symm)
    · obtain ⟨found', heq', -, hi'⟩ := hc.of_schema
      have hheld := hplaced.held (heq ▸ h.found role' x' htaken)
      exact hheld.media_ne (hplaced.held (heq' ▸ hx)) h.opened (Ne.symm hrole) (hi.trans hi'.symm)

/-- Nodes may be added, and the operation may be given the encoding of its request. -/
theorem encode (hputs : t.Puts (fun i key w => op.content = .node i ∧ key = encodingKey ∧
    w = .text op.method.encoding.text) t') : Taken s t' root c T entries table op taken where
  toSteady := hplaced.steady h.found (h.puts.trans (hputs.mono fun i key w hc => by
    obtain ⟨hi, rfl, rfl⟩ := hc
    exact .mark hi .encoding))
  found := h.found
  trace role x htaken := by
    refine (h.trace role x htaken).keep hputs (fun i key w hc hle => absurd (hplaced.object.lt i hc.1) (by omega))
      (fun i w _ hc => absurd hc.2.1 (by decide)) (fun i w _ hc => absurd hc.2.1 (by cases role <;> decide))
      (fun _ i w _ hc => ?_) fun _ _ _ i w _ hc => absurd hc.2.1 (by decide)
    exact op.schemaName_notMem role (hc.2.1 ▸ by decide)

/-- The schema of parameters is adopted. -/
theorem adoptParameters (hv : Found s root op role (.parameters v)) (hnew : t.isReference v = false) (hrun : Runs (adoptParameters table op role v) t u t') :
    t.Puts ((Adoption.parameters v).Changes s table op role) t' ∧
      Taken s t' root c T entries table op (Function.update taken role (some (.parameters v))) := by
  obtain ⟨hputs, htrace⟩ := trace_adoptParameters hplaced.object h.puts.size_le hrun
  obtain ⟨_, _, _, hrole, -⟩ := runs_adoptParameters hrun
  exact ⟨hputs, h.step hplaced hv
    (fun w heq => Adoption.parameters.inj heq ▸ hnew) (mayHave_of_runs hrole) hputs htrace⟩

/-- A content can be adopted just if its schema may have the role. -/
theorem exists_runs_adoptContent_iff (hsupplies : s.Supplies (.node root) op role content) :
    (∃ t', Runs (adoptContent table op role content) t () t') ↔ t.MayHave content.schema role := by
  obtain ⟨owner, type, htype, howner, hfinds⟩ := hplaced.exists_owner hsupplies
  have hne : type ≠ "type" := fun heq => absurd (heq ▸ Role.mem_contentTypes htype) (by decide)
  have hordinary := (h.ordinary_content howner hfinds).2
  refine Edit.exists_runs_adoptContent_iff (((h.adopted hplaced).findsContent_iff howner hne).mpr hfinds) (fun i hi => ?_)
    (h.puts.isObject hplaced.schemas) (h.puts.isObject hplaced.object)
  rcases h.role_cases hordinary hi with hfield | ⟨role, heq⟩
  · have hi := h.opened.ordinary_field hordinary hfield
    exact ⟨(hi.lt i rfl).trans_le h.puts.size_le, fun hT => hi.ne_schemas (hT.symm.trans h.node)⟩
  · cases heq

omit hplaced in
/-- What an ordinary schema may be adopted for has to agree with the role that it has been adopted in. -/
theorem mayHave_ordinary_iff (hv : Ordinary s root c T entries v) : t.MayHave v role ↔ s.MayHave v role ∧
    ∀ role' found, taken role' = some (.content found) → found.schema = v → role' = role := by
  by_cases htagged : ∃ role' found, taken role' = some (.content found) ∧ found.schema = v
  · obtain ⟨role', found, htaken, rfl⟩ := htagged
    have htrace := h.trace role' _ htaken
    constructor
    · intro hmay
      have hsame : ∀ role' found', taken role' = some (.content found') → found'.schema = found.schema → role' = role := by
        intro role' found' htaken' heq
        by_contra hne
        exact (h.trace role' _ htaken').schema_ne hmay (Ne.symm hne) heq
      exact ⟨hsame role' found htaken rfl ▸ (h.found role' _ htaken).2, hsame⟩
    · rintro ⟨hmay, hsame⟩
      obtain rfl := hsame role' found htaken rfl
      refine Store.mayHave_iff_field.mpr ⟨h.puts.isObject (Store.mayHave_iff_field.mp hmay).1, fun w hw _ => ?_⟩
      exact (Option.some.inj (htrace.role_eq.symm.trans hw)).symm
  · rw [h.mayHave_iff hv, and_iff_left fun role' found htaken heq => absurd ⟨role', found, htaken, heq⟩ htagged]
    rintro (hadded | ⟨role', found, htaken, heq⟩)
    · exact hadded.not_ordinary hv
    · exact htagged ⟨role', found, htaken, heq.symm⟩

/-- A content can be adopted for the first time, or once more. -/
theorem adoptContent (hsupplies : s.Supplies (.node root) op role content)
    (hrun : Runs (adoptContent table op role content) t () t') :
    t.Puts ((Adoption.content content).Changes s table op role) t' ∧
      Taken s t' root c T entries table op (Function.update taken role (some (.content content))) := by
  have hmay := (h.exists_runs_adoptContent_iff hplaced hsupplies).mp ⟨t', hrun⟩
  obtain ⟨owner, type, -, howner, hfinds⟩ := hplaced.exists_owner hsupplies
  have hfound : Found s root op role (.content content) :=
    ⟨hsupplies, ((h.mayHave_ordinary_iff (h.ordinary_content howner hfinds).2).mp hmay).1⟩
  have hheld := hplaced.held hfound
  suffices htrace : t.Puts ((Adoption.content content).Changes s table op role) t' ∧
      (Adoption.content content).Trace s t' table op role from
    ⟨htrace.1, h.step hplaced hfound (fun _ heq => by cases heq) hmay htrace.1 htrace.2⟩
  have hobject := h.puts.isObject hheld.isObject
  by_cases hm : InMedia s taken content.media
  · -- The media type refers to the schema already.
    obtain ⟨role', found, htaken, hregistered, heq⟩ := hm
    have hrole : role' = role := by
      by_contra hne
      exact hheld.media_ne (hplaced.held (h.found role' _ htaken)) h.opened hne heq
    subst hrole
    obtain rfl := (h.found role' _ htaken).1.unique hsupplies
    have htrace := h.trace role' _ htaken
    obtain ⟨j, hj, hreference, hcell⟩ := htrace.media_eq _ rfl hregistered
    refine trace_adoptContent hplaced.object h.puts.size_le hreference (fun _ => hregistered) (fun _ => ⟨?_, j, ?_, fun hx =>
      ⟨htrace.registered_eq hx, hj⟩⟩) hobject hrun
    · exact fun heq => absurd (hheld.schema.lt j heq.symm) (by omega)
    · rw [Adoption.handle_of_isRegistered hregistered]
      exact Store.shape_node hcell
  · -- What stands in the media type has not changed.
    have hfield' := (h.field_eq hheld.media (fun _ => hm) fun heq => absurd heq (by decide)).trans hheld.field
    have hreference_eq := h.isReference_eq hheld.declared
    refine trace_adoptContent hplaced.object h.puts.size_le hfield' (fun hinline => ?_) (fun hreference => ?_) hobject hrun
    · simp [Adoption.isRegistered, ← hreference_eq, hinline]
    · rw [hreference_eq] at hreference
      have hmediaNot : ¬ InMedia s taken (Adoption.declared s content) := h.not_media_of_field hheld.field (by decide)
      have htaggedNot : ¬ IsTagged s taken (Adoption.declared s content) := by
        rintro (hadded | ⟨role', found, htaken, heq⟩)
        · exact hadded.not_ordinary hheld.declared
        · have hnot := (hplaced.held (h.found role' _ htaken)).not_reference
          exact absurd (hreference.symm.trans (heq ▸ hnot)) (by decide)
      refine ⟨fun heq => absurd (hreference.symm.trans (heq ▸ hheld.not_reference)) (by decide), ?_⟩
      obtain ⟨fields, hfields⟩ : ∃ fields, s.entries? (Adoption.declared s content) = some fields := by
        unfold Store.isReference at hreference
        split at hreference
        · next fields hfields => exact ⟨fields, hfields⟩
        · cases hreference
      obtain ⟨d, hshape⟩ := Store.entries?_eq_some.mp hfields
      refine ⟨d, ?_, fun hx => absurd (isReference_declared hx) (by simp [hreference])⟩
      rw [h.shape_eq hheld.declared hmediaNot htaggedNot, hshape, Adoption.handle, hreference, if_pos rfl, hfields, Option.getD_some]

/-- Nodes may be added. -/
theorem grow (hgrows : t.Grows t') : Taken s t' root c T entries table op taken := h.encode hplaced (.grow hgrows)

/-- The schema of the query is adopted with its encoding. -/
theorem classifyQuery {body : Value} (hmethod : op.method = .get) (hv : Added s v)
    (hnew : t.isReference v = false) (hrun : Runs (classifyQuery table op (some v) body) t u t') :
    t.Puts ((Adoption.parameters v).Changes s table op .request) t' ∧
      Taken s t' root c T entries table op (Function.update taken .request (some (.parameters v))) ∧
      t'.field? op.content encodingKey = some (.text op.method.encoding.text) := by
  obtain ⟨w, t₁, heq, -, hadopt, hput⟩ := runs_classifyQuery.mp hrun
  obtain rfl := Option.some.inj heq
  obtain ⟨hputs, htaken⟩ := h.adoptParameters hplaced ⟨hv, .inr ⟨rfl, hmethod⟩⟩ hnew hadopt
  have hencoding : RequestEncoding.query.text = op.method.encoding.text := by rw [hmethod]; rfl
  rw [hencoding] at hput
  obtain ⟨hencode, hfield⟩ := puts_putField hput fun _ hi => Adoption.Changes.encoding hi
  exact ⟨hputs.trans hencode, htaken.encode hplaced (puts_putField hput fun _ hi => ⟨hi, rfl, rfl⟩).1, hfield⟩

/-- The content of the successful response is adopted. -/
theorem classifyResponses (hrun : Runs (Edit.classifyResponses (.node root) table op) t u t') :
    ∃ found, t.Puts ((Adoption.content found).Changes s table op .response) t' ∧
      Taken s t' root c T entries table op (Function.update taken .response (some (.content found))) := by
  obtain ⟨responses, errors, t₁, shape, owner, content, hresponses, -, herrors, -, -, howner, hcontent, hadopt⟩ :=
    runs_classifyResponses_iff.mp hrun
  obtain ⟨-, rfl⟩ := (h.runs_responsesOf_iff hplaced.object).mp hresponses
  have hgrows := grows_errorResponses herrors
  have h₁ := h.grow hplaced hgrows
  have hsuccess := ordinary_success h.opened h.content
  have howner := (h₁.dereference_iff hsuccess).mp howner
  have hfinds := ((h₁.adopted hplaced).findsContent_iff (h.ordinary_dereference hsuccess howner) (by decide)).mp
    (runs_contentOf.mp hcontent).2
  have hsupplies : s.Supplies (.node root) op .response content := ⟨owner, howner, hfinds⟩
  obtain ⟨hputs, htaken⟩ := h₁.adoptContent hplaced hsupplies hadopt
  exact ⟨content, (Store.Puts.grow hgrows).trans hputs, htaken⟩

end Taken

end Edit

end DeviceApi
