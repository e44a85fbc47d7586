import DeviceApi.Api.Classification
import DeviceApi.Proofs.Document.Runs
import DeviceApi.Proofs.Schema.Table

/-!
# Runs of the parts of classification

What each part of classification reads from the store and writes to it.
-/

namespace DeviceApi

namespace Edit

variable {s s' : Store} {v w root : Value} {u : Unit} {role : Role} {table : SchemaTable}
  {op : Operation} {content : Content} {owner : Value} {type name : String}

/-- Tagging puts the role into an object that has no other one. -/
theorem runs_setRole (h : Runs (setRole v role) s u s') :
    ∃ id entries, s.shape v = .object id entries ∧
      (s.isTruthy ((entries.get? roleKey).getD .null) = true →
        entries.get? roleKey = some (.text role.text)) ∧
      s' = s.set id (.object (entries.put roleKey (.text role.text))) := by
  rw [setRole, runs_bind] at h
  obtain ⟨previous, t, hprevious, h⟩ := h
  obtain ⟨⟨id, entries, hshape, rfl⟩, rfl⟩ := runs_fieldOf.mp hprevious
  refine ⟨id, entries, hshape, ?_⟩
  rw [runs_get_bind] at h
  split at h
  · simp only [runs_bind, not_runs_refuse, false_and, exists_false, and_false] at h
  · next hfree =>
    simp only [Bool.and_eq_true, Bool.not_eq_true', not_and, Bool.not_eq_false] at hfree
    obtain ⟨id', entries', hshape', rfl⟩ := runs_putField.mp h
    rw [hshape, Shape.object.injEq] at hshape'
    obtain ⟨rfl, rfl⟩ := hshape'
    refine ⟨fun htruthy => ?_, rfl⟩
    exact Store.getD_eq_text.mp (Store.isText_iff.mp (hfree htruthy))

/-- The reference to a schema of the table. -/
def referenceCell (name : String) : Cell := .object [("$ref", .text (pointerTo name))]

/-- Registering puts a schema into the table and adds a reference to it. -/
theorem runs_register (h : Runs (table.register (.text name) v) s w s') :
    ∃ id entries, s.shape table.schemas = .object id entries ∧
      w = ((s.set id (.object (entries.put name v))).add (referenceCell name)).1 ∧
      s' = ((s.set id (.object (entries.put name v))).add (referenceCell name)).2 := by
  simp only [SchemaTable.register, runs_bind, runs_putField, runs_textOf, runs_newObject] at h
  obtain ⟨_, _, ⟨id, entries, hshape, rfl⟩, _, _, ⟨⟨-, rfl⟩, rfl⟩, rfl, rfl⟩ := h
  exact ⟨id, entries, hshape, rfl, rfl⟩

/-- The copy of an object has the same entries. -/
theorem runs_copyObject : Runs (copyObject v) s w s' ↔
    ∃ id entries, s.shape v = .object id entries ∧ w = (s.add (.object entries)).1 ∧
      s' = (s.add (.object entries)).2 := by
  simp only [copyObject, runs_bind, runs_entriesOf, runs_newObject]
  constructor
  · rintro ⟨entries, _, ⟨⟨id, hshape⟩, rfl⟩, rfl, rfl⟩
    exact ⟨id, entries, hshape, rfl, rfl⟩
  · rintro ⟨id, entries, hshape, rfl, rfl⟩
    exact ⟨entries, s, ⟨⟨id, hshape⟩, rfl⟩, rfl, rfl⟩

/-- Where the schema of a body or a response is found. There is no other media type. -/
structure FindsContent (s : Store) (root owner : Value) (type : String) (content : Content) : Prop where
  media : ∃ id entries id', s.shape owner = .object id entries ∧
    s.shape ((entries.get? "content").getD .null) = .object id' [(.text type, content.media)]
  schema : ∃ id fields, s.shape content.media = .object id fields ∧
    s.dereference root ((fields.get? "schema").getD .null) = .ok content.schema
  object : ∃ id keywords, s.shape content.schema = .object id keywords ∧
    keywords.get? "type" = some (.text "object")

/-- An object in which a visit meets one key has no other one. -/
theorem eq_singleton_of_elements {id : Nat} {types : Entries Value} (hshape : s.shape v = .object id types)
    (helements : s.elements v = .ok [.text type]) :
    types = [(.text type, (types.get? (.text type)).getD .null)] := by
  simp only [Store.elements, hshape, Except.ok.injEq] at helements
  obtain ⟨entry, rfl, hkey⟩ : ∃ entry, types = [entry] ∧ entry.1 = .text type := by
    simpa [Entries.keys, List.map_eq_singleton_iff] using helements
  obtain ⟨key, w⟩ := entry
  obtain rfl : key = .text type := hkey
  simp [Entries.get?_cons_text]

theorem runs_contentOf : Runs (contentOf root owner type) s content s' ↔
    s = s' ∧ FindsContent s root owner type content := by
  constructor
  · intro h
    rw [contentOf, runs_bind] at h
    obtain ⟨found, t, hfound, h⟩ := h
    obtain ⟨⟨id, entries, hshape, rfl⟩, rfl⟩ := runs_fieldOf.mp hfound
    obtain ⟨present, t, hpresent, h⟩ := runs_bind.mp h
    obtain ⟨-, rfl⟩ := runs_isTruthy.mp hpresent
    split at h
    · obtain ⟨types, t, hvisit, h⟩ := runs_bind.mp h
      obtain ⟨helements, rfl⟩ := runs_elementsOf.mp hvisit
      dsimp only at h
      split at h
      · rw [runs_get_bind] at h
        split at h
        · simp only [runs_bind, not_runs_refuse, false_and, exists_false, and_false] at h
        · next htext =>
          rw [runs_get_bind] at h
          split at h
          · next types' htypes' =>
            rw [runs_get_bind] at h
            split at h
            · next fields hfields =>
              obtain ⟨schema, t, hrun, h⟩ := runs_bind.mp h
              obtain ⟨hschema, rfl⟩ := runs_dereference.mp hrun
              rw [runs_get_bind] at h
              split at h
              · next keywords hkeywords =>
                rw [runs_get_bind] at h
                split at h
                · next htype =>
                  obtain ⟨rfl, rfl⟩ := runs_pure.mp h
                  obtain ⟨id', hid'⟩ := Store.entries?_eq_some.mp htypes'
                  obtain ⟨_, hfields⟩ := Store.entries?_eq_some.mp hfields
                  obtain ⟨_, hkeywords⟩ := Store.entries?_eq_some.mp hkeywords
                  refine ⟨rfl, ⟨id, entries, id', hshape, ?_⟩, ⟨_, _, hfields, hschema⟩,
                    ⟨_, _, hkeywords, Store.getD_eq_text.mp (Store.isText_iff.mp htype)⟩⟩
                  obtain rfl := Store.isText_iff.mp (by simpa using htext)
                  exact hid'.trans (congrArg (Shape.object id') (eq_singleton_of_elements hid' helements))
                · simp at h
              · simp at h
            · simp at h
          · simp at h
      · simp only [runs_bind, not_runs_refuse, false_and, exists_false, and_false] at h
    · obtain ⟨types, t, htypes, h⟩ := runs_bind.mp h
      obtain ⟨rfl, rfl⟩ := runs_pure.mp htypes
      dsimp only at h
      simp only [runs_bind, not_runs_refuse, false_and, exists_false, and_false] at h
  · rintro ⟨rfl, ⟨id, entries, id', howner, htypes⟩, ⟨_, fields, hfields, hschema⟩, ⟨_, keywords, hkeywords, htype⟩⟩
    have hget : Entries.get? type [(Scalar.text type, content.media)] = some content.media := by
      rw [Entries.get?_cons_text, if_pos rfl]
    have htext : s.isText (.text type) type = true := Store.isText_iff.mpr rfl
    have helements : s.elements ((entries.get? "content").getD .null) = .ok [.text type] := by
      simp [Store.elements, htypes, Entries.keys]
    have hpresent : s.isTruthy ((entries.get? "content").getD .null) = true := by
      simp [Store.isTruthy, htypes]
    rw [contentOf]
    refine runs_bind.mpr ⟨_, s, runs_fieldOf.mpr ⟨⟨id, entries, howner, rfl⟩, rfl⟩, ?_⟩
    refine runs_bind.mpr ⟨true, s, runs_isTruthy.mpr ⟨hpresent, rfl⟩, ?_⟩
    rw [if_pos rfl]
    refine runs_bind.mpr ⟨_, s, runs_elementsOf.mpr ⟨helements, rfl⟩, ?_⟩
    dsimp only
    rw [runs_get_bind, if_neg (by simp [htext]), runs_get_bind, Store.entries?_eq_some.mpr ⟨id', htypes⟩]
    dsimp only
    rw [hget, Option.getD_some, runs_get_bind, Store.entries?_eq_some.mpr ⟨_, hfields⟩]
    refine runs_bind.mpr ⟨content.schema, s, runs_dereference.mpr ⟨hschema, rfl⟩, ?_⟩
    rw [runs_get_bind, Store.entries?_eq_some.mpr ⟨_, hkeywords⟩]
    dsimp only
    rw [runs_get_bind, if_pos (Store.isText_iff.mpr (Store.getD_eq_text.mpr htype))]
    exact runs_pure.mpr ⟨rfl, rfl⟩

/-- The stores through which a schema of the table goes when a content refers to it. -/
theorem runs_adoptContent (h : Runs (adoptContent table op role content) s u s') :
    ∃ s₁ s₂ id fields, s.shape content.media = .object id fields ∧
      ((s.isReference ((fields.get? "schema").getD .null) = true ∧ s₁ = s) ∨
        ∃ reference s₀, s.isReference ((fields.get? "schema").getD .null) = false ∧
          Runs (table.register (.text (op.schemaName role)) content.schema) s reference s₀ ∧
          Runs (putField content.media "schema" reference) s₀ () s₁) ∧
      Runs (setRole content.schema role) s₁ () s₂ ∧
      ∃ id' fields' copy s₃, s₂.shape content.media = .object id' fields' ∧
        Runs (copyObject ((fields'.get? "schema").getD .null)) s₂ copy s₃ ∧
        Runs (putField op.content role.operationKey copy) s₃ () s' := by
  simp only [adoptContent, runs_bind, runs_fieldOf, runs_isReference] at h
  obtain ⟨_, _, ⟨⟨id, fields, hshape, rfl⟩, rfl⟩, _, _, ⟨rfl, rfl⟩, h⟩ := h
  split at h
  · next hreference =>
    simp only [runs_bind, runs_fieldOf] at h
    obtain ⟨reference, s₀, hregister, _, s₁, hput, _, s₂, hrole, _, _,
      ⟨⟨id', fields', hshape', rfl⟩, rfl⟩, copy, s₃, hcopy, hhandle⟩ := h
    exact ⟨s₁, s₂, id, fields, hshape, .inr ⟨reference, s₀, by simpa using hreference, hregister,
      hput⟩, hrole, id', fields', copy, s₃, hshape', hcopy, hhandle⟩
  · next hreference =>
    simp only [runs_bind, runs_fieldOf] at h
    obtain ⟨_, s₂, hrole, _, _, ⟨⟨id', fields', hshape', rfl⟩, rfl⟩, copy, s₃, hcopy, hhandle⟩ := h
    exact ⟨s, s₂, id, fields, hshape, .inl ⟨by simpa using hreference, rfl⟩, hrole, id', fields',
      copy, s₃, hshape', hcopy, hhandle⟩

theorem runs_adoptParameters (h : Runs (adoptParameters table op role v) s u s') :
    ∃ s₁ reference s₂, Runs (setRole v role) s () s₁ ∧
      Runs (table.register (.text (op.schemaName role)) v) s₁ reference s₂ ∧
      Runs (putField op.content role.operationKey reference) s₂ () s' := by
  rw [adoptParameters] at h
  obtain ⟨_, s₁, hrole, h⟩ := runs_bind.mp h
  obtain ⟨reference, s₂, hregister, hhandle⟩ := runs_bind.mp h
  exact ⟨s₁, reference, s₂, hrole, hregister, hhandle⟩

/-! ## Parameters -/

/-- The description of a parameter as the first entry of its property, if there is one. -/
def describedBy (s : Store) (parameter : Entries Value) : Entries Value :=
  if s.isTruthy ((parameter.get? "description").getD .null) then
    [(.text "description", (parameter.get? "description").getD .null)]
  else []

/-- The property of a parameter begins as an object of its description, over which the entries of
its schema are put. -/
theorem runs_propertyOf {parameter : Entries Value} (h : Runs (propertyOf parameter) s v s') :
    ∃ t, Runs (newObject (describedBy s parameter)) s v t ∧
      ((t.isTruthy ((parameter.get? "schema").getD .null) = true ∧
          Runs (overlay v ((parameter.get? "schema").getD .null)) t () s') ∨
        (t.isTruthy ((parameter.get? "schema").getD .null) = false ∧ s' = t)) := by
  rw [propertyOf, runs_bind] at h
  obtain ⟨described, t₁, hdescribed, h₁⟩ := h
  obtain ⟨rfl, rfl⟩ := runs_isTruthy.mp hdescribed
  obtain ⟨property, t, hnew, h₂⟩ := runs_bind.mp h₁
  dsimp only at h₂
  obtain ⟨present, t₂, hpresent, h₃⟩ := runs_bind.mp h₂
  obtain ⟨rfl, rfl⟩ := runs_isTruthy.mp hpresent
  split at h₃
  · next htruthy =>
    obtain ⟨_, t₃, hoverlay, h₄⟩ := runs_bind.mp h₃
    obtain ⟨rfl, rfl⟩ := runs_pure.mp h₄
    exact ⟨_, hnew, .inl ⟨htruthy, hoverlay⟩⟩
  · next htruthy =>
    obtain ⟨rfl, rfl⟩ := runs_pure.mp h₃
    exact ⟨_, hnew, .inr ⟨by simpa using htruthy, rfl⟩⟩

/-- Putting entries over those of an object keeps what is kept when the entries of another object or the pairs
of a list are put into it. -/
theorem Runs.overlay_induct {n : Nat} (h : Runs (overlay (.node n) w) s u s') (I : Store → Prop) (hinit : I s)
    (hobject : ∀ entries id others, s.cells[n]? = some (.object entries) → s.shape w = .object id others →
      I (s.set n (.object (entries.putAll others))))
    (hpair : ∀ items, s.elements w = .ok items → ∀ item ∈ items, ∀ t entries key value, I t →
      t.cells[n]? = some (.object entries) → t.pair item = .ok (key, value) →
      I (t.set n (.object (entries.put key value)))) : I s' := by
  rw [overlay, runs_bind] at h
  obtain ⟨⟨id, entries⟩, t₁, htarget, h₁⟩ := h
  obtain ⟨hentries, rfl⟩ := runs_objectOf.mp htarget
  obtain ⟨heq, hcell⟩ := Store.shape_eq_object.mp hentries
  obtain rfl : n = id := by simpa using heq
  obtain ⟨shape, t₂, hlook, h₂⟩ := runs_bind.mp h₁
  obtain ⟨rfl, rfl⟩ := runs_look.mp hlook
  split at h₂
  · next id' others hothers =>
    obtain rfl := runs_modify.mp h₂
    exact hobject entries id' others hcell hothers
  · obtain ⟨items, t₃, hvisit, h₃⟩ := runs_bind.mp h₂
    obtain ⟨hitems, rfl⟩ := runs_elementsOf.mp hvisit
    obtain ⟨_, t₄, hloop, hdone⟩ := runs_bind.mp h₃
    obtain ⟨-, rfl⟩ := runs_pure.mp hdone
    refine Runs.forIn_induct I hloop hinit ?_
    intro item hitem t₁ r t₂ hI hbody
    simp only [runs_bind, runs_get, runs_ofExcept, runs_putField, runs_pure] at hbody
    obtain ⟨_, _, ⟨rfl, rfl⟩, ⟨key, value⟩, _, ⟨hvalue, rfl⟩, _, _, ⟨i, entries', hshape, rfl⟩, rfl, rfl⟩ := hbody
    obtain ⟨heq, hcell'⟩ := Store.shape_eq_object.mp hshape
    obtain rfl : n = i := by simpa using heq
    exact ⟨rfl, hpair items hitems item hitem _ _ key value hI hcell' hvalue⟩

/-- What a parameter adds to the groups. -/
theorem runs_addParameter {groups groups' : ParameterGroups}
    (h : Runs (addParameter root groups v) s groups' s') :
    ∃ w id parameter location property name key, s.dereference root v = .ok w ∧
      s.shape w = .object id parameter ∧
      s.key ((parameter.get? "in").getD .null) = .ok location ∧
      Runs (propertyOf parameter) s property s' ∧
      parameter.get? "name" = some name ∧ s'.key name = .ok key ∧
      groups' = groups.put location
        { properties := ((groups.get? location).getD {}).properties.put key property
          required := ((groups.get? location).getD {}).required ++
            if s'.isTruthy ((parameter.get? "required").getD .null) then [name] else [] } := by
  rw [addParameter, runs_bind] at h
  obtain ⟨w, t₁, hrefer, h₁⟩ := h
  obtain ⟨hw, rfl⟩ := runs_dereference.mp hrefer
  obtain ⟨parameter, t₂, hparameter, h₂⟩ := runs_bind.mp h₁
  obtain ⟨⟨id, hshape⟩, rfl⟩ := runs_entriesOf.mp hparameter
  obtain ⟨location, t₃, hlocation, h₃⟩ := runs_bind.mp h₂
  obtain ⟨hkey, rfl⟩ := runs_keyOf.mp hlocation
  dsimp only at h₃
  obtain ⟨property, t₄, hproperty, h₄⟩ := runs_bind.mp h₃
  split at h₄
  · next name hname =>
    obtain ⟨key, t₅, hkeyOf, h₅⟩ := runs_bind.mp h₄
    obtain ⟨hnameKey, rfl⟩ := runs_keyOf.mp hkeyOf
    obtain ⟨isRequired, t₆, hrequired, h₆⟩ := runs_bind.mp h₅
    obtain ⟨rfl, rfl⟩ := runs_isTruthy.mp hrequired
    obtain ⟨rfl, rfl⟩ := runs_pure.mp h₆
    refine ⟨w, id, parameter, location, property, name, key, hw, hshape, hkey, hproperty, hname,
      hnameKey, ?_⟩
    split <;> simp
  · simp at h₄

/-- The schema of a group is an object over one of its properties. -/
theorem runs_groupSchema {group : ParameterGroup} (h : Runs (groupSchema group) s v s') :
    ∃ properties s₁, Runs (newObject group.properties) s properties s₁ ∧
      ((group.required = [] ∧
          Runs (newObject [("type", .text "object"), ("properties", properties)]) s₁ v s') ∨
        ∃ required s₂, group.required ≠ [] ∧ Runs (newList group.required) s₁ required s₂ ∧
          Runs (newObject [("type", .text "object"), ("properties", properties),
            ("required", required)]) s₂ v s') := by
  rw [groupSchema, runs_bind] at h
  obtain ⟨properties, s₁, hproperties, h₁⟩ := h
  refine ⟨properties, s₁, hproperties, ?_⟩
  dsimp only at h₁
  split at h₁
  · next hempty => exact .inl ⟨by simpa using hempty, h₁⟩
  · next hempty =>
    obtain ⟨required, s₂, hrequired, h₂⟩ := runs_bind.mp h₁
    exact .inr ⟨required, s₂, by simpa using hempty, hrequired, h₂⟩

/-- The groups of the path and of the query, if they are the only ones, become schemas. -/
theorem runs_groupParameters {path query : Option Value}
    (h : Runs (groupParameters root v) s (path, query) s') :
    ∃ items groups s₁ s₂, s.elements v = .ok items ∧
      Runs (items.foldlM (addParameter root) []) s groups s₁ ∧
      (Entries.remove "query" (Entries.remove "path" groups)) = [] ∧
      Runs (groupSchema? (groups.get? "path")) s₁ path s₂ ∧
      Runs (groupSchema? (groups.get? "query")) s₂ query s' := by
  rw [groupParameters, runs_bind] at h
  obtain ⟨items, t₁, hvisit, h₁⟩ := h
  obtain ⟨hitems, rfl⟩ := runs_elementsOf.mp hvisit
  obtain ⟨groups, s₁, hgroups, h₂⟩ := runs_bind.mp h₁
  dsimp only at h₂
  split at h₂
  · next hothers =>
    obtain ⟨_, s₂, hpath, h₃⟩ := runs_bind.mp h₂
    obtain ⟨_, s₃, hquery, h₄⟩ := runs_bind.mp h₃
    obtain ⟨heq, rfl⟩ := runs_pure.mp h₄
    obtain ⟨rfl, rfl⟩ : _ = path ∧ _ = query := by simpa using heq
    exact ⟨items, groups, s₁, s₂, hitems, hgroups, List.isEmpty_iff.mp hothers, hpath, hquery⟩
  · obtain ⟨_, _, -, h₃⟩ := runs_bind.mp h₂
    split at h₃ <;> simp at h₃

/-! ## Responses -/

/-- What going through a list answers for each item, if every step only adds nodes. -/
theorem forall₂_of_runs_mapM {α β : Type} {f : α → Edit β} {xs : List α} {bs : List β}
    (h : Runs (xs.mapM f) s bs s') (hgrows : ∀ x b t t', Runs (f x) t b t' → t.Grows t') :
    List.Forall₂ (fun x b => ∃ t t', s.Grows t ∧ Runs (f x) t b t' ∧ t'.Grows s') xs bs := by
  induction xs generalizing s bs with
  | nil =>
    obtain ⟨rfl, rfl⟩ := runs_mapM_nil.mp h
    exact .nil
  | cons x xs ih =>
    obtain ⟨b, t, hx, rest, hrest, rfl⟩ := runs_mapM_cons.mp h
    have hlast : t.Grows s' := hrest.mapM_induct Store.Grows .refl (fun _ _ _ => .trans)
      fun x _ b t t' hx => hgrows x b t t' hx
    refine .cons ⟨s, t, .refl s, hx, hlast⟩ ((ih hrest).imp fun y c hy => ?_)
    obtain ⟨t₁, t₂, hfirst, hrun, hsecond⟩ := hy
    exact ⟨t₁, t₂, (hgrows x b s t hx).trans hfirst, hrun, hsecond⟩

/-- Copies of responses are added to the store. -/
theorem grows_expandResponse (h : Runs (expandResponse root v) s w s') : s.Grows s' := by
  rw [expandResponse, runs_bind] at h
  obtain ⟨entries, t, hentries, h⟩ := h
  obtain ⟨-, rfl⟩ := runs_entriesOf.mp hentries
  rw [runs_get_bind] at h
  split at h
  · obtain ⟨-, rfl⟩ := runs_newObject.mp h
    exact .add s _
  · obtain ⟨expanded, t, hexpanded, h⟩ := runs_bind.mp h
    obtain ⟨_, t', hnew, hnew'⟩ := runs_bind.mp h
    obtain ⟨-, rfl⟩ := runs_newObject.mp hnew
    obtain ⟨-, rfl⟩ := runs_newObject.mp hnew'
    refine Store.Grows.trans ?_ ((Store.Grows.add t _).trans (.add _ _))
    refine Runs.mapM_induct Store.Grows hexpanded .refl (fun _ _ _ => .trans) ?_
    intro x _ b t t' hx
    rw [runs_get_bind] at hx
    split at hx
    · obtain ⟨-, rfl⟩ := runs_pure.mp hx
      exact .refl t
    · simp only [runs_bind, runs_dereference, runs_newObject, runs_pure] at hx
      obtain ⟨_, _, ⟨-, rfl⟩, _, _, ⟨-, rfl⟩, -, rfl⟩ := hx
      exact .add t _

theorem grows_errorResponse {code : Scalar} {b : Scalar × Value}
    (h : Runs (errorResponse root op code v) s b s') : s.Grows s' := by
  simp only [errorResponse, runs_bind, runs_dereference, runs_get] at h
  obtain ⟨response, _, ⟨-, rfl⟩, _, _, ⟨rfl, rfl⟩, h⟩ := h
  split at h
  · simp only [runs_bind, not_runs_refuse, false_and, exists_false] at h
  · simp only [runs_bind, runs_pure] at h
    obtain ⟨_, _, hexpand, -, rfl⟩ := h
    exact grows_expandResponse hexpand

/-- The responses are those declared in the operation, if there are any, by the texts of their
codes. -/
theorem runs_responsesOf {responses : Entries Value} (h : Runs (responsesOf op) s responses s') :
    s' = s ∧ ∃ id entries declared, s.shape op.content = .object id entries ∧
      (if s.isTruthy ((entries.get? "responses").getD .null) then
        ∃ id', s.shape ((entries.get? "responses").getD .null) = .object id' declared
      else [] = declared) ∧
      responses = Entries.ofPairs (declared.map fun e => (.text e.1.display, e.2)) := by
  simp only [responsesOf, runs_bind, runs_fieldOf, runs_optionalEntries, runs_pure] at h
  obtain ⟨_, _, ⟨⟨id, entries, hshape, rfl⟩, rfl⟩, declared, _, ⟨hdeclared, rfl⟩, named, t, hnamed, rfl,
    rfl⟩ := h
  suffices hnames : t = s ∧ named = declared.map fun e => (.text e.1.display, e.2) by
    obtain ⟨rfl, rfl⟩ := hnames
    exact ⟨rfl, id, entries, declared, hshape, hdeclared, rfl⟩
  clear hdeclared
  induction declared generalizing named with
  | nil =>
    obtain ⟨rfl, rfl⟩ := runs_mapM_nil.mp hnamed
    exact ⟨rfl, rfl⟩
  | cons e rest ih =>
    obtain ⟨b, t', hb, named', hrest, rfl⟩ := runs_mapM_cons.mp hnamed
    simp only [runs_bind, runs_textOf, runs_pure] at hb
    obtain ⟨_, _, ⟨⟨-, rfl⟩, rfl⟩, rfl, rfl⟩ := hb
    obtain ⟨rfl, rfl⟩ := ih _ hrest
    exact ⟨rfl, rfl⟩

/-- The other responses are looked at in copies; then the schema of the successful one is
adopted. -/
theorem runs_classifyResponses (h : Runs (classifyResponses root table op) s u s') :
    ∃ responses t owner content, Runs (responsesOf op) s responses s ∧ s.Grows t ∧
      t.dereference root ((responses.get? "200").getD .null) = .ok owner ∧
      FindsContent t root owner jsonContentType content ∧
      Runs (adoptContent table op .response content) t () s' := by
  rw [classifyResponses, runs_bind] at h
  obtain ⟨responses, t, hresponses, h⟩ := h
  obtain ⟨rfl, -⟩ := runs_responsesOf hresponses
  rw [runs_get_bind] at h
  split at h
  · simp only [runs_bind, not_runs_refuse, false_and, exists_false] at h
  · obtain ⟨errors, t₁, herrors, h⟩ := runs_bind.mp h
    simp only [runs_bind, runs_newObject, runs_treeOf, runs_ofExcept] at h
    obtain ⟨_, t₂, ⟨-, rfl⟩, _, _, ⟨-, rfl⟩, shape, _, ⟨-, rfl⟩, h⟩ := h
    split at h
    · simp only [runs_bind, not_runs_refuse, false_and, exists_false] at h
    · simp only [runs_bind, runs_explaining, runs_dereference] at h
      obtain ⟨content, _, ⟨owner, _, ⟨howner, rfl⟩, hcontent⟩, hadopt⟩ := h
      obtain ⟨rfl, hfinds⟩ := runs_contentOf.mp hcontent
      refine ⟨responses, _, owner, content, hresponses, ?_, howner, hfinds, hadopt⟩
      refine Store.Grows.trans ?_ (.add t₁ _)
      refine Runs.mapM_induct Store.Grows herrors .refl (fun _ _ _ => .trans) ?_
      intro x _ b t t' hx
      exact grows_errorResponse hx

/-! ## Requests -/

/-- A query is adopted as the request, and there is no body. -/
theorem runs_classifyQuery {query : Option Value} {body : Value} : Runs (classifyQuery table op query body) s u s' ↔
    ∃ v t, query = some v ∧ s.isTruthy body = false ∧ Runs (adoptParameters table op .request v) s () t ∧
      Runs (putField op.content encodingKey (.text RequestEncoding.query.text)) t () s' := by
  unfold classifyQuery
  cases query with
  | none => simp
  | some v =>
    simp only [runs_bind, runs_isTruthy]
    constructor
    · rintro ⟨present, _, ⟨rfl, rfl⟩, h⟩
      split at h
      · simp only [runs_bind, not_runs_refuse, false_and, exists_false] at h
      · next hpresent =>
        obtain ⟨_, t, hadopt, hput⟩ := runs_bind.mp h
        exact ⟨v, t, rfl, by simpa using hpresent, hadopt, hput⟩
    · rintro ⟨_, t, heq, hpresent, hadopt, hput⟩
      obtain rfl := Option.some.inj heq
      refine ⟨false, s, ⟨hpresent, rfl⟩, ?_⟩
      rw [if_neg (by simp)]
      exact runs_bind.mpr ⟨(), t, hadopt, hput⟩

/-- The content of a body is adopted as the request, and there is no query. -/
theorem runs_classifyForm {query : Option Value} {body : Value} :
    Runs (classifyForm root table op query body) s u s' ↔
      ∃ content t, query = none ∧ s.isTruthy body = true ∧ FindsContent s root body formContentType content ∧
        Runs (adoptContent table op .request content) s () t ∧
        Runs (putField op.content encodingKey (.text RequestEncoding.form.text)) t () s' := by
  unfold classifyForm
  cases query with
  | some v => simp only [Option.isSome_some, if_true, runs_bind, not_runs_refuse, false_and, exists_false, reduceCtorEq]
  | none =>
    simp only [Option.isSome_none, Bool.false_eq_true, if_false, runs_bind, runs_isTruthy, true_and]
    constructor
    · rintro ⟨present, _, ⟨rfl, rfl⟩, h⟩
      split at h
      · simp only [runs_bind, not_runs_refuse, false_and, exists_false] at h
      · next hpresent =>
        obtain ⟨content, t, hcontent, hrest⟩ := runs_bind.mp h
        obtain ⟨rfl, hfinds⟩ := runs_contentOf.mp (runs_explaining.mp hcontent)
        obtain ⟨_, t', hadopt, hput⟩ := runs_bind.mp hrest
        exact ⟨content, t', by simpa using hpresent, hfinds, hadopt, hput⟩
    · rintro ⟨content, t, hpresent, hfinds, hadopt, hput⟩
      refine ⟨true, s, ⟨hpresent, rfl⟩, ?_⟩
      rw [if_neg (by simp)]
      exact runs_bind.mpr ⟨content, s, runs_explaining.mpr (runs_contentOf.mpr ⟨rfl, hfinds⟩),
        runs_bind.mpr ⟨(), t, hadopt, hput⟩⟩

/-- An operation is classified in three steps: its path parameters, its request and its
response. -/
theorem runs_classify : Runs (classify root table op) s u s' ↔
    ∃ id entries path query s₁ s₂ id' entries' body s₃, s.shape op.content = .object id entries ∧
      s.isTruthy ((entries.get? "parameters").getD .null) = true ∧
      Runs (groupParameters root ((entries.get? "parameters").getD .null)) s (some path, query) s₁ ∧
      Runs (adoptParameters table op .path path) s₁ () s₂ ∧
      s₂.shape op.content = .object id' entries' ∧
      s₂.dereference root ((entries'.get? "requestBody").getD .null) = .ok body ∧
      Runs (if op.method = .get then classifyQuery table op query body
        else classifyForm root table op query body) s₂ () s₃ ∧
      Runs (classifyResponses root table op) s₃ () s' := by
  unfold classify
  constructor
  · intro h
    obtain ⟨declared, t, hdeclared, h₁⟩ := runs_bind.mp h
    obtain ⟨⟨id, entries, hshape, rfl⟩, rfl⟩ := runs_fieldOf.mp hdeclared
    obtain ⟨present, t, hpresent, h₂⟩ := runs_bind.mp h₁
    obtain ⟨rfl, rfl⟩ := runs_isTruthy.mp hpresent
    dsimp only at h₂
    by_cases htruthy : s.isTruthy ((entries.get? "parameters").getD .null) = true
    · rw [if_pos htruthy] at h₂
      obtain ⟨⟨path?, query⟩, s₁, hgroup, h₃⟩ := runs_bind.mp h₂
      cases path? with
      | none => simp at h₃
      | some path =>
        obtain ⟨_, s₂, hadopt, h₄⟩ := runs_bind.mp h₃
        obtain ⟨w, t, hfield, h₅⟩ := runs_bind.mp h₄
        obtain ⟨⟨id', entries', hshape', rfl⟩, rfl⟩ := runs_fieldOf.mp hfield
        obtain ⟨body, t, hrun, h₆⟩ := runs_bind.mp h₅
        obtain ⟨hbody, rfl⟩ := runs_dereference.mp hrun
        refine ⟨id, entries, path, query, s₁, s₂, id', entries', body, ?_⟩
        split at h₆
        · next hget =>
          obtain ⟨_, s₃, hrequest, hresponses⟩ := runs_bind.mp h₆
          exact ⟨s₃, hshape, htruthy, hgroup, hadopt, hshape', hbody, by rwa [if_pos hget], hresponses⟩
        · next hget =>
          obtain ⟨_, s₃, hrequest, hresponses⟩ := runs_bind.mp h₆
          exact ⟨s₃, hshape, htruthy, hgroup, hadopt, hshape', hbody, by rwa [if_neg hget], hresponses⟩
    · rw [if_neg htruthy] at h₂
      obtain ⟨groups, s₁, hgroup, h₃⟩ := runs_bind.mp h₂
      obtain ⟨rfl, rfl⟩ := runs_pure.mp hgroup
      simp at h₃
  · rintro ⟨id, entries, path, query, s₁, s₂, id', entries', body, s₃, hshape, htruthy, hgroup, hadopt, hshape', hbody,
      hrequest, hresponses⟩
    refine runs_bind.mpr ⟨_, s, runs_fieldOf.mpr ⟨⟨id, entries, hshape, rfl⟩, rfl⟩,
      runs_bind.mpr ⟨true, s, runs_isTruthy.mpr ⟨htruthy, rfl⟩, ?_⟩⟩
    rw [if_pos rfl]
    refine runs_bind.mpr ⟨_, s₁, hgroup, runs_bind.mpr ⟨(), s₂, hadopt,
      runs_bind.mpr ⟨_, s₂, runs_fieldOf.mpr ⟨⟨id', entries', hshape', rfl⟩, rfl⟩,
        runs_bind.mpr ⟨body, s₂, runs_dereference.mpr ⟨hbody, rfl⟩, ?_⟩⟩⟩⟩
    split
    · next hget => exact runs_bind.mpr ⟨(), s₃, by rwa [if_pos hget] at hrequest, hresponses⟩
    · next hget => exact runs_bind.mpr ⟨(), s₃, by rwa [if_neg hget] at hrequest, hresponses⟩

end Edit

end DeviceApi
