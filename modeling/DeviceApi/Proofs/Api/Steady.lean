import DeviceApi.Proofs.Api.Adoption
import DeviceApi.Proofs.Api.Ordinary

/-!
# What adoption leaves as it is

When the schemas of an operation are adopted, ordinary values change little: a media type may be given a reference in
place of its schema, and a schema its role. So references lead where they led before, and contents are found in the
same places.
-/

namespace DeviceApi

variable {s t : Store} {v w : Value} {i : Nat} {key : String}

/-- The media types whose schemas are adopted. -/
def contentTypes : List String := [formContentType, jsonContentType]

theorem not_simple_of_mem_contentTypes (h : key ∈ contentTypes) : ¬ Pointer.Simple key := by
  have hall : ∀ type ∈ contentTypes, ¬ Pointer.Simple type := by decide +kernel
  exact hall key h

namespace Store

theorem isNull_eq_of_lt (hv : ∀ i, v = .node i → i < s.cells.size) (hv' : ∀ i, v = .node i → i < t.cells.size) :
    t.isNull v = s.isNull v := by
  cases v with
  | scalar a => rfl
  | node i =>
    rw [isNull_node (Array.getElem?_eq_getElem (hv i rfl)), isNull_node (Array.getElem?_eq_getElem (hv' i rfl))]

/-- An object with a field counts as present. -/
theorem isTruthy_of_field? {key : Scalar} (h : s.field? v key = some w) : s.isTruthy v = true := by
  obtain ⟨id, fields, hshape, hget⟩ := field?_eq_some.mp h
  rw [isTruthy, hshape]
  cases fields with
  | nil => cases hget
  | cons => rfl

/-- A step leads where it led before if nothing is put under its name. -/
theorem Puts.step_eq {allowed : Nat → String → Value → Prop} (h : s.Puts allowed t)
    (hv : ∀ i, v = .node i → i < s.cells.size) (hnot : ∀ i w, v = .node i → ¬ allowed i key w) :
    t.step v key = s.step v key := by
  by_cases hobject : s.IsObject v
  · have hfield := h.field?_eq hv hnot
    obtain ⟨id, entries, hshape⟩ := hobject
    obtain ⟨id', entries', hshape'⟩ := h.isObject ⟨id, entries, hshape⟩
    simp only [field?, entries?, hshape, hshape'] at hfield
    simp only [step, hshape, hshape', hfield]
  · refine step_eq_of_shape_eq ?_
    cases v with
    | scalar a => rfl
    | node i =>
      have hi := hv i rfl
      have hcell : s.cells[i]? = some s.cells[i] := Array.getElem?_eq_getElem hi
      have hsame := h.cell_eq hcell fun entries heq => hobject ⟨i, entries, shape_node (heq ▸ hcell)⟩
      simp only [shape, hsame, hcell]

end Store

namespace Edit

/-- A content is found in fields. -/
theorem findsContent_iff_fields {root owner : Value} {type : String} {content : Content} :
    FindsContent s root owner type content ↔ ∃ types id declared, s.field? owner "content" = some types ∧
      s.shape types = .object id [(.text type, content.media)] ∧ s.field? content.media "schema" = some declared ∧
      s.dereference root declared = .ok content.schema ∧ s.field? content.schema "type" = some (.text "object") := by
  constructor
  · rintro ⟨⟨idOwner, entries, id, howner, htypes⟩, ⟨idMedia, fields, hmedia, hschema⟩, ⟨idSchema, keywords, hkeywords, htype⟩⟩
    have hget : ∀ {w : Option Value}, (∃ id entries, s.shape (w.getD .null) = .object id entries) →
        w = some (w.getD .null) := by
      rintro (_ | w) ⟨id, entries, hshape⟩
      · cases hshape
      · rfl
    refine ⟨_, id, (fields.get? "schema").getD .null, Store.field?_eq_some.mpr ⟨idOwner, entries, howner, hget ⟨_, _, htypes⟩⟩,
      htypes, Store.field?_eq_some.mpr ⟨idMedia, fields, hmedia, ?_⟩, hschema,
      Store.field?_eq_some.mpr ⟨idSchema, keywords, hkeywords, htype⟩⟩
    cases hdeclared : fields.get? "schema" with
    | some w => rfl
    | none =>
      rw [hdeclared, Option.getD_none, Store.dereference_of_not_isReference rfl, Except.ok.injEq] at hschema
      rw [← hschema] at hkeywords
      cases hkeywords
  · rintro ⟨types, id, declared, hcontent, htypes, hdeclared, hschema, htype⟩
    obtain ⟨idOwner, entries, howner, hget⟩ := Store.field?_eq_some.mp hcontent
    obtain ⟨idMedia, fields, hmedia, hget'⟩ := Store.field?_eq_some.mp hdeclared
    obtain ⟨idSchema, keywords, hkeywords, htype⟩ := Store.field?_eq_some.mp htype
    exact ⟨⟨idOwner, entries, id, howner, by rwa [hget, Option.getD_some]⟩,
      ⟨idMedia, fields, hmedia, by rwa [hget', Option.getD_some]⟩, ⟨idSchema, keywords, hkeywords, htype⟩⟩

variable {root c T : Nat} {entries : Entries Value} {table : SchemaTable} {op : Operation} {media tagged : Value → Prop}

/-- Between the stores nothing but schemas of an operation has been adopted: the schemas of some media types may have been
replaced, and some schemas may have been tagged. Those that are ordinary stand in media types or in groups of the
components. -/
structure Steady (s t : Store) (root c T : Nat) (entries : Entries Value) (table : SchemaTable) (op : Operation)
    (media tagged : Value → Prop) : Prop where
  opened : Opened s root c T entries
  node : table.schemas = .node T
  content : IsContent root (deepGates s root (entries.get? "paths") c T) True ⟨s, {i | i < s.cells.size}⟩ op.content
  plain : ∀ v p, Ordinary s root c T entries v → s.field? v referenceKey = some (.text p) →
    Pointer.Plain p ∧ ∀ role, p ≠ pointerTo (op.schemaName role)
  puts : s.Puts (Changes table op media tagged) t
  media_place : ∀ i, media (.node i) → Ordinary s root c T entries (.node i) ∧
    ∀ j key, s.Stands j key i → ∃ type ∈ contentTypes, key = some (.text type)
  media_schema : ∀ v, media v → ∃ w, s.field? v "schema" = some w ∧ s.isReference w = false
  tagged_new : ∀ i, tagged (.node i) → Ordinary s root c T entries (.node i) ∨ s.cells.size ≤ i
  tagged_schema : ∀ v, tagged v → Ordinary s root c T entries v →
    s.field? v "type" = some (.text "object") ∧ ∃ role, s.MayHave v role
  tagged_place : ∀ i, tagged (.node i) → ∀ j key, s.Stands j key i →
    (media (.node j) ∧ key = some (.text "schema")) ∨ ∃ group, s.Stands c group j

/-- An operation is no group of the components. -/
theorem Opened.content_ne_group {key : Option Scalar} (h : Opened s root c T entries)
    (hcontent : IsContent root (deepGates s root (entries.get? "paths") c T) True ⟨s, {i | i < s.cells.size}⟩ op.content)
    (hi : s.Stands c key i) : op.content ≠ .node i := by
  intro hop
  obtain ⟨g, hg, hgate⟩ := hcontent.gate trivial
  obtain rfl : i = g.node := by simpa using hop.symm.trans hgate
  obtain ⟨fields, hcell, hget⟩ := h.stands_deepGates hg
  have howner := (h.tidy.unique _ _ _ _ _ (stands_of_get? hcell hget) hi).1
  have hnode := h.node_eq_of_owner hg howner
  exact ((hcontent.writable _ hop).2.2 ⟨c, "schemas", T⟩
    (documentGates_subset (mem_documentGates.mpr (.inr (.inr rfl))))).2 hnode.symm (by simp [wayKeys])

/-- References lead to ordinary values if they are plain. -/
theorem Opened.ordinary_dereference (h : Opened s root c T entries)
    (hplain : ∀ v p, Ordinary s root c T entries v → s.field? v referenceKey = some (.text p) → Pointer.Plain p)
    (hv : Ordinary s root c T entries v) (hw : s.dereference (.node root) v = .ok w) : Ordinary s root c T entries w := by
  obtain ⟨n, hchain⟩ := Store.dereference_eq_ok.mp hw
  exact (hchain.transfer (Ordinary s root c T entries) hv (fun v _ => ⟨rfl, rfl⟩) fun v p u hv hp hu =>
    ⟨hu, h.ordinary_resolve (hplain v p hv hp) hu⟩).2

/-- The value stands neither in the components themselves nor under the name of a media type. -/
def IsPart (s : Store) (c : Nat) (v : Value) : Prop :=
  ∀ i, v = .node i → ∃ j key, s.Stands j key i ∧ j ≠ c ∧ ∀ type ∈ contentTypes, key ≠ some (.text type)

/-- What a plain pointer leads to stands in a group of the components. -/
theorem Opened.isPart_resolve {p : String} (h : Opened s root c T entries) (hp : Pointer.Plain p)
    (hw : s.resolve (.node root) p = .ok (.node i)) :
    ∃ j key group, s.Stands j key i ∧ s.Stands c group j ∧ j ≠ c ∧ ∀ type ∈ contentTypes, key ≠ some (.text type) := by
  obtain ⟨group, name, x, cell, -, -, hname, hx, hcell, key, hplace, hkey⟩ := h.group_of_resolve hp hw
  refine ⟨x, key, _, ⟨cell, hcell, hplace⟩, hx, fun heq => h.not_stands_components_self (heq ▸ hx), fun type htype heq => ?_⟩
  rcases hkey with rfl | rfl
  · cases heq
  · obtain rfl : name = type := by simpa using heq
    exact not_simple_of_mem_contentTypes htype hname

/-- What a value refers to is the value itself, or it stands in a group of the components. -/
theorem Opened.place_of_dereference {j : Nat} {key : Option Scalar} (h : Opened s root c T entries)
    (hplain : ∀ v p, Ordinary s root c T entries v → s.field? v referenceKey = some (.text p) → Pointer.Plain p)
    (hv : Ordinary s root c T entries v) (hw : s.dereference (.node root) v = .ok (.node i)) (hi : s.Stands j key i) :
    (v = .node i ∧ s.isReference v = false) ∨ ∃ group, s.Stands c group j := by
  have hgroup : ∀ {p u}, Pointer.Plain p → s.resolve (.node root) p = .ok u → ∀ x, u = .node x → ∀ j key,
      s.Stands j key x → ∃ group, s.Stands c group j := by
    rintro p u hp hu x rfl j key hx
    obtain ⟨y, _, group, hy, hgroup, -⟩ := h.isPart_resolve hp hu
    obtain rfl := (h.tidy.unique _ _ _ _ _ hx hy).1
    exact ⟨_, hgroup⟩
  obtain ⟨n, hchain⟩ := Store.dereference_eq_ok.mp hw
  cases hchain with
  | nil hnot => exact .inl ⟨rfl, hnot⟩
  | cons hp hu hrest =>
    have hplain₁ := hplain _ _ hv hp
    -- From the first reference on everything stands in a group.
    let P : Value → Prop := fun v => Ordinary s root c T entries v ∧
      ∀ x, v = .node x → ∀ j key, s.Stands j key x → ∃ group, s.Stands c group j
    have hlast : P (.node i) := (hrest.transfer P ⟨h.ordinary_resolve hplain₁ hu, hgroup hplain₁ hu⟩ (fun v _ => ⟨rfl, rfl⟩)
      fun v p u hv hp hu => ⟨hu, h.ordinary_resolve (hplain v p hv.1 hp) hu, hgroup (hplain v p hv.1 hp) hu⟩).2
    exact .inr (hlast.2 i rfl j key hi)

/-- References lead to parts of groups, if not to the values themselves. -/
theorem Opened.isPart_dereference (h : Opened s root c T entries)
    (hplain : ∀ v p, Ordinary s root c T entries v → s.field? v referenceKey = some (.text p) → Pointer.Plain p)
    (hv : Ordinary s root c T entries v) (hpart : IsPart s c v) (hw : s.dereference (.node root) v = .ok w) :
    IsPart s c w := by
  obtain ⟨n, hchain⟩ := Store.dereference_eq_ok.mp hw
  refine (hchain.transfer (fun v => Ordinary s root c T entries v ∧ IsPart s c v) ⟨hv, hpart⟩ (fun v _ => ⟨rfl, rfl⟩)
    fun v p u hv hp hu => ⟨hu, h.ordinary_resolve (hplain v p hv.1 hp) hu, ?_⟩).2.2
  rintro i rfl
  obtain ⟨j, key, _, hj, -, hne, hkey⟩ := h.isPart_resolve (hplain v p hv.1 hp) hu
  exact ⟨j, key, hj, hne, hkey⟩

/-- The media type and the schema of a content that an ordinary value has are ordinary. -/
theorem Opened.ordinary_content {owner : Value} {type : String} {content : Content} (h : Opened s root c T entries)
    (hplain : ∀ v p, Ordinary s root c T entries v → s.field? v referenceKey = some (.text p) → Pointer.Plain p)
    (howner : Ordinary s root c T entries owner) (hfinds : FindsContent s (.node root) owner type content) :
    Ordinary s root c T entries content.media ∧ Ordinary s root c T entries content.schema := by
  obtain ⟨types, id, declared, hcontent, htypes, hdeclared, hschema, -⟩ := findsContent_iff_fields.mp hfinds
  have hmedia := h.ordinary_entry (h.ordinary_field howner hcontent) htypes (List.mem_singleton_self _)
  exact ⟨hmedia, h.ordinary_dereference hplain (h.ordinary_field hmedia hdeclared) hschema⟩

namespace Steady

variable (h : Steady s t root c T entries table op media tagged)
include h

/-- What changes in ordinary values. -/
theorem changes_cases (hv : Ordinary s root c T entries (.node i)) (hc : Changes table op media tagged i key w) :
    (media (.node i) ∧ key = "schema") ∨ (tagged (.node i) ∧ key = roleKey ∧ ∃ role : Role, w = .text role.text) := by
  cases hc with
  | registered hi role w => exact absurd (h.node.symm.trans hi).symm hv.ne_schemas
  | mark hi hm =>
    obtain ⟨g, hg, heq⟩ := h.content.gate trivial
    exact absurd (Value.node.inj (hi.symm.trans heq)) ((hv i rfl).2.2 g hg)
  | schema hi j => exact .inl ⟨hi, rfl⟩
  | tag hi role => exact .inr ⟨hi, rfl, role, rfl⟩

/-- What an ordinary value holds under a key does not change, the schema of a media type and the role of a schema
aside. -/
theorem field_eq (hv : Ordinary s root c T entries v) (hmedia : key = "schema" → ¬ media v)
    (htagged : key = roleKey → ¬ tagged v) : t.field? v key = s.field? v key := by
  refine h.puts.field?_eq hv.lt fun i w hi hc => ?_
  subst hi
  rcases h.changes_cases hv hc with ⟨hm, hkey⟩ | ⟨hr, hkey, -⟩
  · exact hmedia hkey hm
  · exact htagged hkey hr

theorem shape_eq (hv : Ordinary s root c T entries v) (hmedia : ¬ media v) (htagged : ¬ tagged v) :
    t.shape v = s.shape v := by
  refine h.puts.shape_eq hv.lt fun i key w hi hc => ?_
  subst hi
  rcases h.changes_cases hv hc with ⟨hm, -⟩ | ⟨hr, -⟩
  · exact hmedia hm
  · exact htagged hr

/-- What is put into ordinary values is put into objects that are not empty. -/
theorem isTruthy_eq (hv : Ordinary s root c T entries v) : t.isTruthy v = s.isTruthy v := by
  cases v with
  | scalar a => rfl
  | node i =>
    refine h.puts.isTruthy_eq (hv.lt i rfl) fun ⟨key, w, hc⟩ => ?_
    rcases h.changes_cases hv hc with ⟨hm, -⟩ | ⟨hr, -⟩
    · obtain ⟨w, hfield, -⟩ := h.media_schema _ hm
      exact Store.isTruthy_of_field? hfield
    · exact Store.isTruthy_of_field? (h.tagged_schema _ hr hv).1

theorem isObject_iff (hv : Ordinary s root c T entries v) : t.IsObject v ↔ s.IsObject v := h.puts.isObject_iff hv.lt

theorem isReference_eq (hv : Ordinary s root c T entries v) : t.isReference v = s.isReference v := by
  rw [Store.isReference_eq_isSome, Store.isReference_eq_isSome,
    h.field_eq hv (fun heq => absurd heq (by decide)) fun heq => absurd heq (by decide)]

/-- What an operation contains is not ordinary. -/
theorem content_ne (hv : Ordinary s root c T entries v) : op.content ≠ v := by
  obtain ⟨g, hg, heq⟩ := h.content.gate trivial
  rintro rfl
  exact (hv _ heq).2.2 g hg rfl

/-- What has been tagged stands neither in the components themselves nor in the operation. -/
theorem owner_of_tagged {j : Nat} {key : Option Scalar} (hr : tagged (.node i)) (hi : s.Stands j key i) :
    j ≠ c ∧ op.content ≠ .node j := by
  rcases h.tagged_place i hr _ _ hi with ⟨hm, -⟩ | ⟨group, hgroup⟩
  · have hordinary := (h.media_place j hm).1
    exact ⟨fun heq => hordinary.ne_components (heq ▸ rfl), h.content_ne hordinary⟩
  · exact ⟨fun heq => h.opened.not_stands_components_self (heq ▸ hgroup), h.opened.content_ne_group h.content hgroup⟩

theorem ordinary_media (hm : media v) : Ordinary s root c T entries v := by
  obtain ⟨declared, hdeclared, -⟩ := h.media_schema v hm
  obtain ⟨x, _, hshape, -⟩ := Store.field?_eq_some.mp hdeclared
  obtain rfl := (Store.shape_eq_object.mp hshape).1
  exact (h.media_place x hm).1

/-- Only what stands under the name of a media type is a media type. -/
theorem not_media_of_stands {j : Nat} {key : Option Scalar} (hi : s.Stands j key i)
    (hkey : ∀ type ∈ contentTypes, key ≠ some (.text type)) : ¬ media (.node i) := fun hm => by
  obtain ⟨type, htype, heq⟩ := (h.media_place i hm).2 _ _ hi
  exact hkey type htype heq

theorem not_media_of_isPart (hv : IsPart s c v) : ¬ media v := by
  intro hm
  obtain ⟨declared, hdeclared, -⟩ := h.media_schema v hm
  obtain ⟨x, _, hshape, -⟩ := Store.field?_eq_some.mp hdeclared
  obtain rfl := (Store.shape_eq_object.mp hshape).1
  obtain ⟨j, key, hj, -, hkey⟩ := hv x rfl
  exact h.not_media_of_stands hj hkey hm

/-- What stands in a part is neither a media type nor a tagged schema. -/
theorem not_of_isPart {j : Nat} {key : Option Scalar} (hj : IsPart s c (.node j)) (hi : s.Stands j key i)
    (hkey : ∀ type ∈ contentTypes, key ≠ some (.text type)) : ¬ media (.node i) ∧ ¬ tagged (.node i) := by
  refine ⟨h.not_media_of_stands hi hkey, fun hr => ?_⟩
  rcases h.tagged_place i hr _ _ hi with ⟨hm, -⟩ | ⟨group, hgroup⟩
  · exact h.not_media_of_isPart hj hm
  · obtain ⟨x, key', hx, hne, -⟩ := hj j rfl
    exact hne (h.opened.tidy.unique _ _ _ _ _ hx hgroup).1

/-! ## References -/

/-- A group of the components is neither a media type nor a tagged schema. -/
theorem not_of_group {group : String} (hgroup : Pointer.Simple group) (hi : s.Stands c (some (.text group)) i) :
    ¬ media (.node i) ∧ ¬ tagged (.node i) := by
  refine ⟨h.not_media_of_stands hi fun type htype heq => ?_, fun hr => (h.owner_of_tagged hr hi).1 rfl⟩
  obtain rfl : group = type := by simpa using heq
  exact not_simple_of_mem_contentTypes htype hgroup

/-- Nothing that a plain pointer steps through changes, unless a schema is registered there. -/
theorem step_group_eq {group name : String} (hgroup : Pointer.Simple group)
    (hi : ∀ i, v = .node i → s.Stands c (some (.text group)) i)
    (hname : ∀ role, "#/components/" ++ group ++ "/" ++ name ≠ pointerTo (op.schemaName role)) :
    t.step v name = s.step v name := by
  refine h.puts.step_eq (fun i heq => (h.opened.tidy.inside _ _ _ (hi i heq)).1) fun i w heq hc => ?_
  obtain ⟨hmedia, htagged⟩ := h.not_of_group hgroup (hi i heq)
  cases hc with
  | registered hT role w =>
    obtain rfl : T = i := by simpa using h.node.symm.trans hT
    have hkey := (h.opened.tidy.unique _ _ _ _ _ (hi T heq) h.opened.stands_schemas).2
    obtain rfl : group = "schemas" := by simpa using hkey
    exact hname role rfl
  | mark hop hm => exact h.opened.content_ne_group h.content (hi i heq) hop
  | schema hm => exact hmedia hm
  | tag hr => exact htagged hr

theorem shape_eq_root : t.shape (.node root) = s.shape (.node root) := by
  refine h.puts.shape_eq (fun i hi => by obtain rfl : root = i := by simpa using hi
                                         exact h.opened.tidy.root_lt) fun i key w hi hc => ?_
  obtain rfl : root = i := by simpa using hi
  cases hc with
  | registered hT role w => exact h.opened.schemas_ne_root (by simpa using h.node.symm.trans hT)
  | mark hop hm => exact (h.content.writable _ hop).2.1 rfl
  | schema hm => exact (h.media_place _ hm).1.ne_root rfl
  | tag hr =>
    rcases h.tagged_new _ hr with hv | hle
    · exact hv.ne_root rfl
    · exact absurd h.opened.tidy.root_lt (by omega)

theorem shape_eq_components : t.shape (.node c) = s.shape (.node c) := by
  have hlt : c < s.cells.size := (h.opened.tidy.inside _ _ _ h.opened.stands_components).1
  refine h.puts.shape_eq (fun i hi => by obtain rfl : c = i := by simpa using hi
                                         exact hlt) fun i key w hi hc => ?_
  obtain rfl : c = i := by simpa using hi
  cases hc with
  | registered hT role w => exact h.opened.schemas_ne_components (by simpa using h.node.symm.trans hT)
  | mark hop hm =>
    exact ((h.content.writable _ hop).2.2 ⟨root, "components", c⟩
      (documentGates_subset (mem_documentGates.mpr (.inr (.inl rfl))))).2 rfl (by simp [wayKeys])
  | schema hm => exact (h.media_place _ hm).1.ne_components rfl
  | tag hr =>
    rcases h.tagged_new _ hr with hv | hle
    · exact hv.ne_components rfl
    · exact absurd hlt (by omega)

/-- A plain pointer leads where it led before, unless a schema is registered there. -/
theorem resolve_iff {p : String} (hp : Pointer.Plain p) (hnot : ∀ role, p ≠ pointerTo (op.schemaName role)) :
    t.resolve (.node root) p = .ok w ↔ s.resolve (.node root) p = .ok w := by
  obtain ⟨group, name, rfl, hgroup, hname⟩ := hp
  obtain ⟨inner, hinner, -⟩ := h.opened.gated.stands ⟨c, "schemas", T⟩ (mem_documentGates.mpr (.inr (.inr rfl)))
  have hlt : ∀ {i key x}, s.Stands i key x → x < s.cells.size := fun hx => (h.opened.tidy.inside _ _ _ hx).1
  have hnull : ∀ {v : Value}, (∀ i, v = .node i → i < s.cells.size) → t.isNull v = s.isNull v := fun hv =>
    Store.isNull_eq_of_lt hv fun i hi => (hv i hi).trans_le h.puts.size_le
  have hstep : ∀ {v x : Value} {key : String}, s.step v key = .ok (some x) → ∀ i, x = .node i → i < s.cells.size := by
    rintro v x key hx i rfl
    obtain ⟨j, cell, k, -, hcell, hplace, -⟩ := Store.place_of_step hx
    exact hlt ⟨cell, hcell, hplace⟩
  simp only [Store.resolve_plain hgroup hname, Store.step_eq_of_shape_eq h.shape_eq_root, h.opened.step_root,
    Except.ok.injEq, Option.some.injEq]
  refine exists_congr fun components => exists_congr fun v => and_congr_right fun hc => ?_
  subst hc
  rw [Store.step_eq_of_shape_eq h.shape_eq_components, hnull (hstep h.opened.step_root)]
  refine and_congr_right fun _ => and_congr_right fun hv => ?_
  have hstands : ∀ i, v = .node i → s.Stands c (some (.text group)) i := by
    rintro i rfl
    rw [Store.step_object hinner, Except.ok.injEq] at hv
    exact stands_of_get? hinner hv
  rw [hnull (hstep hv), h.step_group_eq hgroup hstands hnot]
  refine and_congr_right fun _ => and_congr_right fun hw => ?_
  rw [hnull (hstep hw)]

/-- A pointer to a schema that has been registered leads to the schema. -/
theorem resolve_registered {role : Role}
    (hfield : t.field? (.node T) (op.schemaName role) = some v) (hv : t.isNull v = false) :
    t.resolve (.node root) (pointerTo (op.schemaName role)) = .ok v := by
  have hnull : ∀ {j key i}, s.Stands j key i → t.isNull (.node i) = false := fun hi =>
    Store.isNull_node (Array.getElem?_eq_getElem ((h.opened.tidy.inside _ _ _ hi).1.trans_le h.puts.size_le))
  obtain ⟨inner, hinner, hget⟩ := h.opened.gated.stands ⟨c, "schemas", T⟩ (mem_documentGates.mpr (.inr (.inr rfl)))
  obtain ⟨id, names, hnames, hname⟩ := Store.field?_eq_some.mp hfield
  obtain ⟨-, hcell⟩ := Store.shape_eq_object.mp hnames
  rw [pointerTo_eq, Store.resolve_plain (by decide +kernel) (op.simple_schemaName role)]
  refine ⟨.node c, .node T, ?_, hnull h.opened.stands_components, ?_, hnull h.opened.stands_schemas, ?_, hv⟩
  · rw [Store.step_eq_of_shape_eq h.shape_eq_root, h.opened.step_root]
  · rw [Store.step_eq_of_shape_eq h.shape_eq_components, Store.step_object hinner, hget]
  · obtain ⟨heq, -⟩ := Store.shape_eq_object.mp hnames
    obtain rfl := Value.node.inj heq
    rw [Store.step_object hcell, hname]

/-- References in ordinary values lead where they led before, and to ordinary values. -/
theorem dereference_iff (hv : Ordinary s root c T entries v) :
    t.dereference (.node root) v = .ok w ↔ s.dereference (.node root) v = .ok w := by
  have hpointer : ∀ {v}, Ordinary s root c T entries v → t.field? v referenceKey = s.field? v referenceKey :=
    fun hv => h.field_eq hv (fun heq => absurd heq (by decide)) fun heq => absurd heq (by decide)
  rw [Store.dereference_eq_ok, Store.dereference_eq_ok]
  constructor
  · rintro ⟨n, hchain⟩
    refine ⟨n, (hchain.transfer (Ordinary s root c T entries) hv
      (fun v hv => ⟨(h.isReference_eq hv).symm, (hpointer hv).symm⟩) fun v p u hv hp hu => ?_).1⟩
    obtain ⟨hplain, hnot⟩ := h.plain v p hv ((hpointer hv).symm.trans hp)
    rw [h.resolve_iff hplain hnot] at hu
    exact ⟨hu, h.opened.ordinary_resolve hplain hu⟩
  · rintro ⟨n, hchain⟩
    refine ⟨n, (hchain.transfer (Ordinary s root c T entries) hv
      (fun v hv => ⟨h.isReference_eq hv, hpointer hv⟩) fun v p u hv hp hu => ?_).1⟩
    obtain ⟨hplain, hnot⟩ := h.plain v p hv hp
    exact ⟨(h.resolve_iff hplain hnot).mpr hu, h.opened.ordinary_resolve hplain hu⟩

theorem ordinary_dereference (hv : Ordinary s root c T entries v) (hw : s.dereference (.node root) v = .ok w) :
    Ordinary s root c T entries w := h.opened.ordinary_dereference (fun v p hv hp => (h.plain v p hv hp).1) hv hw

/-! ## Contents -/

/-- A media type and a tagged schema are no object with this key only. -/
theorem shape_eq_of_unique {id : Nat} {type : String} {x : Value} (hv : Ordinary s root c T entries v)
    (hmedia : ¬ media v) (htype : type ≠ "type") :
    t.shape v = .object id [(.text type, x)] ↔ s.shape v = .object id [(.text type, x)] := by
  by_cases htagged : tagged v
  · have hnot : ∀ {u : Store}, u.shape v = .object id [(.text type, x)] → u.field? v "type" = none := fun hshape => by
      simp [Store.field?, Store.entries?, hshape, Entries.get?_cons_text, htype]
    have hfield := (h.tagged_schema v htagged hv).1
    have hfield' := (h.field_eq hv (fun _ => hmedia) fun heq => absurd heq (by decide)).trans hfield
    constructor
    · exact fun hshape => by simp [hnot hshape] at hfield'
    · exact fun hshape => by simp [hnot hshape] at hfield
  · rw [h.shape_eq hv hmedia htagged]

/-- What stands under another key than the name of a media type is not a media type that has changed. -/
theorem not_media_of_field (hfield : s.field? v key = some w) (hkey : key ∉ contentTypes) : ¬ media w := by
  intro hm
  obtain ⟨x, rfl⟩ : ∃ x, w = .node x := by
    obtain ⟨declared, hdeclared, -⟩ := h.media_schema w hm
    obtain ⟨x, _, hshape, -⟩ := Store.field?_eq_some.mp hdeclared
    exact ⟨x, (Store.shape_eq_object.mp hshape).1⟩
  obtain ⟨id, fields, hshape, hget⟩ := Store.field?_eq_some.mp hfield
  obtain ⟨-, hcell⟩ := Store.shape_eq_object.mp hshape
  refine h.not_media_of_stands (stands_of_get? hcell hget) (fun type htype heq => hkey ?_) hm
  obtain rfl : key = type := by simpa using heq
  exact htype

theorem ordinary_content {owner : Value} {type : String} {content : Content} (howner : Ordinary s root c T entries owner)
    (hfinds : FindsContent s (.node root) owner type content) :
    Ordinary s root c T entries content.media ∧ Ordinary s root c T entries content.schema :=
  h.opened.ordinary_content (fun v p hv hp => (h.plain v p hv hp).1) howner hfinds

/-- What an ordinary value has for a role is what it had before, or a role that it has been given. -/
theorem role_cases (hv : Ordinary s root c T entries v) (hfield : t.field? v roleKey = some w) :
    s.field? v roleKey = some w ∨ ∃ role : Role, w = .text role.text := by
  obtain ⟨id, fields, hshape, hget⟩ := Store.field?_eq_some.mp hfield
  obtain ⟨id', before, hbefore⟩ := (h.isObject_iff hv).mp ⟨id, fields, hshape⟩
  obtain ⟨rfl, hcell⟩ := Store.shape_eq_object.mp hbefore
  obtain ⟨after, hafter, hkeys⟩ := h.puts.object hcell
  obtain ⟨-, rfl⟩ := Shape.object.inj ((Store.shape_node hafter).symm.trans hshape)
  rcases hkeys roleKey with heq | ⟨x, hc, hx⟩
  · exact .inl (Store.field?_eq_some.mpr ⟨id', before, hbefore, heq ▸ hget⟩)
  · obtain rfl := Option.some.inj (hx.symm.trans hget)
    rcases h.changes_cases hv hc with ⟨-, hkey⟩ | ⟨-, -, hrole⟩
    · exact absurd hkey (by decide)
    · exact .inr hrole

/-- A schema that has not been tagged may have the same roles as before. -/
theorem mayHave_iff {role : Role} (hv : Ordinary s root c T entries v) (htagged : ¬ tagged v) :
    t.MayHave v role ↔ s.MayHave v role := by
  rw [Store.mayHave_iff_field, Store.mayHave_iff_field, h.isObject_iff hv,
    h.field_eq hv (fun heq => absurd heq (by decide)) fun _ => htagged]
  refine and_congr_right fun _ => forall_congr' fun w => imp_congr_right fun hw => ?_
  rw [h.isTruthy_eq (h.opened.ordinary_field hv hw)]

/-! ## Entries -/

/-- The entries of objects from the beginning are under texts. -/
theorem textKeyed_of_lt {fields : Entries Value} (hi : i < s.cells.size) (hcell : t.cells[i]? = some (.object fields)) :
    fields.TextKeyed := by
  obtain ⟨cell, hbefore⟩ : ∃ cell, s.cells[i]? = some cell := ⟨_, Array.getElem?_eq_getElem hi⟩
  by_cases hobject : ∃ before, cell = .object before
  · obtain ⟨before, rfl⟩ := hobject
    obtain ⟨added, hadded, hallowed⟩ := h.puts.exists_putAll hbefore
    obtain rfl := Cell.object.inj (Option.some.inj (hadded.symm.trans hcell))
    refine (h.opened.textKeyed _ _ hbefore).putAll fun k hk => ?_
    obtain ⟨e, he, rfl⟩ := List.mem_map.mp hk
    exact (hallowed e he).imp fun _ h => h.1
  · have hsame := h.puts.cell_eq hbefore fun before heq => hobject ⟨before, heq⟩
    exact absurd ⟨fields, Option.some.inj (hsame.symm.trans hcell)⟩ hobject

/-- The entries of an ordinary object are under texts. -/
theorem textKeyed (hv : Ordinary s root c T entries v) {id : Nat} {fields : Entries Value}
    (hshape : t.shape v = .object id fields) : fields.TextKeyed := by
  obtain ⟨heq, hcell⟩ := Store.shape_eq_object.mp hshape
  exact h.textKeyed_of_lt (hv.lt id heq) hcell

/-- An ordinary object has the entries from before, but for a reference to the schema of a media type and for the role of
a schema. -/
theorem entry_cases (hv : Ordinary s root c T entries v) {id : Nat} {fields : Entries Value} {e : Scalar × Value}
    (hshape : t.shape v = .object id fields) (he : e ∈ fields) :
    (∃ key : String, e.1 = .text key ∧ s.field? v key = some e.2) ∨ (media v ∧ t.field? v "schema" = some e.2) ∨
      ∃ role : Role, e = (.text roleKey, .text role.text) ∧ tagged v := by
  have hkeyed := h.textKeyed hv hshape
  obtain ⟨key, hkey⟩ := hkeyed.exists_text e.1 (List.mem_map_of_mem he)
  have hget := Entries.get?_of_mem hkeyed.nodup (hkey ▸ he : (Scalar.text key, e.2) ∈ fields)
  obtain ⟨id', before, hbefore⟩ := (h.isObject_iff hv).mp ⟨id, fields, hshape⟩
  obtain ⟨rfl, hcell⟩ := Store.shape_eq_object.mp hbefore
  obtain ⟨after, hafter, hkeys⟩ := h.puts.object hcell
  obtain ⟨rfl, rfl⟩ : id' = id ∧ after = fields := by
    rw [Store.shape_node hafter, Shape.object.injEq] at hshape
    exact hshape
  rcases hkeys key with heq | ⟨x, hc, hx⟩
  · exact .inl ⟨key, hkey, Store.field?_eq_some.mpr ⟨id', before, hbefore, heq ▸ hget⟩⟩
  · obtain rfl : x = e.2 := Option.some.inj (hx.symm.trans hget)
    rcases h.changes_cases hv hc with ⟨hm, rfl⟩ | ⟨hr, rfl, role, hrole⟩
    · exact .inr (.inl ⟨hm, Store.field?_eq_some.mpr ⟨id', after, hshape, hget⟩⟩)
    · exact .inr (.inr ⟨role, Prod.ext hkey hrole, hr⟩)

end Steady

end Edit

end DeviceApi
