import DeviceApi.Proofs.Api.Comparison
import DeviceApi.Proofs.Api.Grouping
import DeviceApi.Proofs.Api.Steady
import DeviceApi.Proofs.Document.Contained

/-!
# A document in which schemas have been adopted

Before the responses of an operation are looked at, the schemas of its parameters and its request have been adopted. The
responses of errors can be compared just as before, because a media type that refers to its schema now leads to the same.
-/

namespace DeviceApi

variable {s t : Store} {v w : Value} {i : Nat} {key : String}

/-- A response can be copied for the comparison if the schemas that stand in its content lead somewhere. -/
theorem Store.expands_iff_fields {root declared : Value} : s.Expands root declared ↔
    ∃ response, s.dereference root declared = .ok response ∧ s.IsObject response ∧
      ∀ content, s.field? response "content" = some content → ∀ id types, s.shape content = .object id types →
        ∀ e ∈ types, ∀ schema, s.field? e.2 "schema" = some schema → ∃ target, s.dereference root schema = .ok target := by
  constructor
  · rintro ⟨response, id, entries, hresponse, hshape, hall⟩
    refine ⟨response, hresponse, ⟨id, entries, hshape⟩, fun content hcontent id' types htypes e he schema hschema => ?_⟩
    obtain ⟨_, entries', hshape', hget⟩ := field?_eq_some.mp hcontent
    obtain rfl : entries = entries' := by
      rw [hshape, Shape.object.injEq] at hshape'
      exact hshape'.2
    obtain ⟨idMedia, fields, hfields, hget'⟩ := field?_eq_some.mp hschema
    have hleads := hall types (by rw [hget, Option.getD_some]; exact entries?_eq_some.mpr ⟨id', htypes⟩) e he fields
      (entries?_eq_some.mpr ⟨idMedia, hfields⟩)
    rwa [hget', Option.getD_some] at hleads
  · rintro ⟨response, hresponse, ⟨id, entries, hshape⟩, hall⟩
    refine ⟨response, id, entries, hresponse, hshape, fun types htypes e he fields hfields => ?_⟩
    obtain ⟨id', htypes⟩ := entries?_eq_some.mp htypes
    obtain ⟨idMedia, hfields⟩ := entries?_eq_some.mp hfields
    have hcontent : s.field? response "content" = some ((entries.get? "content").getD .null) := by
      refine field?_eq_some.mpr ⟨id, entries, hshape, ?_⟩
      cases hget : entries.get? "content" with
      | some w => rfl
      | none => simp [hget, shape] at htypes
    cases hget : fields.get? "schema" with
    | none => exact ⟨.null, dereference_of_not_isReference rfl⟩
    | some schema => exact hall _ hcontent id' types htypes e he schema (field?_eq_some.mpr ⟨idMedia, fields, hfields, hget⟩)

theorem Store.Has.field {v w : Value} {key : Scalar} (h : s.field? v key = some w) : s.Has w := by
  obtain ⟨id, fields, hshape, hget⟩ := field?_eq_some.mp h
  obtain ⟨k, hk⟩ := Entries.exists_mem_of_get? hget
  exact .inr ⟨id, _, (shape_eq_object.mp hshape).2, List.mem_map_of_mem hk⟩

namespace Edit

variable {root c T : Nat} {entries : Entries Value} {table : SchemaTable} {op : Operation} {media tagged : Value → Prop}

theorem written_reference {j : Nat} {name : String} (hcell : s.cells[j]? = some (referenceCell name)) :
    s.Written (.node j) := by
  refine (Store.written_object (Store.shape_node hcell)).mpr ⟨⟨by simp [Entries.keys], by simp [Entries.keys]⟩, fun e he => ?_⟩
  obtain rfl := List.mem_singleton.mp he
  exact Store.written_text _

/-- The schemas of an operation have been adopted. Media types whose schemas have been replaced refer to them now. -/
structure Adopted (s t : Store) (root c T : Nat) (entries : Entries Value) (table : SchemaTable) (op : Operation)
    (media tagged : Value → Prop) : Prop extends Steady s t root c T entries table op media tagged where
  media_reference : ∀ v, media v → ∃ j name w, t.field? v "schema" = some (.node j) ∧
    t.cells[j]? = some (referenceCell name) ∧ t.dereference (.node root) (.node j) = .ok w ∧
      s.field? v "schema" = some w ∧ s.IsObject w

namespace Adopted

variable (h : Adopted s t root c T entries table op media tagged)
include h

/-- A content is found where it was found before. -/
theorem findsContent_iff {owner : Value} {type : String} {content : Content} (howner : Ordinary s root c T entries owner)
    (htype : type ≠ "type") :
    FindsContent t (.node root) owner type content ↔ FindsContent s (.node root) owner type content := by
  rw [findsContent_iff_fields, findsContent_iff_fields]
  refine exists_congr fun types => exists_congr fun id => ?_
  simp only [exists_and_left]
  rw [h.field_eq howner (fun heq => absurd heq (by decide)) fun heq => absurd heq (by decide)]
  refine and_congr_right fun hcontent => ?_
  have htypes := h.opened.ordinary_field howner hcontent
  rw [h.shape_eq_of_unique htypes (h.not_media_of_field hcontent (by decide)) htype]
  refine and_congr_right fun hshape => ?_
  have hmedia := h.opened.ordinary_entry htypes hshape (List.mem_singleton_self _)
  have hend : ∀ {declared}, s.field? content.media "schema" = some declared →
      s.dereference (.node root) declared = .ok content.schema →
        t.field? content.schema "type" = s.field? content.schema "type" := fun hdeclared hschema =>
    h.field_eq (h.ordinary_dereference (h.opened.ordinary_field hmedia hdeclared) hschema)
      (fun heq => absurd heq (by decide)) fun heq => absurd heq (by decide)
  by_cases hm : media content.media
  · -- Before and after, the media type leads to the schema that stood in it.
    obtain ⟨j, _, w, hfield, -, hw, hdeclared, -⟩ := h.media_reference _ hm
    obtain ⟨_, hdeclared', hinline⟩ := h.media_schema _ hm
    rw [← Option.some.inj (hdeclared.symm.trans hdeclared')] at hinline
    have hself : s.dereference (.node root) w = .ok w := Store.dereference_of_not_isReference hinline
    constructor
    · rintro ⟨declared, hdeclared', hschema, htype⟩
      obtain rfl := Option.some.inj (hfield.symm.trans hdeclared')
      have heq : w = content.schema := Except.ok.inj (hw.symm.trans hschema)
      rw [heq] at hdeclared hself
      exact ⟨_, hdeclared, hself, (hend hdeclared hself).symm.trans htype⟩
    · rintro ⟨declared, hdeclared', hschema, htype⟩
      obtain rfl := Option.some.inj (hdeclared.symm.trans hdeclared')
      exact ⟨.node j, hfield, Except.ok.inj (hself.symm.trans hschema) ▸ hw, (hend hdeclared hschema).trans htype⟩
  · rw [h.field_eq hmedia (fun _ => hm) fun heq => absurd heq (by decide)]
    refine exists_congr fun declared => and_congr_right fun hdeclared => ?_
    rw [h.dereference_iff (h.opened.ordinary_field hmedia hdeclared)]
    exact and_congr_right fun hschema => by rw [hend hdeclared hschema]

/-- Whether the schema of a media type leads somewhere does not change. -/
theorem leads_iff (hv : Ordinary s root c T entries v) :
    (∀ schema, t.field? v "schema" = some schema → ∃ target, t.dereference (.node root) schema = .ok target) ↔
      ∀ schema, s.field? v "schema" = some schema → ∃ target, s.dereference (.node root) schema = .ok target := by
  by_cases hm : media v
  · obtain ⟨j, name, w, hfield, -, hw, -, -⟩ := h.media_reference v hm
    obtain ⟨declared, hdeclared, hnot⟩ := h.media_schema v hm
    refine iff_of_true (fun schema hschema => ?_) fun schema hschema => ?_
    · obtain rfl := Option.some.inj (hfield.symm.trans hschema)
      exact ⟨w, hw⟩
    · obtain rfl := Option.some.inj (hdeclared.symm.trans hschema)
      exact ⟨_, Store.dereference_of_not_isReference hnot⟩
  · rw [h.field_eq hv (fun _ => hm) fun heq => absurd heq (by decide)]
    refine forall_congr' fun schema => imp_congr_right fun hschema => exists_congr fun target => ?_
    exact h.dereference_iff (h.opened.ordinary_field hv hschema)

/-- Whether a response can be copied for the comparison does not change. -/
theorem expands_iff (hv : Ordinary s root c T entries v) :
    t.Expands (.node root) v ↔ s.Expands (.node root) v := by
  rw [Store.expands_iff_fields, Store.expands_iff_fields]
  refine exists_congr fun response => ?_
  rw [h.dereference_iff hv]
  refine and_congr_right fun hresponse => ?_
  have hordinary := h.ordinary_dereference hv hresponse
  rw [h.isObject_iff hordinary, h.field_eq hordinary (fun heq => absurd heq (by decide)) fun heq => absurd heq (by decide)]
  refine and_congr_right fun _ => forall_congr' fun content => imp_congr_right fun hcontent => ?_
  have htypes := h.opened.ordinary_field hordinary hcontent
  have hnot : ¬ media content := h.not_media_of_field hcontent (by decide)
  -- What a schema has for a role holds no schema.
  have hrole : ∀ w schema, tagged content → s.field? content roleKey = some w → s.field? w "schema" ≠ some schema := by
    intro w schema hr hw hschema
    obtain ⟨role, hmay⟩ := (h.tagged_schema content hr htypes).2
    obtain ⟨-, hmay⟩ := Store.mayHave_iff_field.mp hmay
    obtain ⟨id, fields, hshape, hget⟩ := Store.field?_eq_some.mp hschema
    have htruthy : s.isTruthy w = true := by
      rw [Store.isTruthy, hshape]
      cases fields with
      | nil => cases hget
      | cons => rfl
    rw [hmay w hw htruthy] at hshape
    cases hshape
  constructor
  · intro hall id types hshape e he
    have hkeyed := h.opened.textKeyed _ _ (Store.shape_eq_object.mp hshape).2
    obtain ⟨key, hkey⟩ := hkeyed.exists_text e.1 (List.mem_map_of_mem he)
    have hfield : s.field? content key = some e.2 :=
      Store.field?_eq_some.mpr ⟨id, types, hshape, Entries.get?_of_mem hkeyed.nodup (hkey ▸ he)⟩
    by_cases hr : tagged content ∧ key = roleKey
    · exact fun schema hschema => absurd hschema (hrole _ _ hr.1 (hr.2 ▸ hfield))
    · obtain ⟨id', types', hshape', hget'⟩ := Store.field?_eq_some.mp
        ((h.field_eq htypes (fun _ => hnot) fun heq hr' => hr ⟨hr', heq⟩).trans hfield)
      exact (h.leads_iff (h.opened.ordinary_field htypes hfield)).mp
        (hall id' types' hshape' (.text key, e.2) (Entries.mem_of_get? hget'))
  · intro hall id types hshape e he
    rcases h.entry_cases htypes hshape he with ⟨key, -, hfield⟩ | ⟨hm, -⟩ | ⟨role, rfl, -⟩
    · obtain ⟨id', types', hshape', hget'⟩ := Store.field?_eq_some.mp hfield
      exact (h.leads_iff (h.opened.ordinary_field htypes hfield)).mpr
        (hall id' types' hshape' (.text key, e.2) (Entries.mem_of_get? hget'))
    · exact absurd hm hnot
    · rintro schema hschema
      cases hschema

/-- Ordinary values show the same as before, a media type and a tagged schema aside. -/
theorem shows_iff {name : String} (hv : Ordinary s root c T entries v) (hmedia : media v → name ≠ "schema")
    (hname : name ∉ optionalKeywords) (htype : name = "type" → w ≠ .text "object") :
    t.Shows v name w ↔ s.Shows v name w := by
  -- What is shown excludes the keys that media types and tagged schemas have.
  have hnot : ∀ {u : Store}, (∀ {id : Nat} {fields : Entries Value}, u.shape v = .object id fields → fields.TextKeyed) →
      ∀ {key : String} {x : Value}, u.Shows v name w → u.field? v key = some x → key ∉ optionalKeywords →
        key = name ∧ x = w := by
    intro u hkeyed key x hshows hfield hkey
    obtain ⟨id, fields, hshape, hget⟩ := Store.field?_eq_some.mp hfield
    have hgetName := hshows.get?_eq hshape (hkeyed hshape)
    obtain ⟨_, others, _, hothers, -, -, hkeys⟩ := hshows
    obtain rfl : fields = others := by
      rw [hshape, Shape.object.injEq] at hothers
      exact hothers.2
    obtain ⟨text, htext, hcases⟩ := hkeys _ (List.mem_map_of_mem (Entries.mem_of_get? hget))
    obtain rfl : key = text := Except.ok.inj htext
    obtain rfl := hcases.resolve_right hkey
    exact ⟨rfl, Option.some.inj (hget.symm.trans hgetName)⟩
  have hs : ∀ {id : Nat} {fields : Entries Value}, s.shape v = .object id fields → fields.TextKeyed := fun hshape =>
    h.opened.textKeyed _ _ (Store.shape_eq_object.mp hshape).2
  have ht : ∀ {id : Nat} {fields : Entries Value}, t.shape v = .object id fields → fields.TextKeyed := h.textKeyed hv
  by_cases hm : media v
  · obtain ⟨declared, hdeclared, -⟩ := h.media_schema v hm
    obtain ⟨j, _, _, hreference, -⟩ := h.media_reference v hm
    refine iff_of_false (fun hshows => ?_) fun hshows => ?_
    · exact hmedia hm (hnot ht hshows hreference (by decide)).1.symm
    · exact hmedia hm (hnot hs hshows hdeclared (by decide)).1.symm
  by_cases hr : tagged v
  · have hfield := (h.tagged_schema v hr hv).1
    have hfield' := (h.field_eq hv (fun _ => hm) fun heq => absurd heq (by decide)).trans hfield
    refine iff_of_false (fun hshows => ?_) fun hshows => ?_
    · obtain ⟨heq, hw⟩ := hnot ht hshows hfield' (by decide)
      exact htype heq.symm hw.symm
    · obtain ⟨heq, hw⟩ := hnot hs hshows hfield (by decide)
      exact htype heq.symm hw.symm
  · have hshape := h.shape_eq hv hm hr
    constructor
    · rintro ⟨id, fields, key, hfields, hrest⟩
      exact ⟨id, fields, key, hshape.symm.trans hfields, hrest⟩
    · rintro ⟨id, fields, key, hfields, hrest⟩
      exact ⟨id, fields, key, hshape.trans hfields, hrest⟩

/-- What an ordinary value shows under another name than that of a media type is ordinary and not a media type that has
changed. -/
theorem ordinary_shows {name : String} (hv : Ordinary s root c T entries v) (hshows : s.Shows v name w)
    (hname : name ∉ contentTypes) : Ordinary s root c T entries w ∧ ¬ media w := by
  have hfield : s.field? v name = some w := by
    obtain ⟨id, fields, key, hshape, hrest⟩ := hshows
    exact Store.field?_eq_some.mpr ⟨id, fields, hshape, Store.Shows.get?_eq ⟨id, fields, key, hshape, hrest⟩ hshape
      (h.opened.textKeyed _ _ (Store.shape_eq_object.mp hshape).2)⟩
  exact ⟨h.opened.ordinary_field hv hfield, h.not_media_of_field hfield hname⟩

/-- Whether a response answers in text does not change. -/
theorem answersInText_iff (hv : Ordinary s root c T entries v) :
    t.AnswersInText (.node root) v ↔ s.AnswersInText (.node root) v := by
  unfold Store.AnswersInText
  refine exists_congr fun content => exists_congr fun mediaType => exists_congr fun schema => exists_congr fun target => ?_
  rw [h.shows_iff hv (fun _ => by decide) (by decide) fun heq => absurd heq (by decide)]
  refine and_congr_right fun hcontent => ?_
  obtain ⟨htypes, -⟩ := h.ordinary_shows hv hcontent (by decide)
  rw [h.shows_iff htypes (fun _ => by decide) (by decide) fun heq => absurd heq (by decide)]
  refine and_congr_right fun hmediaType => ?_
  obtain ⟨hordinary, hnot⟩ := h.ordinary_shows htypes hmediaType (by decide)
  rw [h.shows_iff hordinary (fun hm => absurd hm hnot) (by decide) fun heq => absurd heq (by decide)]
  refine and_congr_right fun hschema => ?_
  obtain ⟨hschema, -⟩ := h.ordinary_shows hordinary hschema (by decide)
  rw [h.dereference_iff hschema]
  refine and_congr_right fun htarget => ?_
  exact h.shows_iff (h.ordinary_dereference hschema htarget) (fun _ => by decide) (by decide) fun _ => by simp

/-- Whether the responses of errors are what is expected does not change. -/
theorem fails_iff {responses : Entries Value} (hresponses : ∀ e ∈ responses, Ordinary s root c T entries e.2) :
    t.Fails (.node root) responses ↔ s.Fails (.node root) responses := by
  have herror : ∀ code : String, (∃ declared response, responses.get? (.text code) = some declared ∧
      t.dereference (.node root) declared = .ok response ∧ t.AnswersInText (.node root) response) ↔
      ∃ declared response, responses.get? (.text code) = some declared ∧
        s.dereference (.node root) declared = .ok response ∧ s.AnswersInText (.node root) response := by
    intro code
    refine exists_congr fun declared => exists_congr fun response => and_congr_right fun hget => ?_
    have hordinary := hresponses _ (Entries.mem_of_get? hget)
    rw [h.dereference_iff hordinary]
    exact and_congr_right fun hresponse => h.answersInText_iff (h.ordinary_dereference hordinary hresponse)
  constructor
  · rintro ⟨hexpands, hcodes, herrors⟩
    exact ⟨fun e he hne => (h.expands_iff (hresponses e he)).mp (hexpands e he hne), hcodes,
      fun code hcode => (herror code).mp (herrors code hcode)⟩
  · rintro ⟨hexpands, hcodes, herrors⟩
    exact ⟨fun e he hne => (h.expands_iff (hresponses e he)).mpr (hexpands e he hne), hcodes,
      fun code hcode => (herror code).mpr (herrors code hcode)⟩

/-! ## The comparison -/

/-- A value of a document that can be compared can be compared after adoption as well. -/
theorem written (hv : Ordinary s root c T entries v) (hwritten : s.Written v) : t.Written v := by
  obtain ⟨tree, hholds, hjson, hform⟩ := hwritten
  induction tree using Tree.inductionOn generalizing v with
  | scalar a =>
    obtain rfl := Store.holds_scalar.mp hholds
    exact ⟨.scalar a, Store.holds_scalar.mpr rfl, hjson, hform⟩
  | list items ih =>
    obtain ⟨id, values, rfl, hcell, hall⟩ := Store.holds_list.mp hholds
    refine Store.written_list (h.puts.cell_eq hcell (by simp)) fun w hw => ?_
    obtain ⟨item, hitem, hw'⟩ := exists_mem_of_forall₂ hall hw
    exact ih item hitem (h.opened.ordinary_place hv hcell (List.mem_map_of_mem (f := fun item => (none, item)) hw)) hw'
      (Tree.areJson_iff.mp hjson item hitem) (Tree.hasForm_list.mp hform item hitem)
  | object trees ih =>
    obtain ⟨id, before, rfl, hcell, hall⟩ := Store.holds_object.mp hholds
    obtain ⟨id', fields, hshape⟩ := h.puts.isObject ⟨id, before, Store.shape_node hcell⟩
    refine (Store.written_object hshape).mpr ⟨h.textKeyed hv hshape, fun e he => ?_⟩
    rcases h.entry_cases hv hshape he with ⟨key, -, hfield⟩ | ⟨hm, hfield⟩ | ⟨role, rfl, -⟩
    · obtain ⟨_, others, hothers, hget⟩ := Store.field?_eq_some.mp hfield
      obtain rfl : before = others := by
        rw [Store.shape_node hcell, Shape.object.injEq] at hothers
        exact hothers.2
      obtain ⟨f, hf, -, hheld⟩ := exists_mem_of_forall₂ hall (Entries.mem_of_get? hget)
      exact ih f hf (h.opened.ordinary_field hv hfield) hheld (Tree.entriesAreJson_iff.mp hjson.2 f hf)
        ((Tree.hasForm_object hjson.1).mp hform f hf)
    · obtain ⟨j, name, -, hreference, hcell, -⟩ := h.media_reference _ hm
      rw [Option.some.inj (hfield.symm.trans hreference)]
      exact written_reference hcell
    · exact Store.written_text role.text
  | pair | set | enclosing => exact hjson.elim

/-- What an ordinary value refers to can be compared if what stands in the nodes of the document can. -/
theorem written_dereference (hwritten : ∀ v, Ordinary s root c T entries v → s.Has v → s.Written v)
    (hv : Ordinary s root c T entries v) (hcan : s.Written v) (hw : s.dereference (.node root) v = .ok w) : s.Written w := by
  obtain ⟨n, hchain⟩ := Store.dereference_eq_ok.mp hw
  refine (hchain.transfer (fun v => Ordinary s root c T entries v ∧ s.Written v) ⟨hv, hcan⟩ (fun v _ => ⟨rfl, rfl⟩)
    fun v p u hv hp hu => ⟨hu, ?_⟩).2.2
  obtain ⟨hplain, -⟩ := h.plain v p hv.1 hp
  have hordinary := h.opened.ordinary_resolve hplain hu
  obtain ⟨_, _, x, cell, -, -, -, -, hcell, key, hplace, -⟩ := h.opened.group_of_resolve hplain hu
  exact ⟨hordinary, hwritten u hordinary
    (.inr ⟨x, cell, hcell, Cell.map_snd_places cell ▸ List.mem_map_of_mem hplace⟩)⟩

/-- Ordinary values of the document and the references to schemas that have been adopted can be compared. -/
theorem comparable (hwritten : ∀ v, Ordinary s root c T entries v → s.Has v → s.Written v) :
    t.Comparable (.node root) fun v => (Ordinary s root c T entries v ∧ s.Written v) ∨
      ∃ m, media m ∧ t.field? m "schema" = some v := by
  have hreference : ∀ {m v}, media m → t.field? m "schema" = some v → ∃ j name w, v = .node j ∧
      t.cells[j]? = some (referenceCell name) ∧ t.dereference (.node root) v = .ok w ∧ Ordinary s root c T entries w ∧
        s.IsObject w := by
    intro m v hm hfield
    obtain ⟨j, name, w, hfield', hcell, hw, hschema, hobject⟩ := h.media_reference m hm
    obtain rfl : v = .node j := Option.some.inj (hfield.symm.trans hfield')
    exact ⟨j, name, w, rfl, hcell, hw, h.opened.ordinary_field (h.ordinary_media hm) hschema, hobject⟩
  refine ⟨fun v hv => ?_, .inl ⟨ordinary_scalar _, Store.written_null⟩, fun v id fields e hv hshape he => ?_,
    fun v w hv hw => ?_⟩
  · rcases hv with ⟨hv, hcan⟩ | ⟨m, hm, hfield⟩
    · exact h.written hv hcan
    · obtain ⟨j, name, w, rfl, hcell, -⟩ := hreference hm hfield
      exact written_reference hcell
  · rcases hv with ⟨hv, -⟩ | ⟨m, hm, hfield⟩
    · rcases h.entry_cases hv hshape he with ⟨key, -, hfield⟩ | hnew | ⟨role, rfl, -⟩
      · have hordinary := h.opened.ordinary_field hv hfield
        exact .inl ⟨hordinary, hwritten _ hordinary (.field hfield)⟩
      · exact .inr ⟨v, hnew⟩
      · exact .inl ⟨ordinary_scalar _, Store.written_text _⟩
    · obtain ⟨j, name, w, rfl, hcell, -⟩ := hreference hm hfield
      rw [Store.shape_node hcell, Shape.object.injEq] at hshape
      obtain ⟨-, rfl⟩ := hshape
      obtain rfl := List.mem_singleton.mp he
      exact .inl ⟨ordinary_scalar _, Store.written_text _⟩
  · rcases hv with ⟨hv, hcan⟩ | ⟨m, hm, hfield⟩
    · have hw := (h.dereference_iff hv).mp hw
      exact .inl ⟨h.ordinary_dereference hv hw, h.written_dereference hwritten hv hcan hw⟩
    · obtain ⟨j, name, w', -, -, hw', hordinary, id, fields, hshape⟩ := hreference hm hfield
      obtain rfl := Except.ok.inj (hw.symm.trans hw')
      exact .inl ⟨hordinary, hwritten w hordinary (.inl ⟨id, (Store.shape_eq_object.mp hshape).1⟩)⟩

end Adopted

end Edit

end DeviceApi
