import DeviceApi.Proofs.Api.Adopted

/-!
# What an operation declares

An operation declares its parameters, its body and its responses under keys of its own. Adoption puts marks under other
keys, so all of this stays as it is.
-/

namespace DeviceApi

variable {s s' t : Store} {v w : Value} {key : String}

/-- A value has no more than one content of a type. -/
theorem Edit.FindsContent.unique {root owner : Value} {type : String} {content content' : Content}
    (h : FindsContent s root owner type content) (h' : FindsContent s root owner type content') : content = content' := by
  obtain ⟨types, id, declared, hcontent, htypes, hdeclared, hschema, -⟩ := findsContent_iff_fields.mp h
  obtain ⟨types', id', declared', hcontent', htypes', hdeclared', hschema', -⟩ := findsContent_iff_fields.mp h'
  obtain ⟨media, schema⟩ := content
  obtain ⟨media', schema'⟩ := content'
  obtain rfl := Option.some.inj (hcontent.symm.trans hcontent')
  simp only [htypes, Shape.object.injEq, List.cons.injEq, Prod.mk.injEq, true_and, and_true] at htypes'
  obtain ⟨-, rfl⟩ := htypes'
  obtain rfl := Option.some.inj (hdeclared.symm.trans hdeclared')
  obtain rfl := Except.ok.inj (hschema.symm.trans hschema')
  rfl

namespace Store

variable {root schema schema' : Value} {type : String} {role role' : Role} {op : Operation}

/-- What an operation declares under a key, null if it declares nothing. -/
def declared (s : Store) (op : Operation) (key : String) : Value := (s.field? op.content (.text key)).getD .null

/-- The responses that an operation declares. -/
def responses (s : Store) (op : Operation) : Entries Value := (s.entries? (s.declared op "responses")).getD []

/-- The operation declares a parameter at the location. -/
def Takes (s : Store) (root : Value) (op : Operation) (location : String) : Prop :=
  ∃ id items, s.shape (s.declared op "parameters") = .list id items ∧ ∃ item ∈ items, s.Locates root item location

/-- What is declared leads to a content of one type, and its schema is one of an object that may have the role. -/
def Carries (s : Store) (root declared : Value) (type : String) (role : Role) (schema : Value) : Prop :=
  ∃ owner media, s.dereference root declared = .ok owner ∧ Edit.FindsContent s root owner type ⟨media, schema⟩ ∧
    s.MayHave schema role

/-- The content that the operation has its form or its answer in. If it is read by its address alone, it has no form. -/
def Supplies (s : Store) (root : Value) (op : Operation) : Role → Content → Prop
  | .path, _ => False
  | .request, content => op.method ≠ .get ∧ ∃ body, s.dereference root (s.declared op "requestBody") = .ok body ∧
      Edit.FindsContent s root body formContentType content
  | .response, content => ∃ owner, s.dereference root (((s.responses op).get? "200").getD .null) = .ok owner ∧
      Edit.FindsContent s root owner jsonContentType content

/-- The form of an operation: it has path parameters. If it is read by its address alone, then it has query parameters and
no body; else it has no query parameters, and a form. It answers in JSON, and its errors in text. The schemas of the form
and of the answer are not the same. -/
structure Conforms (s : Store) (root : Value) (op : Operation) : Prop where
  located : ∀ location, s.Takes root op location → location ∈ ["path", "query"]
  path : s.Takes root op "path"
  query : op.method = .get → s.Takes root op "query" ∧
    ∃ body, s.dereference root (s.declared op "requestBody") = .ok body ∧ s.isTruthy body = false
  form : op.method ≠ .get → ¬ s.Takes root op "query" ∧
    ∃ schema, s.Carries root (s.declared op "requestBody") formContentType .request schema
  fails : s.Fails root (s.responses op)
  success : ∃ schema, s.Carries root (((s.responses op).get? "200").getD .null) jsonContentType .response schema
  apart : op.method ≠ .get → ∀ schema, s.Carries root (s.declared op "requestBody") formContentType .request schema →
    ¬ s.Carries root (((s.responses op).get? "200").getD .null) jsonContentType .response schema

theorem has_response {e : Scalar × Value} (he : e ∈ s.responses op) : s.Has e.2 := by
  rw [responses] at he
  cases hfields : s.entries? (s.declared op "responses") with
  | none => simp [hfields] at he
  | some fields =>
    rw [hfields, Option.getD_some] at he
    obtain ⟨id, hshape⟩ := entries?_eq_some.mp hfields
    exact .inr ⟨id, _, (shape_eq_object.mp hshape).2, List.mem_map_of_mem he⟩

theorem declared_eq {id : Nat} {fields : Entries Value} (hshape : s.shape op.content = .object id fields) :
    s.declared op key = (fields.get? (.text key)).getD .null := by
  simp [declared, field?, entries?, hshape]

theorem Carries.unique (h : s.Carries root v type role schema) (h' : s.Carries root v type role' schema') :
    schema = schema' := by
  obtain ⟨owner, media, howner, hfinds, -⟩ := h
  obtain ⟨owner', media', howner', hfinds', -⟩ := h'
  obtain rfl := Except.ok.inj (howner.symm.trans howner')
  exact congrArg Content.schema (hfinds.unique hfinds')

theorem Supplies.unique {content content' : Content} (h : s.Supplies root op role content) (h' : s.Supplies root op role content') :
    content = content' := by
  cases role with
  | path => exact h.elim
  | request =>
    obtain ⟨-, body, hbody, hfinds⟩ := h
    obtain ⟨-, body', hbody', hfinds'⟩ := h'
    obtain rfl := Except.ok.inj (hbody.symm.trans hbody')
    exact hfinds.unique hfinds'
  | response =>
    obtain ⟨owner, howner, hfinds⟩ := h
    obtain ⟨owner', howner', hfinds'⟩ := h'
    obtain rfl := Except.ok.inj (howner.symm.trans howner')
    exact hfinds.unique hfinds'

/-- The responses that classification looks at are the declared ones if these are under texts. -/
theorem ofPairs_displayed {fields : Entries Value} (hkeyed : fields.TextKeyed) :
    Entries.ofPairs (fields.map fun e => (Scalar.text e.1.display, e.2)) = fields := by
  have hsame : (fields.map fun e => (Scalar.text e.1.display, e.2)) = fields := by
    refine (List.map_congr_left fun e he => ?_).trans (List.map_id fields)
    obtain ⟨text, heq⟩ := hkeyed.exists_text e.1 (List.mem_map_of_mem he)
    exact Prod.ext (by simp [heq, Scalar.display]) rfl
  rw [hsame, Entries.ofPairs, Entries.putAll_eq_append hkeyed.exists_text (by simpa using hkeyed.nodup), List.nil_append]

/-- The responses of an operation can be gone through just if there are none or they are an object. -/
theorem runs_responses_iff {found : Entries Value} (hop : s.IsObject op.content)
    (hkeyed : ∀ id fields, s.shape (s.declared op "responses") = .object id fields → fields.TextKeyed) :
    Edit.Runs (Edit.responsesOf op) s found s ↔
      (s.isTruthy (s.declared op "responses") = true → s.IsObject (s.declared op "responses")) ∧ found = s.responses op := by
  obtain ⟨id, entries, hshape⟩ := hop
  rw [Edit.runs_responsesOf_iff]
  have hdeclared : (entries.get? "responses").getD .null = s.declared op "responses" := (declared_eq hshape).symm
  cases htruthy : s.isTruthy (s.declared op "responses") with
  | false =>
    have hnone : s.responses op = [] := by
      cases hentries : s.entries? (s.declared op "responses") with
      | none => rw [responses, hentries, Option.getD_none]
      | some fields =>
        obtain ⟨i, hfields⟩ := entries?_eq_some.mp hentries
        rw [responses, hentries, Option.getD_some]
        simpa [isTruthy, hfields] using htruthy
    constructor
    · rintro ⟨-, id', entries', declared, hshape', hcases, -, rfl⟩
      obtain ⟨rfl, rfl⟩ : id = id' ∧ entries = entries' := by rwa [hshape, Shape.object.injEq] at hshape'
      rw [hdeclared, htruthy, if_neg (by simp)] at hcases
      exact ⟨by simp, by rw [hnone, ← hcases]; rfl⟩
    · rintro ⟨-, rfl⟩
      exact ⟨rfl, id, entries, [], hshape, by rw [hdeclared, htruthy, if_neg (by simp)], by simp, hnone⟩
  | true =>
    have hsome : ∀ {i : Nat} {fields : Entries Value}, s.shape (s.declared op "responses") = .object i fields →
        s.responses op = fields := fun hfields => by
      rw [responses, entries?_eq_some.mpr ⟨_, hfields⟩, Option.getD_some]
    constructor
    · rintro ⟨-, id', entries', declared, hshape', hcases, -, rfl⟩
      obtain ⟨rfl, rfl⟩ : id = id' ∧ entries = entries' := by rwa [hshape, Shape.object.injEq] at hshape'
      rw [hdeclared, htruthy, if_pos rfl] at hcases
      obtain ⟨i, hfields⟩ := hcases
      exact ⟨fun _ => ⟨i, declared, hfields⟩, by rw [hsome hfields, ofPairs_displayed (hkeyed _ _ hfields)]⟩
    · rintro ⟨hobject, rfl⟩
      obtain ⟨i, fields, hfields⟩ := hobject rfl
      refine ⟨rfl, id, entries, fields, hshape, by rw [hdeclared, htruthy, if_pos rfl]; exact ⟨i, hfields⟩, fun e he => ?_, ?_⟩
      · obtain ⟨text, heq⟩ := (hkeyed _ _ hfields).exists_text e.1 (List.mem_map_of_mem he)
        rw [heq]
        rfl
      · rw [hsome hfields, ofPairs_displayed (hkeyed _ _ hfields)]

end Store

namespace Edit

variable {root T c : Nat} {entries : Entries Value} {table : SchemaTable} {op : Operation} {media tagged : Value → Prop}

theorem Mark.mem_markKeys {names : Option MethodNames} (h : Mark names op key v) : key ∈ markKeys names := by
  cases h with
  | handle role j => exact operationKey_mem_markKeys role
  | encoding => exact encodingKey_mem_markKeys
  | name hnames _ =>
    obtain rfl := hnames
    simp [markKeys]

/-- What an operation declares is ordinary. -/
theorem ordinary_declared (hopened : Opened s root c T entries)
    (hcontent : IsContent root (deepGates s root (entries.get? "paths") c T) True ⟨s, {i | i < s.cells.size}⟩ op.content)
    (key : String) : Ordinary s root c T entries (s.declared op key) := by
  by_cases hobject : s.IsObject op.content
  · obtain ⟨id, fields, hshape⟩ := hobject
    rw [Store.declared_eq hshape]
    refine hopened.gated_deepGates.free_field hcontent.writable.linked hshape fun g hg howner => ?_
    exact absurd howner ((hcontent.writable id (Store.shape_eq_object.mp hshape).1).2.2 g hg).1
  · have hnone : s.declared op key = .null := by
      cases hentries : s.entries? op.content with
      | none => simp [Store.declared, Store.field?, hentries]
      | some fields => exact absurd ((Store.entries?_eq_some.mp hentries).imp fun id h => ⟨fields, h⟩) hobject
    exact hnone ▸ ordinary_scalar .null

section

variable (hopened : Opened s root c T entries)
  (hcontent : IsContent root (deepGates s root (entries.get? "paths") c T) True ⟨s, {i | i < s.cells.size}⟩ op.content)
include hopened hcontent

theorem ordinary_responses : ∀ e ∈ s.responses op, Ordinary s root c T entries e.2 := by
  intro e he
  rw [Store.responses] at he
  cases hfields : s.entries? (s.declared op "responses") with
  | none => simp [hfields] at he
  | some fields =>
    rw [hfields, Option.getD_some] at he
    obtain ⟨id, hshape⟩ := Store.entries?_eq_some.mp hfields
    exact hopened.ordinary_entry (ordinary_declared hopened hcontent "responses") hshape he

theorem ordinary_success : Ordinary s root c T entries (((s.responses op).get? "200").getD .null) := by
  cases hget : (s.responses op).get? "200" with
  | none => exact ordinary_scalar .null
  | some w => exact ordinary_responses hopened hcontent _ (Entries.mem_of_get? hget)

end

namespace Steady

variable (h : Steady s t root c T entries table op media tagged) (hobject : s.IsObject op.content)
include h hobject

/-- What adoption puts into an operation are marks. -/
theorem declared_eq (hkey : key ∉ markKeys none) : t.declared op key = s.declared op key := by
  refine congrArg (Option.getD · .null) (h.puts.field?_eq hobject.lt fun i w hi hc => ?_)
  cases hc with
  | registered hT role w =>
    refine ((h.content.writable _ (hi.trans (hT.symm.trans h.node))).2.2 ⟨c, "schemas", T⟩
      (documentGates_subset (mem_documentGates.mpr (.inr (.inr rfl))))).2 rfl (by simp [wayKeys])
  | mark _ hm => exact hkey hm.mem_markKeys
  | schema hm => exact h.content_ne (h.media_place i hm).1 hi
  | tag hr =>
    rcases h.tagged_new i hr with hv | hle
    · exact h.content_ne hv hi
    · exact absurd (hobject.lt i hi) (by omega)

/-- What an operation declares itself is neither a media type nor a schema. -/
theorem shape_declared (hkey : key ∉ markKeys none) (hmedia : key ∉ contentTypes) :
    t.shape (t.declared op key) = s.shape (s.declared op key) := by
  rw [h.declared_eq hobject hkey]
  have hordinary := ordinary_declared h.opened h.content key
  cases hvalue : s.declared op key with
  | scalar a => rfl
  | node i =>
    rw [hvalue] at hordinary
    obtain ⟨id, fields, hshape⟩ := hobject
    rw [Store.declared_eq hshape, Store.getD_eq_node] at hvalue
    obtain ⟨hnode, hcell⟩ := Store.shape_eq_object.mp hshape
    have hstands := stands_of_get? hcell hvalue
    refine h.shape_eq hordinary (h.not_media_of_stands hstands fun type htype heq => hmedia ?_) fun hr =>
      (h.owner_of_tagged hr hstands).2 hnode
    obtain rfl : key = type := by simpa using heq
    exact htype

theorem responses_eq : t.responses op = s.responses op := by
  have hshape : t.shape (t.declared op "responses") = s.shape (s.declared op "responses") :=
    h.shape_declared hobject (by decide) (by decide)
  rw [Store.responses, Store.responses, Store.entries?, Store.entries?, hshape]

/-- The responses that are gone through are the declared ones. -/
theorem runs_responsesOf_iff {found : Entries Value} : Runs (responsesOf op) t found t ↔
    (t.isTruthy (t.declared op "responses") = true → t.IsObject (t.declared op "responses")) ∧ found = s.responses op := by
  have hshape : t.shape (t.declared op "responses") = s.shape (s.declared op "responses") :=
    h.shape_declared hobject (by decide) (by decide)
  rw [Store.runs_responses_iff (h.puts.isObject hobject) fun id fields hfields =>
    h.opened.textKeyed _ _ (Store.shape_eq_object.mp (hshape ▸ hfields)).2, h.responses_eq hobject]

end Steady

end Edit

end DeviceApi
