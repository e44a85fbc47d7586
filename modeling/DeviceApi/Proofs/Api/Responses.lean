import DeviceApi.Proofs.Api.Classified
import DeviceApi.Proofs.Api.Chains
import DeviceApi.Proofs.Api.Marks
import DeviceApi.Proofs.Schema.Optional

/-!
# Responses of classified operations

Besides the successful response an operation has two others, with a text as their only content. What
classification compares are copies of them in which optional keywords have been left out. So the codes, the
media types and the keywords of the schema are not the only keys: optional keywords may stand beside them.
-/

namespace DeviceApi

variable {s s' t : Store} {root v w : Value} {name : String}

namespace Store

/-- The response has a content in plain text and in no other media type, and its schema leads to that of a
text. -/
def AnswersInText (s : Store) (root response : Value) : Prop :=
  ∃ content media schema target, s.Shows response "content" content ∧ s.Shows content "text/plain" media ∧
    s.Shows media "schema" schema ∧ s.dereference root schema = .ok target ∧
      s.Shows target "type" (.text "string")

/-- The codes are those of success and of two errors, which are answered in text, and optional keywords. -/
structure Responds (s : Store) (root : Value) (responses : Entries Value) : Prop where
  code_cases : ∀ code ∈ responses.keys, (∃ c ∈ ["200", "400", "500"], code = .text c) ∨ isOptionalKeyword code = true
  success : .text "200" ∈ responses.keys
  error : ∀ code ∈ ["400", "500"], ∃ declared response, responses.get? (.text code) = some declared ∧
    s.dereference root declared = .ok response ∧ s.AnswersInText root response

theorem HasShape.shows_type (h : s.HasShape v textShape) : s.Shows v "type" (.text "string") := by
  obtain ⟨w, hshows, hw⟩ := h.exists_shows (by decide)
  exact hw.text (by decide) ▸ hshows

/-- What shows a type is no reference. -/
theorem Shows.dereference_eq (h : s.Shows v "type" w) : s.dereference root v = .ok v := by
  obtain ⟨id, entries, key, hshape, he, hkey, hkeys⟩ := h
  refine dereference_of_not_isReference ?_
  rw [isReference, entries?_eq_some.mpr ⟨id, hshape⟩]
  refine Bool.eq_false_iff.mpr fun hhas => ?_
  obtain ⟨text, htext, hcases⟩ := hkeys _ (Entries.has_text.mp hhas)
  obtain rfl : referenceKey = text := Except.ok.inj htext
  revert hcases
  decide

theorem HasShape.exists_schema (root : Value) (h : s.HasShape v (.ofFields [("schema", textShape)])) :
    ∃ schema target, s.Shows v "schema" schema ∧ s.dereference root schema = .ok target ∧
      s.Shows target "type" (.text "string") := by
  obtain ⟨schema, hshows, hschema⟩ := h.exists_shows (by decide)
  exact ⟨schema, schema, hshows, hschema.shows_type.dereference_eq, hschema.shows_type⟩

/-- A content that has not been copied is in plain text if it has the shape of one. -/
theorem HasShape.exists_media (root : Value) (h : s.HasShape v (.ofFields [("text/plain", .ofFields [("schema", textShape)])])) :
    ∃ media schema target, s.Shows v "text/plain" media ∧ s.Shows media "schema" schema ∧
      s.dereference root schema = .ok target ∧ s.Shows target "type" (.text "string") := by
  obtain ⟨media, hshows, hmedia⟩ := h.exists_shows (by decide)
  obtain ⟨schema, target, hrest⟩ := hmedia.exists_schema root
  exact ⟨media, schema, target, hshows, hrest⟩

end Store

namespace Edit

variable {s s' t t' : Store} {root : Nat} {gates : Set Gate} {K : Set Nat} {u : Unit} {v w : Value} {op : Operation}
  {table : SchemaTable}

/-- A media type with its object, and what stands in their place in the copy of a content. -/
def Expanded (root : Value) (s s' : Store) (e b : Scalar × Value) : Prop :=
  b.1 = e.1 ∧ ∃ t, s.Grows t ∧ t.Grows s' ∧
    ((t.entries? e.2 = none ∧ b.2 = e.2) ∨ ∃ fields target j, t.entries? e.2 = some fields ∧
      t.dereference root ((fields.get? "schema").getD .null) = .ok target ∧ b.2 = .node j ∧
      s'.cells[j]? = some (.object (fields.put "schema" target)))

/-- A copy of a media type object in which its schema stands in place of a reference, if it is an object. -/
def expandMedia (root : Value) (e : Scalar × Value) : Edit (Scalar × Value) := do
  match (← get).entries? e.2 with
  | none => return e
  | some fields =>
    let schema ← dereference root ((fields.get? "schema").getD .null)
    return (e.1, ← newObject (fields.put "schema" schema))

theorem grows_expandMedia {e b : Scalar × Value} {root : Value} (h : Runs (expandMedia root e) s b s') :
    s.Grows s' := by
  rw [expandMedia, runs_get_bind] at h
  split at h
  · obtain ⟨-, rfl⟩ := runs_pure.mp h
    exact .refl s
  · simp only [runs_bind, runs_dereference, runs_newObject, runs_pure] at h
    obtain ⟨_, _, ⟨-, rfl⟩, _, _, ⟨-, rfl⟩, -, rfl⟩ := h
    exact .add s _

theorem expanded_of_runs {e b : Scalar × Value} {root : Value} {s₀ s₁ : Store} (hfirst : s₀.Grows s)
    (h : Runs (expandMedia root e) s b s') (hlast : s'.Grows s₁) : Expanded root s₀ s₁ e b := by
  have hgrows := grows_expandMedia h
  rw [expandMedia, runs_get_bind] at h
  split at h
  · next hnone =>
    obtain ⟨rfl, rfl⟩ := runs_pure.mp h
    exact ⟨rfl, s, hfirst, hlast, .inl ⟨hnone, rfl⟩⟩
  · next fields hfields =>
    simp only [runs_bind, runs_dereference, runs_newObject, runs_pure] at h
    obtain ⟨target, _, ⟨htarget, rfl⟩, _, _, ⟨rfl, rfl⟩, rfl, rfl⟩ := h
    refine ⟨rfl, s, hfirst, hgrows.trans hlast, .inr ⟨fields, target, s.cells.size, hfields, htarget, rfl, ?_⟩⟩
    rw [hlast.agree _ (by simp), Store.cells_add, if_pos rfl]

theorem Expanded.grow {e b : Scalar × Value} {root : Value} (h : Expanded root s s' e b) (hgrows : s'.Grows t) :
    Expanded root s t e b := by
  obtain ⟨hkey, u, hfirst, hlast, ⟨hnone, heq⟩ | ⟨fields, target, j, hfields, htarget, heq, hcell⟩⟩ := h
  · exact ⟨hkey, u, hfirst, hlast.trans hgrows, .inl ⟨hnone, heq⟩⟩
  · refine ⟨hkey, u, hfirst, hlast.trans hgrows, .inr ⟨fields, target, j, hfields, htarget, heq, ?_⟩⟩
    exact (hgrows.agree j (Store.lt_size_of_cell hcell)).trans hcell

/-- The copy of a response holds its entries. If it has a content, then a copy of that stands in its place. -/
theorem runs_expandResponse {root : Value} (h : Runs (expandResponse root v) s w s') :
    ∃ id entries copy, s.shape v = .object id entries ∧ w = .node copy ∧
      ((s.entries? ((entries.get? "content").getD .null) = none ∧ s'.cells[copy]? = some (.object entries)) ∨
        ∃ content expanded j, s.entries? ((entries.get? "content").getD .null) = some content ∧
          List.Forall₂ (Expanded root s s') content expanded ∧ s'.cells[j]? = some (.object expanded) ∧
          s'.cells[copy]? = some (.object (entries.put "content" (.node j)))) := by
  rw [expandResponse, runs_bind] at h
  obtain ⟨entries, t, hentries, h⟩ := h
  obtain ⟨⟨id, hshape⟩, rfl⟩ := runs_entriesOf.mp hentries
  refine ⟨id, entries, ?_⟩
  rw [runs_get_bind] at h
  split at h
  · next hnone =>
    obtain ⟨rfl, rfl⟩ := runs_newObject.mp h
    exact ⟨_, hshape, rfl, .inl ⟨hnone, by rw [Store.cells_add, if_pos rfl]⟩⟩
  · next content hcontent =>
    obtain ⟨expanded, t₁, hexpanded, h⟩ := runs_bind.mp h
    obtain ⟨_, t₂, hnew, hcopy⟩ := runs_bind.mp h
    obtain ⟨rfl, rfl⟩ := runs_newObject.mp hnew
    obtain ⟨rfl, rfl⟩ := runs_newObject.mp hcopy
    have hsize : t₁.cells.size ≠ (t₁.add (.object expanded)).2.cells.size := by simp
    refine ⟨_, hshape, rfl, .inr ⟨content, expanded, t₁.cells.size, hcontent, ?_, ?_, ?_⟩⟩
    · have hlast : t₁.Grows _ := (Store.Grows.add t₁ (.object expanded)).trans (.add _ (.object
        (entries.put "content" (.node t₁.cells.size))))
      refine (forall₂_of_runs_mapM hexpanded ?_).imp ?_
      · intro e b t t' he
        exact grows_expandMedia he
      · rintro e b ⟨t, t', hfirst, he, hsecond⟩
        exact expanded_of_runs hfirst he (hsecond.trans hlast)
    · rw [Store.cells_add, if_neg hsize, Store.cells_add, if_pos rfl]
    · rw [Store.cells_add, if_pos rfl]
      rfl

theorem fst_of_errorResponse {code : Scalar} {b : Scalar × Value} {root : Value}
    (h : Runs (errorResponse root op code v) s b s') : b.1 = code := by
  simp only [errorResponse, runs_bind, runs_dereference, runs_get] at h
  obtain ⟨response, _, ⟨-, rfl⟩, _, _, ⟨rfl, rfl⟩, h⟩ := h
  split at h
  · simp only [runs_bind, not_runs_refuse, false_and, exists_false] at h
  · simp only [runs_bind, runs_pure] at h
    obtain ⟨_, _, -, rfl, -⟩ := h
    rfl

/-! ## What is compared -/

theorem keys_expanded {content expanded : Entries Value} {root : Value}
    (h : List.Forall₂ (Expanded root s s') content expanded) : Entries.keys expanded = Entries.keys content :=
  Entries.keys_eq_of_forall₂ h fun _ _ he => he.1

section

variable (hgated : View.Gated root gates ⟨s, K⟩)
include hgated

/-- If the object that stands in the place of a media type has the shape of one for texts, then the media type
has a schema that leads to that of a text. -/
theorem schema_of_expanded {e b : Scalar × Value} (he : View.Linked ⟨s, K⟩ e.2)
    (h : Expanded (.node root) s s' e b) (hshape : s'.HasShape b.2 (.ofFields [("schema", textShape)])) :
    ∃ schema target, s'.Shows e.2 "schema" schema ∧ s'.dereference (.node root) schema = .ok target ∧
      s'.Shows target "type" (.text "string") := by
  obtain ⟨-, t, hfirst, hlast, ⟨-, heq⟩ | ⟨fields, target, j, hfields, htarget, heq, hcell⟩⟩ := h
  · exact (heq ▸ hshape).exists_schema _
  · obtain ⟨id, hid⟩ := Store.entries?_eq_some.mp hfields
    have hgated' := hgated.grow hfirst
    have hmedia : s'.shape e.2 = .object id fields := (hgated'.shape_eq_grow hlast he).trans hid
    obtain ⟨x, hshows, hx⟩ := (heq ▸ hshape).exists_shows (by decide)
    rcases hshows.of_put (Store.shape_node hcell) hmedia with hold | ⟨rfl, hput⟩
    · exact ⟨x, x, hold, hx.shows_type.dereference_eq, hx.shows_type⟩
    · cases hget : fields.get? "schema" with
      | none =>
        -- Nothing is no schema.
        rw [hget, Option.getD_none, Store.dereference_of_not_isReference rfl, Except.ok.injEq] at htarget
        obtain ⟨_, _, _, hnull, -⟩ := (htarget ▸ hx).shows_type
        simp [Store.shape] at hnull
      | some schema =>
        rw [hget, Option.getD_some] at htarget
        have hlinked : View.Linked ⟨t, K⟩ schema := hgated'.linked_entry he hid (Entries.mem_of_get? hget)
        exact ⟨schema, x, hput schema hget, (hgated'.dereference_grow hlast hlinked).mpr htarget, hx.shows_type⟩

theorem linked_of_shows (hv : View.Linked ⟨s, K⟩ v) {name : String} (h : s.Shows v name w) :
    View.Linked ⟨s, K⟩ w := by
  obtain ⟨id, entries, key, hshape, he, -⟩ := h
  exact hgated.linked_entry hv hshape he

/-- A response that answers in text does so before nodes are added, too. -/
theorem answersInText_of_grow (hgrows : s.Grows s') (hv : View.Linked ⟨s, K⟩ v)
    (h : s'.AnswersInText (.node root) v) : s.AnswersInText (.node root) v := by
  have hbefore : ∀ {v w : Value} {name : String}, View.Linked ⟨s, K⟩ v → s'.Shows v name w → s.Shows v name w := by
    intro v w name hv hshows
    obtain ⟨id, entries, key, hshape, hrest⟩ := hshows
    exact ⟨id, entries, key, (hgated.shape_eq_grow hgrows hv).symm.trans hshape, hrest⟩
  obtain ⟨content, media, schema, target, hcontent, hmedia, hschema, htarget, htype⟩ := h
  have hcontent := hbefore hv hcontent
  have hcontentLinked := linked_of_shows hgated hv hcontent
  have hmedia := hbefore hcontentLinked hmedia
  have hmediaLinked := linked_of_shows hgated hcontentLinked hmedia
  have hschema := hbefore hmediaLinked hschema
  have hschemaLinked := linked_of_shows hgated hmediaLinked hschema
  have htarget := (hgated.dereference_grow hgrows hschemaLinked).mp htarget
  exact ⟨content, media, schema, target, hcontent, hmedia, hschema, htarget,
    hbefore (hgated.linked_dereference hschemaLinked htarget) htype⟩

/-- A response answers in text if what is compared of it has the shape of an error response. -/
theorem answersInText_of_hasShape {op : Operation} {code : Scalar} {b : Scalar × Value} {t : Store}
    (hv : View.Linked ⟨s, K⟩ v) (h : Runs (errorResponse (.node root) op code v) s b t) (hlast : t.Grows s')
    (hshape : s'.HasShape b.2 errorResponseShape) :
    ∃ response, s.dereference (.node root) v = .ok response ∧ s.AnswersInText (.node root) response := by
  simp only [errorResponse, runs_bind, runs_dereference, runs_get] at h
  obtain ⟨response, _, ⟨hresponse, rfl⟩, _, _, ⟨rfl, rfl⟩, h⟩ := h
  split at h
  · simp only [runs_bind, not_runs_refuse, false_and, exists_false] at h
  · simp only [runs_bind, runs_pure] at h
    obtain ⟨w, t₁, hexpand, rfl, rfl⟩ := h
    have hlinked := hgated.linked_dereference hv hresponse
    have hgrows := (grows_expandResponse hexpand).trans hlast
    refine ⟨response, hresponse, answersInText_of_grow hgated hgrows hlinked ?_⟩
    obtain ⟨id, entries, copy, hentries, rfl, hcases⟩ := runs_expandResponse hexpand
    have hentries' : s'.shape response = .object id entries :=
      (hgated.shape_eq_grow hgrows hlinked).trans hentries
    have hkept : ∀ {i : Nat} {cell : Cell}, t₁.cells[i]? = some cell → s'.cells[i]? = some cell :=
      fun hcell => (hlast.agree _ (Store.lt_size_of_cell hcell)).trans hcell
    obtain ⟨x, hshows, hx⟩ := Store.HasShape.exists_shows hshape (by decide)
    -- A content of which no copy stands in the copy of the response is looked at as it is.
    have hdirect : s'.Shows response "content" x → s'.AnswersInText (.node root) response := by
      intro hcontent
      obtain ⟨media, schema, target, hrest⟩ := hx.exists_media (.node root)
      exact ⟨x, media, schema, target, hcontent, hrest⟩
    rcases hcases with ⟨-, hcell⟩ | ⟨content, expanded, j, hcontent, hall, hcell, hcopy⟩
    · exact hdirect (hshows.congr (Store.shape_node (hkept hcell)) hentries')
    · rcases hshows.of_put (Store.shape_node (hkept hcopy)) hentries' with hold | ⟨rfl, hput⟩
      · exact hdirect hold
      · obtain ⟨idContent, hid⟩ := Store.entries?_eq_some.mp hcontent
        obtain ⟨c, hc⟩ : ∃ c, entries.get? "content" = some c := by
          cases hget : entries.get? "content" with
          | none => simp [hget, Store.shape] at hid
          | some c => exact ⟨c, rfl⟩
        rw [hc, Option.getD_some] at hid
        have hcLinked : View.Linked ⟨s, K⟩ c := hgated.linked_entry hlinked hentries (Entries.mem_of_get? hc)
        obtain ⟨y, ⟨j', others, key, hothers, hy, hkey, hkeys⟩, hyShape⟩ := hx.exists_shows (by decide)
        obtain rfl : others = expanded := by
          rw [Store.shape_node (hkept hcell), Shape.object.injEq] at hothers
          exact hothers.2.symm
        obtain ⟨e, he, hexpanded⟩ := exists_mem_of_forall₂_right hall hy
        obtain ⟨schema, target, hrest⟩ := schema_of_expanded hgated (hgated.linked_entry hcLinked hid he)
          (hexpanded.grow hlast) hyShape
        obtain rfl : key = e.1 := hexpanded.1
        have hid' : s'.shape c = .object idContent content :=
          (hgated.shape_eq_grow hgrows hcLinked).trans hid
        rw [keys_expanded hall] at hkeys
        exact ⟨c, e.2, schema, target, hput c hc, ⟨idContent, content, e.1, hid', he, hkey, hkeys⟩, hrest⟩

end

/-! ## The responses of an operation -/

/-- Classification of the responses checks the others before it adopts the content of the successful one. -/
theorem runs_classifyResponses_iff {root : Value} : Runs (classifyResponses root table op) s u s' ↔
    ∃ responses errors t shape owner content, Runs (responsesOf op) s responses s ∧
      s.isNull ((responses.get? "200").getD .null) = false ∧
      Runs ((responses.remove "200").mapM fun e => errorResponse root op e.1 e.2) s errors t ∧
      ((t.add (.object errors)).2.tree (t.add (.object errors)).1).withoutOptional = .ok shape ∧
      shape.same errorResponsesShape = true ∧
      (t.add (.object errors)).2.dereference root ((responses.get? "200").getD .null) = .ok owner ∧
      Runs (contentOf root owner jsonContentType) (t.add (.object errors)).2 content (t.add (.object errors)).2 ∧
      Runs (adoptContent table op .response content) (t.add (.object errors)).2 u s' := by
  rw [classifyResponses, runs_bind]
  constructor
  · rintro ⟨responses, t, hresponses, h⟩
    obtain ⟨rfl, -⟩ := runs_responsesOf hresponses
    rw [runs_get_bind] at h
    split at h
    · simp only [runs_bind, not_runs_refuse, false_and, exists_false] at h
    · next hsuccess =>
      obtain ⟨errors, t₁, herrors, h⟩ := runs_bind.mp h
      simp only [runs_bind, runs_newObject, runs_treeOf, runs_ofExcept] at h
      obtain ⟨_, t₂, ⟨rfl, rfl⟩, _, _, ⟨rfl, rfl⟩, shape, _, ⟨hshape, rfl⟩, h⟩ := h
      split at h
      · simp only [runs_bind, not_runs_refuse, false_and, exists_false] at h
      · next hsame =>
        simp only [runs_bind, runs_explaining, runs_dereference] at h
        obtain ⟨content, t₂, ⟨owner, _, ⟨howner, rfl⟩, hcontent⟩, hadopt⟩ := h
        obtain ⟨rfl, -⟩ := runs_contentOf.mp hcontent
        exact ⟨responses, errors, t₁, shape, owner, content, hresponses, by simpa using hsuccess, herrors, hshape,
          by simpa using hsame, howner, hcontent, hadopt⟩
  · rintro ⟨responses, errors, t, shape, owner, content, hresponses, hsuccess, herrors, hshape, hsame, howner,
      hcontent, hadopt⟩
    refine ⟨responses, s, hresponses, ?_⟩
    rw [runs_get_bind, if_neg (by simpa using hsuccess)]
    refine runs_bind.mpr ⟨errors, t, herrors, ?_⟩
    simp only [runs_bind, runs_newObject, runs_treeOf, runs_ofExcept]
    refine ⟨_, _, ⟨rfl, rfl⟩, _, _, ⟨rfl, rfl⟩, shape, _, ⟨hshape, rfl⟩, ?_⟩
    rw [if_neg (by simpa using hsame)]
    simp only [runs_bind, runs_explaining, runs_dereference]
    exact ⟨content, _, ⟨owner, _, ⟨howner, rfl⟩, hcontent⟩, hadopt⟩

theorem runs_mapM_textOf {declared named : Entries Value} :
    Runs (declared.mapM fun e => return (.text (← textOf e.1), e.2)) s named s' ↔
      s = s' ∧ (∀ e ∈ declared, e.1.hasText = true) ∧ named = declared.map fun e => (.text e.1.display, e.2) := by
  induction declared generalizing named s with
  | nil =>
    simp only [runs_mapM_nil, List.not_mem_nil, false_implies, implies_true, List.map_nil, true_and]
    rw [eq_comm, and_comm]
  | cons e rest ih =>
    simp only [runs_mapM_cons, runs_bind, runs_textOf, runs_pure, ih, List.forall_mem_cons, List.map_cons]
    constructor
    · rintro ⟨_, _, ⟨_, _, ⟨⟨htext, rfl⟩, rfl⟩, rfl, rfl⟩, _, ⟨rfl, hrest, rfl⟩, rfl⟩
      exact ⟨rfl, ⟨htext, hrest⟩, rfl⟩
    · rintro ⟨rfl, ⟨htext, hrest⟩, rfl⟩
      exact ⟨_, s, ⟨_, s, ⟨⟨htext, rfl⟩, rfl⟩, rfl, rfl⟩, _, ⟨rfl, hrest, rfl⟩, rfl⟩

/-- The responses of an operation are those that it declares, if their codes have texts. -/
theorem runs_responsesOf_iff {responses : Entries Value} : Runs (responsesOf op) s responses s' ↔
    s = s' ∧ ∃ id entries declared, s.shape op.content = .object id entries ∧
      (if s.isTruthy ((entries.get? "responses").getD .null) then
        ∃ id', s.shape ((entries.get? "responses").getD .null) = .object id' declared
      else [] = declared) ∧ (∀ e ∈ declared, e.1.hasText = true) ∧
      responses = Entries.ofPairs (declared.map fun e => (.text e.1.display, e.2)) := by
  simp only [responsesOf, runs_bind, runs_fieldOf, runs_optionalEntries, runs_mapM_textOf, runs_pure]
  constructor
  · rintro ⟨_, _, ⟨⟨id, entries, hshape, rfl⟩, rfl⟩, declared, _, ⟨hdeclared, rfl⟩, named, t, ⟨rfl, htext, rfl⟩,
      rfl, rfl⟩
    exact ⟨rfl, id, entries, declared, hshape, hdeclared, htext, rfl⟩
  · rintro ⟨rfl, id, entries, declared, hshape, hdeclared, htext, rfl⟩
    exact ⟨_, s, ⟨⟨id, entries, hshape, rfl⟩, rfl⟩, declared, s, ⟨hdeclared, rfl⟩, _, s, ⟨rfl, htext, rfl⟩, rfl,
      rfl⟩

theorem exists_text_of_displayed (declared : Entries Value) :
    ∀ code ∈ Entries.keys (declared.map fun e => (Scalar.text e.1.display, e.2)), ∃ t, code = .text t := by
  intro code hcode
  obtain ⟨_, hpair, rfl⟩ := List.mem_map.mp hcode
  obtain ⟨e, -, rfl⟩ := List.mem_map.mp hpair
  exact ⟨_, rfl⟩

theorem textKeyed_responsesOf {responses : Entries Value} (h : Runs (responsesOf op) s responses s') :
    responses.TextKeyed := by
  obtain ⟨-, -, -, declared, -, -, rfl⟩ := runs_responsesOf h
  exact .putAll ⟨by simp, by simp⟩ (exists_text_of_displayed declared)

section

variable {responses errors : Entries Value} {shape : Tree} {root' : Value} (hkeyed : responses.TextKeyed)
  (herrors : Runs ((responses.remove "200").mapM fun e => errorResponse root' op e.1 e.2) s errors t)
  (hshape : ((t.add (.object errors)).2.tree (t.add (.object errors)).1).withoutOptional = .ok shape)
  (hsame : shape.same errorResponsesShape = true)
include hshape hsame

/-- What is compared of the responses shows the codes of the errors. -/
theorem fields_of_errors : (∀ key ∈ errors.keys, ∃ text, Json.keyText key = .ok text ∧
      (text ∈ ["400", "500"] ∨ text ∈ optionalKeywords)) ∧
    ∀ code ∈ ["400", "500"], ∃ e ∈ errors, Json.keyText e.1 = .ok code ∧
      (t.add (.object errors)).2.HasShape e.2 errorResponseShape := by
  have hobject : (t.add (.object errors)).2.HasShape (t.add (.object errors)).1 errorResponsesShape :=
    ⟨_, _, shape, hshape, hsame⟩
  obtain ⟨id, entries, hid, hkeys, hfields⟩ := hobject.object (by decide) (by decide)
  have hcell : (t.add (.object errors)).2.shape (t.add (.object errors)).1 = .object t.cells.size errors :=
    Store.shape_node (by rw [Store.cells_add, if_pos rfl])
  obtain rfl : entries = errors := by
    rw [hcell, Shape.object.injEq] at hid
    exact hid.2.symm
  exact ⟨hkeys, fun code hcode => hfields (code, errorResponseShape) (by simpa using hcode)⟩

include hkeyed herrors

/-- The others are compared with the responses of errors. So their codes are those of errors and optional
keywords. -/
theorem code_cases_of_errors {code : Scalar} (hcode : code ∈ responses.keys) :
    (∃ c ∈ ["200", "400", "500"], code = .text c) ∨ isOptionalKeyword code = true := by
  have hall := forall₂_of_runs_mapM herrors fun _ _ _ _ he => grows_errorResponse he
  obtain ⟨text, rfl⟩ := hkeyed.exists_text code hcode
  obtain ⟨⟨_, v⟩, he, rfl⟩ := List.mem_map.mp hcode
  by_cases htext : text = "200"
  · exact .inl ⟨"200", by simp, by rw [htext]⟩
  · have hmem : (.text text, v) ∈ responses.remove "200" := Entries.mem_remove_of_ne he (by simpa using htext)
    obtain ⟨b, hb, _, _, _, hrun, _⟩ := exists_mem_of_forall₂ hall hmem
    obtain ⟨text', htext', hcases⟩ := (fields_of_errors hshape hsame).1 b.1 (List.mem_map_of_mem hb)
    rw [fst_of_errorResponse hrun] at htext'
    obtain rfl : text = text' := Except.ok.inj htext'
    rcases hcases with hname | hoptional
    · exact .inl ⟨text, List.mem_cons_of_mem _ hname, rfl⟩
    · exact .inr (isOptionalKeyword_iff.mpr ⟨text, hoptional, rfl⟩)

end

/-- The responses of errors answer in text if what is compared of the others has the shape of error responses. -/
theorem answersInText_of_errors {responses errors : Entries Value} {shape : Tree} (hkeyed : responses.TextKeyed)
    (hgated : View.Gated root gates ⟨s, K⟩) (hlinked : ∀ e ∈ responses, View.Linked ⟨s, K⟩ e.2)
    (herrors : Runs ((responses.remove "200").mapM fun e => errorResponse (.node root) op e.1 e.2) s errors t)
    (hshape : ((t.add (.object errors)).2.tree (t.add (.object errors)).1).withoutOptional = .ok shape)
    (hsame : shape.same errorResponsesShape = true) {code : String} (hcode : code ∈ ["400", "500"]) :
    ∃ declared response, responses.get? (.text code) = some declared ∧
      s.dereference (.node root) declared = .ok response ∧ s.AnswersInText (.node root) response := by
  have hall := forall₂_of_runs_mapM herrors fun _ _ _ _ he => grows_errorResponse he
  obtain ⟨e, he, hkey, hfield⟩ := (fields_of_errors hshape hsame).2 code hcode
  obtain ⟨⟨key, v⟩, hx, t₁, t₂, hfirst, hrun, hlast⟩ := exists_mem_of_forall₂_right hall he
  rw [Entries.remove_eq_filter hkeyed.nodup, List.mem_filter] at hx
  obtain ⟨text, rfl⟩ := hkeyed.exists_text key (List.mem_map_of_mem hx.1)
  rw [fst_of_errorResponse hrun] at hkey
  obtain rfl : text = code := Except.ok.inj hkey
  have hv := hlinked _ hx.1
  have hgated₁ := hgated.grow hfirst
  obtain ⟨response, hresponse, hanswers⟩ := answersInText_of_hasShape hgated₁ hv hrun
    (hlast.trans (.add t _)) hfield
  have hresponse := (hgated.dereference_grow hfirst hv).mp hresponse
  exact ⟨v, response, Entries.get?_of_mem hkeyed.nodup hx.1, hresponse,
    answersInText_of_grow hgated hfirst (hgated.linked_dereference hv hresponse) hanswers⟩

/-- **The responses of a classified operation** are the successful one and two others that answer in text.
Nothing else stands beside them but values under optional keywords. -/
theorem responds_of_classifyResponses (hgated : View.Gated root gates ⟨s, K⟩)
    (hop : View.Linked ⟨s, K⟩ op.content) (h : Runs (classifyResponses (.node root) table op) s u s') :
    ∃ responses, Runs (responsesOf op) s responses s ∧ s.Responds (.node root) responses := by
  obtain ⟨responses, errors, t, shape, owner, content, hresponses, hsuccess, herrors, hshape, hsame, -⟩ :=
    runs_classifyResponses_iff.mp h
  have hkeyed := textKeyed_responsesOf hresponses
  refine ⟨responses, hresponses, fun code hcode => code_cases_of_errors hkeyed herrors hshape hsame hcode, ?_, ?_⟩
  · cases hget : responses.get? "200" with
    | none => simp [hget, Store.isNull, Store.shape] at hsuccess
    | some v => exact List.mem_map_of_mem (Entries.mem_of_get? hget)
  · exact fun code hcode => answersInText_of_errors hkeyed hgated
      (fun e he => linked_responsesOf hgated hop hresponses he) herrors hshape hsame hcode

/-- A response under another code is a violation, whatever it is, as long as the responses can be compared. -/
theorem refuses_other_code {responses errors : Entries Value} {shape : Tree} {root : Value} {code : Scalar}
    (hresponses : Runs (responsesOf op) s responses s)
    (hsuccess : s.isNull ((responses.get? "200").getD .null) = false)
    (herrors : Runs ((responses.remove "200").mapM fun e => errorResponse root op e.1 e.2) s errors t)
    (hshape : ((t.add (.object errors)).2.tree (t.add (.object errors)).1).withoutOptional = .ok shape)
    (hcode : code ∈ responses.keys) (hother : ∀ c ∈ ["200", "400", "500"], code ≠ .text c)
    (hcounts : isOptionalKeyword code = false) : ((classifyResponses root table op).runOn s).1 =
      .error (.violation (.errorResponses op.method op.path
        (Text.sorted ((Entries.keys (responses.remove "200")).map Scalar.display)))) := by
  have hdiffers : shape.same errorResponsesShape = false := by
    by_contra hsame
    rcases code_cases_of_errors (textKeyed_responsesOf hresponses) herrors hshape (by simpa using hsame) hcode with ⟨c, hc, heq⟩ | hoptional
    · exact hother c hc heq
    · simp [hcounts] at hoptional
  have hnew : Runs (newObject errors) t (t.add (.object errors)).1 (t.add (.object errors)).2 :=
    runs_newObject.mpr ⟨rfl, rfl⟩
  rw [classifyResponses, hresponses.runOn_bind, (runs_get.mpr ⟨rfl, rfl⟩ : Runs get s s s).runOn_bind,
    if_neg (by simpa using hsuccess), herrors.runOn_bind, hnew.runOn_bind, (runs_treeOf.mpr ⟨rfl, rfl⟩).runOn_bind,
    (runs_ofExcept.mpr ⟨hshape, rfl⟩).runOn_bind]
  simp only [hdiffers, Bool.not_false, if_true]
  rfl

/-! ## Before and after the request -/

/-- What classification puts into objects comes under none of the codes and under no optional keyword. -/
theorem Given.notMem_codes {names : Option MethodNames} {i : Nat} {key : String} (h : Given table names op i key v) :
    key ∉ "200" :: "400" :: "500" :: "responses" :: optionalKeywords := by
  cases h with
  | tag | schema => decide
  | registered role v =>
    intro hkey
    simp only [optionalKeywords, List.mem_cons, List.not_mem_nil, or_false] at hkey
    rcases hkey with heq | heq | heq | heq | heq | heq | heq | heq <;>
      · have hlist := congrArg (List.reverse ∘ String.toList) heq
        cases role <;>
          simp [Operation.schemaName, Role.text, String.toList_append] at hlist
  | mark _ h =>
    cases h with
    | handle role j => cases role <;> decide
    | encoding | name => decide

/-- If an operation responds as classified ones do, then classification has put nothing into its responses. -/
theorem responsesOf_of_puts {names : Option MethodNames} {responses : Entries Value} {root : Value} {id : Nat}
    {entries : Entries Value} (hputs : s.Puts (Given table names op) t) (hcontent : s.shape op.content = .object id entries)
    (hlt : ∀ i, (entries.get? "responses").getD .null = .node i → i < s.cells.size)
    (h : Runs (responsesOf op) t responses t') (hresponds : t.Responds root responses) :
    Runs (responsesOf op) s responses s := by
  obtain ⟨rfl, id', entries', declared, hcontent', hdeclared, htext, rfl⟩ := runs_responsesOf_iff.mp h
  obtain ⟨hnode, hcell⟩ := Store.shape_eq_object.mp hcontent
  -- The operation declares the same responses as before.
  have hget : entries'.get? "responses" = entries.get? "responses" := by
    obtain ⟨others, hothers, hkeys⟩ := hputs.object hcell
    rw [hnode, Store.shape_node hothers, Shape.object.injEq] at hcontent'
    obtain ⟨rfl, rfl⟩ := hcontent'
    rcases hkeys "responses" with heq | ⟨v, hgiven, -⟩
    · exact heq
    · exact absurd (by simp) hgiven.notMem_codes
  rw [hget] at hdeclared
  have hpresent : t.isTruthy ((entries.get? "responses").getD .null) = true := by
    by_contra hnot
    rw [if_neg hnot] at hdeclared
    subst hdeclared
    exact absurd hresponds.success (by simp [Entries.ofPairs])
  rw [if_pos hpresent] at hdeclared
  obtain ⟨i, hshape⟩ := hdeclared
  obtain ⟨hi, hcellt⟩ := Store.shape_eq_object.mp hshape
  have hlt := hlt i hi
  obtain ⟨before, hbefore⟩ : ∃ before, s.cells[i]? = some (.object before) := by
    have hcell : s.cells[i]? = some s.cells[i] := Array.getElem?_eq_getElem hlt
    by_contra hnot
    have hsame := hputs.cell_eq hcell fun others heq => hnot ⟨others, heq ▸ hcell⟩
    exact hnot ⟨declared, by rw [hcell, ← hsame, hcellt]⟩
  obtain ⟨added, hadded, hgiven⟩ := hputs.exists_putAll hbefore
  obtain rfl : declared = before.putAll added := by simpa [hcellt] using hadded
  obtain rfl : added = [] := by
    refine List.eq_nil_iff_forall_not_mem.mpr fun e he => ?_
    obtain ⟨key, hkey, hallowed⟩ := hgiven e he
    have htexts : ∀ key ∈ added.keys, ∃ t, key = .text t := by
      intro key hkey
      obtain ⟨e, he, rfl⟩ := List.mem_map.mp hkey
      exact (hgiven e he).imp fun _ h => h.1
    have hdeclared : .text key ∈ (before.putAll added).keys :=
      (Entries.mem_keys_putAll_of_text htexts).mpr (.inr (hkey ▸ List.mem_map_of_mem he))
    have hcode : .text key ∈ (Entries.ofPairs ((before.putAll added).map fun e =>
        (Scalar.text e.1.display, e.2))).keys := by
      refine (Entries.mem_keys_putAll_of_text (exists_text_of_displayed _)).mpr (.inr ?_)
      obtain ⟨e', he', heq⟩ := List.mem_map.mp hdeclared
      exact List.mem_map.mpr ⟨_, List.mem_map_of_mem he', by rw [heq]; rfl⟩
    refine hallowed.notMem_codes ?_
    rcases hresponds.code_cases _ hcode with ⟨c, hc, heq⟩ | hoptional
    · obtain rfl := Scalar.text.inj heq
      exact List.mem_append_left ("responses" :: optionalKeywords) hc
    · obtain ⟨name, hname, heq⟩ := isOptionalKeyword_iff.mp hoptional
      obtain rfl := Scalar.text.inj heq
      simp [hname]
  rw [Entries.putAll_nil] at *
  refine runs_responsesOf_iff.mpr ⟨rfl, id, entries, before, hcontent, ?_, htext, rfl⟩
  have hfilled : s.isTruthy ((entries.get? "responses").getD .null) = true := by
    rw [hi, Store.isTruthy, Store.shape_node hbefore]
    rwa [hi, Store.isTruthy, Store.shape_node hcellt] at hpresent
  rw [if_pos hfilled, hi]
  exact ⟨i, Store.shape_node hbefore⟩

end Edit

end DeviceApi
