import DeviceApi.Proofs.Api.Responses
import DeviceApi.Proofs.Schema.Written

/-!
# The comparison of error responses

The responses of errors are compared in copies, in which schemas stand in place of references. They are what is
expected just if all of them can be copied and those that count answer in text.
-/

namespace DeviceApi

variable {s s' t t' : Store} {root v w : Value} {name : String}

namespace Store

/-- The declared response leads to an object, and the schemas of its content lead somewhere. -/
def Expands (s : Store) (root declared : Value) : Prop :=
  ∃ response id entries, s.dereference root declared = .ok response ∧ s.shape response = .object id entries ∧
    ∀ types, s.entries? ((entries.get? "content").getD .null) = some types → ∀ e ∈ types, ∀ fields,
      s.entries? e.2 = some fields → ∃ target, s.dereference root ((fields.get? "schema").getD .null) = .ok target

/-- The responses of errors among the declared ones are what is expected, optional keywords aside. -/
structure Fails (s : Store) (root : Value) (responses : Entries Value) : Prop where
  expands : ∀ e ∈ responses, e.1 ≠ .text "200" → s.Expands root e.2
  code_cases : ∀ code ∈ responses.keys, (∃ c ∈ ["200", "400", "500"], code = .text c) ∨ isOptionalKeyword code = true
  error : ∀ code ∈ ["400", "500"], ∃ declared response, responses.get? (.text code) = some declared ∧
    s.dereference root declared = .ok response ∧ s.AnswersInText root response

/-- The values can be compared, and so can what stands in them and what they refer to. -/
structure Comparable (s : Store) (root : Value) (P : Value → Prop) : Prop where
  written : ∀ v, P v → s.Written v
  null : P .null
  entry : ∀ v id entries e, P v → s.shape v = .object id entries → e ∈ entries → P e.2
  refer : ∀ v w, P v → s.dereference root v = .ok w → P w

/-- The name that is shown is a key if the keys are texts. -/
theorem Shows.get?_eq {id : Nat} {entries : Entries Value} (h : s.Shows v name w)
    (hshape : s.shape v = .object id entries) (hkeyed : entries.TextKeyed) : entries.get? (.text name) = some w := by
  obtain ⟨_, others, key, hothers, he, hkey, -⟩ := h
  obtain rfl : entries = others := by
    rw [hshape, Shape.object.injEq] at hothers
    exact hothers.2
  obtain ⟨text, rfl⟩ := hkeyed.exists_text key (List.mem_map_of_mem he)
  obtain rfl : text = name := Except.ok.inj hkey
  exact Entries.get?_of_mem hkeyed.nodup he

theorem Shows.grow {root : Nat} {gates : Set Gate} {K : Set Nat} (h : s.Shows v name w)
    (hgated : View.Gated root gates ⟨s, K⟩) (hgrows : s.Grows s') (hv : View.Linked ⟨s, K⟩ v) : s'.Shows v name w := by
  obtain ⟨id, entries, key, hshape, hrest⟩ := h
  exact ⟨id, entries, key, (hgated.shape_eq_grow hgrows hv).trans hshape, hrest⟩

/-- Something else may be put under the name that is shown. -/
theorem Shows.put {id j : Nat} {entries : Entries Value} {v' x : Value} (h : s.Shows v name w)
    (hv : s.shape v = .object id entries) (hv' : s'.shape v' = .object j (entries.put (.text name) x)) :
    s'.Shows v' name x := by
  obtain ⟨_, others, key, hothers, he, hkey, hkeys⟩ := h
  obtain rfl : entries = others := by
    rw [hv, Shape.object.injEq] at hothers
    exact hothers.2
  refine ⟨j, _, .text name, hv', Entries.mem_of_get? Entries.get?_put_self, rfl, fun k hk => ?_⟩
  rcases Entries.mem_keys_put.mp hk with hold | rfl
  · exact hkeys k hold
  · exact ⟨name, rfl, .inl rfl⟩

theorem Comparable.field {P : Value → Prop} (h : s.Comparable root P) {id : Nat} {entries : Entries Value}
    {key : String} (hv : P v) (hshape : s.shape v = .object id entries) : P ((entries.get? (.text key)).getD .null) := by
  cases hget : entries.get? (.text key) with
  | none => exact h.null
  | some w => exact h.entry v id entries _ hv hshape (Entries.mem_of_get? hget)

end Store

namespace Edit

variable {root : Nat} {gates : Set Gate} {K : Set Nat} {P : Value → Prop} {op : Operation}

/-- The response that a declared one leads to is copied. -/
theorem runs_errorResponse {root : Value} {code : Scalar} {b : Scalar × Value}
    (h : Runs (errorResponse root op code v) s b s') :
    ∃ response w, s.dereference root v = .ok response ∧ Runs (expandResponse root response) s w s' ∧ b = (code, w) := by
  simp only [errorResponse, runs_bind, runs_dereference, runs_get] at h
  obtain ⟨response, _, ⟨hresponse, rfl⟩, _, _, ⟨rfl, rfl⟩, h⟩ := h
  split at h
  · simp only [runs_bind, not_runs_refuse, false_and, exists_false] at h
  · simp only [runs_bind, runs_pure] at h
    obtain ⟨w, _, hexpand, rfl, rfl⟩ := h
    exact ⟨response, w, hresponse, hexpand, rfl⟩

/-- The responses of errors are copied into new nodes. -/
theorem grows_errorResponses {root : Value} {responses errors : Entries Value}
    (h : Runs ((responses.remove "200").mapM fun e => errorResponse root op e.1 e.2) s errors t) :
    s.Grows (t.add (.object errors)).2 :=
  (h.mapM_induct Store.Grows .refl (fun _ _ _ => .trans) fun _ _ _ _ _ hx => grows_errorResponse hx).trans (.add _ _)

theorem Expanded.of_grows {e b : Scalar × Value} {root : Value} (h : Expanded root t s' e b) (hgrows : s.Grows t) :
    Expanded root s s' e b := by
  obtain ⟨hkey, u, hfirst, hrest⟩ := h
  exact ⟨hkey, u, hgrows.trans hfirst, hrest⟩

/-- Going through a list answers for each item if every step adds nodes only and answers whatever has been added
before. -/
theorem exists_runs_mapM {α β : Type} {f : α → Edit β} {xs : List α}
    (h : ∀ x ∈ xs, ∀ t, s.Grows t → ∃ b t', Runs (f x) t b t' ∧ t.Grows t') :
    ∃ bs s', Runs (xs.mapM f) s bs s' ∧ s.Grows s' := by
  induction xs generalizing s with
  | nil => exact ⟨[], s, runs_mapM_nil.mpr ⟨rfl, rfl⟩, .refl s⟩
  | cons x xs ih =>
    obtain ⟨b, t, hb, hgrows⟩ := h x List.mem_cons_self s (.refl s)
    obtain ⟨bs, s', hbs, hrest⟩ := ih fun y hy u hu => h y (List.mem_cons_of_mem _ hy) u (hgrows.trans hu)
    exact ⟨b :: bs, s', runs_mapM_cons.mpr ⟨b, t, hb, bs, hbs, rfl⟩, hgrows.trans hrest⟩

section

variable (hgated : View.Gated root gates ⟨s, K⟩)
include hgated

theorem entries?_eq_grow (hgrows : s.Grows t) (hv : View.Linked ⟨s, K⟩ v) : t.entries? v = s.entries? v := by
  simp only [Store.entries?, hgated.shape_eq_grow hgrows hv]

theorem exists_runs_expandMedia {e : Scalar × Value} (he : View.Linked ⟨s, K⟩ e.2)
    (h : ∀ fields, s.entries? e.2 = some fields →
      ∃ target, s.dereference (.node root) ((fields.get? "schema").getD .null) = .ok target)
    (hgrows : s.Grows t) : ∃ b t', Runs (expandMedia (.node root) e) t b t' ∧ t.Grows t' := by
  rw [expandMedia]
  cases hfields : s.entries? e.2 with
  | none =>
    refine ⟨e, t, runs_get_bind.mpr ?_, .refl t⟩
    rw [entries?_eq_grow hgated hgrows he, hfields]
    exact runs_pure.mpr ⟨rfl, rfl⟩
  | some fields =>
    obtain ⟨target, htarget⟩ := h fields hfields
    obtain ⟨id, hshape⟩ := Store.entries?_eq_some.mp hfields
    have htarget := (hgated.dereference_grow hgrows (hgated.linked_field he hshape)).mpr htarget
    refine ⟨(e.1, (t.add (.object (fields.put "schema" target))).1), _, runs_get_bind.mpr ?_,
      .add t (.object (fields.put "schema" target))⟩
    rw [entries?_eq_grow hgated hgrows he, hfields]
    simp only [runs_bind, runs_dereference, runs_newObject, runs_pure]
    exact ⟨target, t, ⟨htarget, rfl⟩, _, _, ⟨rfl, rfl⟩, rfl, rfl⟩

theorem exists_runs_expandResponse {response : Value} {id : Nat} {entries : Entries Value}
    (hresponse : View.Linked ⟨s, K⟩ response) (hshape : s.shape response = .object id entries)
    (h : ∀ types, s.entries? ((entries.get? "content").getD .null) = some types → ∀ e ∈ types, ∀ fields,
      s.entries? e.2 = some fields →
        ∃ target, s.dereference (.node root) ((fields.get? "schema").getD .null) = .ok target)
    (hgrows : s.Grows t) : ∃ b t', Runs (expandResponse (.node root) response) t b t' ∧ t.Grows t' := by
  have hcontent : View.Linked ⟨s, K⟩ ((entries.get? "content").getD .null) := hgated.linked_field hresponse hshape
  have hentries : Runs (entriesOf response) t entries t :=
    runs_entriesOf.mpr ⟨⟨id, (hgated.shape_eq_grow hgrows hresponse).trans hshape⟩, rfl⟩
  rw [expandResponse]
  cases htypes : s.entries? ((entries.get? "content").getD .null) with
  | none =>
    refine ⟨(t.add (.object entries)).1, _, runs_bind.mpr ⟨entries, t, hentries, runs_get_bind.mpr ?_⟩,
      .add t (.object entries)⟩
    rw [entries?_eq_grow hgated hgrows hcontent, htypes]
    exact runs_newObject.mpr ⟨rfl, rfl⟩
  | some types =>
    obtain ⟨idContent, hid⟩ := Store.entries?_eq_some.mp htypes
    obtain ⟨expanded, t', hexpanded, hgrows'⟩ := exists_runs_mapM fun e he u hu =>
      exists_runs_expandMedia hgated (hgated.linked_entry hcontent hid he) (h types htypes e he) (hgrows.trans hu)
    let copied := t'.add (.object expanded)
    let copy : Cell := .object (entries.put "content" copied.1)
    refine ⟨(copied.2.add copy).1, (copied.2.add copy).2,
      runs_bind.mpr ⟨entries, t, hentries, runs_get_bind.mpr ?_⟩, hgrows'.trans ((Store.Grows.add t' _).trans (.add _ _))⟩
    rw [entries?_eq_grow hgated hgrows hcontent, htypes]
    exact runs_bind.mpr ⟨expanded, t', hexpanded, runs_bind.mpr ⟨copied.1, copied.2, runs_newObject.mpr ⟨rfl, rfl⟩,
      runs_newObject.mpr ⟨rfl, rfl⟩⟩⟩

/-- A response that can be expanded is taken into the comparison. -/
theorem exists_runs_errorResponse {code : Scalar} (hv : View.Linked ⟨s, K⟩ v) (h : s.Expands (.node root) v)
    (hgrows : s.Grows t) : ∃ b t', Runs (errorResponse (.node root) op code v) t b t' ∧ t.Grows t' := by
  obtain ⟨response, id, entries, hresponse, hshape, htypes⟩ := h
  have hlinked := hgated.linked_dereference hv hresponse
  obtain ⟨b, t', hexpand, hgrows'⟩ := exists_runs_expandResponse hgated hlinked hshape htypes hgrows
  refine ⟨(code, b), t', ?_, hgrows'⟩
  have hsome : t.entries? response = some entries :=
    (entries?_eq_grow hgated hgrows hlinked).trans (Store.entries?_eq_some.mpr ⟨id, hshape⟩)
  simp only [errorResponse, runs_bind, runs_dereference, runs_get]
  refine ⟨response, t, ⟨(hgated.dereference_grow hgrows hv).mpr hresponse, rfl⟩, t, t, ⟨rfl, rfl⟩, ?_⟩
  rw [if_neg (by simp [hsome])]
  simp only [runs_bind, runs_pure]
  exact ⟨b, t', hexpand, rfl, rfl⟩

/-- Only responses that can be expanded are compared. -/
theorem expands_of_runs {code : Scalar} {b : Scalar × Value} (hv : View.Linked ⟨s, K⟩ v) (hgrows : s.Grows t)
    (h : Runs (errorResponse (.node root) op code v) t b t') : s.Expands (.node root) v := by
  obtain ⟨response, w, hresponse, hexpand, -⟩ := runs_errorResponse h
  obtain ⟨id, entries, copy, hshape, -, hcases⟩ := runs_expandResponse hexpand
  have hresponse := (hgated.dereference_grow hgrows hv).mp hresponse
  have hlinked := hgated.linked_dereference hv hresponse
  have hshape := (hgated.shape_eq_grow hgrows hlinked).symm.trans hshape
  have hcontent : View.Linked ⟨s, K⟩ ((entries.get? "content").getD .null) := hgated.linked_field hlinked hshape
  refine ⟨response, id, entries, hresponse, hshape, fun types htypes e he fields hfields => ?_⟩
  rw [entries?_eq_grow hgated hgrows hcontent, htypes] at hcases
  obtain ⟨hnone, -⟩ | ⟨_, expanded, _, heq, hall, -⟩ := hcases
  · cases hnone
  · obtain rfl := Option.some.inj heq
    obtain ⟨idContent, hid⟩ := Store.entries?_eq_some.mp htypes
    obtain ⟨idMedia, hmedia⟩ := Store.entries?_eq_some.mp hfields
    have he' := hgated.linked_entry hcontent hid he
    obtain ⟨b, -, -, u, hfirst, -, hcases⟩ := exists_mem_of_forall₂ hall he
    rw [entries?_eq_grow hgated (hgrows.trans hfirst) he', hfields] at hcases
    obtain ⟨hnone, -⟩ | ⟨_, target, _, heq, htarget, -⟩ := hcases
    · cases hnone
    · obtain rfl := Option.some.inj heq
      exact ⟨target, (hgated.dereference_grow (hgrows.trans hfirst) (hgated.linked_field he' hmedia)).mp htarget⟩

/-! ## What is compared -/

variable (hcomparable : s.Comparable (.node root) P) (hlinked : ∀ v, P v → View.Linked ⟨s, K⟩ v)
include hcomparable hlinked

/-- What stands in the place of a media type can be compared. If its schema leads to that of a text, then it has
the shape of a media type for texts. -/
theorem written_of_expanded {e b : Scalar × Value} (he : P e.2) (h : Expanded (.node root) s s' e b) :
    s'.Written b.2 ∧ ∀ schema target, s.Shows e.2 "schema" schema → s.dereference (.node root) schema = .ok target →
      s'.HoldsShape target textShape → s'.HoldsShape b.2 (.ofFields [("schema", textShape)]) := by
  obtain ⟨-, u, hfirst, hlast, ⟨hnone, heq⟩ | ⟨fields, target, j, hfields, htarget, heq, hcell⟩⟩ := h
  · rw [heq]
    refine ⟨(hcomparable.written _ he).grow (hfirst.trans hlast), fun schema target hshows _ _ => ?_⟩
    obtain ⟨id, entries, _, hshape, -⟩ := hshows
    rw [entries?_eq_grow hgated hfirst (hlinked _ he), Store.entries?_eq_some.mpr ⟨id, hshape⟩] at hnone
    cases hnone
  · rw [entries?_eq_grow hgated hfirst (hlinked _ he)] at hfields
    obtain ⟨id, hshape⟩ := Store.entries?_eq_some.mp hfields
    have hschema : P ((fields.get? "schema").getD .null) := hcomparable.field he hshape
    have htarget := (hgated.dereference_grow hfirst (hlinked _ hschema)).mp htarget
    obtain ⟨hkeyed, -⟩ := (Store.written_object hshape).mp (hcomparable.written _ he)
    have hgrows := hfirst.trans hlast
    have hwritten : s'.Written (.node j) := by
      refine (Store.written_object (Store.shape_node hcell)).mpr ⟨hkeyed.put, fun e' he' => ?_⟩
      rcases Entries.mem_or_eq_of_mem_put he' with hold | hnew
      · exact (hcomparable.written _ (hcomparable.entry _ _ _ _ he hshape hold)).grow hgrows
      · exact hnew ▸ (hcomparable.written _ (hcomparable.refer _ _ hschema htarget)).grow hgrows
    rw [heq]
    refine ⟨hwritten, fun schema target' hshows htarget' hholds => ?_⟩
    have hget := hshows.get?_eq hshape hkeyed
    rw [hget, Option.getD_some, htarget', Except.ok.injEq] at htarget
    subst htarget
    exact (hshows.put hshape (Store.shape_node hcell)).holdsShape hwritten hholds (by decide) (by decide)

/-- What is compared of a response can be compared. If the response answers in text, then it has the shape of an
error response. -/
theorem written_of_errorResponse {code : Scalar} {b : Scalar × Value} (hv : P v) (hgrows : s.Grows t)
    (h : Runs (errorResponse (.node root) op code v) t b t') (hlast : t'.Grows s') :
    s'.Written b.2 ∧ ∀ response, s.dereference (.node root) v = .ok response →
      s.AnswersInText (.node root) response → s'.HoldsShape b.2 errorResponseShape := by
  obtain ⟨response, w, hresponse, hexpand, rfl⟩ := runs_errorResponse h
  have hall := hgrows.trans ((grows_expandResponse hexpand).trans hlast)
  have hresponse := (hgated.dereference_grow hgrows (hlinked v hv)).mp hresponse
  have hP := hcomparable.refer _ _ hv hresponse
  obtain ⟨id, entries, copy, hshape, rfl, hcases⟩ := runs_expandResponse hexpand
  have hshape := (hgated.shape_eq_grow hgrows (hlinked _ hP)).symm.trans hshape
  obtain ⟨hkeyed, -⟩ := (Store.written_object hshape).mp (hcomparable.written _ hP)
  have hentry : ∀ e ∈ entries, s'.Written e.2 := fun e he =>
    (hcomparable.written _ (hcomparable.entry _ _ _ _ hP hshape he)).grow hall
  have hkept : ∀ {i : Nat} {cell : Cell}, t'.cells[i]? = some cell → s'.cells[i]? = some cell := fun hcell =>
    (hlast.agree _ (Store.lt_size_of_cell hcell)).trans hcell
  have hcontent : P ((entries.get? "content").getD .null) := hcomparable.field hP hshape
  -- The only response that a declared one leads to.
  have honly : ∀ response', s.dereference (.node root) v = .ok response' → response' = response := fun _ h =>
    Except.ok.inj (h.symm.trans hresponse)
  rcases hcases with ⟨hnone, hcell⟩ | ⟨types, expanded, j, htypes, hexpanded, hcell, hcopy⟩
  · refine ⟨(Store.written_object (Store.shape_node (hkept hcell))).mpr ⟨hkeyed, hentry⟩, fun response' h h' => ?_⟩
    obtain rfl := honly _ h
    obtain ⟨content, media, _, _, hshows, ⟨idContent, types, _, htypes, -⟩, -⟩ := h'
    rw [hshows.get?_eq hshape hkeyed, Option.getD_some] at hnone hcontent
    rw [entries?_eq_grow hgated hgrows (hlinked _ hcontent),
      Store.entries?_eq_some.mpr ⟨idContent, htypes⟩] at hnone
    cases hnone
  · rw [entries?_eq_grow hgated hgrows (hlinked _ hcontent)] at htypes
    obtain ⟨idContent, hid⟩ := Store.entries?_eq_some.mp htypes
    obtain ⟨hkeyedTypes, -⟩ := (Store.written_object hid).mp (hcomparable.written _ hcontent)
    have hkeysEq := keys_expanded hexpanded
    have hmedia : ∀ e ∈ types, P e.2 := fun e he => hcomparable.entry _ _ _ _ hcontent hid he
    have hexpanded' : List.Forall₂ (Expanded (.node root) s s') types expanded := hexpanded.imp fun e b he =>
      (he.grow hlast).of_grows hgrows
    have hwrittenTypes : s'.Written (.node j) := by
      refine (Store.written_object (Store.shape_node (hkept hcell))).mpr
        ⟨⟨hkeysEq ▸ hkeyedTypes.exists_text, hkeysEq ▸ hkeyedTypes.nodup⟩, fun b hb => ?_⟩
      obtain ⟨e, he, hb⟩ := exists_mem_of_forall₂_right hexpanded' hb
      exact (written_of_expanded hgated hcomparable hlinked (hmedia e he) hb).1
    have hwritten : s'.Written (.node copy) := by
      refine (Store.written_object (Store.shape_node (hkept hcopy))).mpr ⟨hkeyed.put, fun e he => ?_⟩
      rcases Entries.mem_or_eq_of_mem_put he with hold | hnew
      · exact hentry e hold
      · exact hnew ▸ hwrittenTypes
    refine ⟨hwritten, fun response' h h' => ?_⟩
    obtain rfl := honly _ h
    obtain ⟨content, media, schema, target, hshows, hshowsMedia, hshowsSchema, htarget, htype⟩ := h'
    rw [hshows.get?_eq hshape hkeyed, Option.getD_some] at hid hcontent
    have he : (Scalar.text "text/plain", media) ∈ types := Entries.mem_of_get? (hshowsMedia.get?_eq hid hkeyedTypes)
    obtain ⟨b, hb, hbExpanded⟩ := exists_mem_of_forall₂ hexpanded' he
    have hPmedia := hmedia _ he
    have hPschema : P schema := by
      obtain ⟨idMedia, fields, _, hfields, hmem, -⟩ := hshowsSchema
      exact hcomparable.entry _ _ _ _ hPmedia hfields hmem
    have hPtarget := hcomparable.refer _ _ hPschema htarget
    have hheld : s'.HoldsShape target textShape := (htype.grow hgated hall (hlinked _ hPtarget)).holdsShape
      ((hcomparable.written _ hPtarget).grow hall) (Store.holdsShape_string) (by decide) (by decide)
    have hheldMedia := (written_of_expanded hgated hcomparable hlinked hPmedia hbExpanded).2 schema target
      hshowsSchema htarget hheld
    have hshowsTypes : s'.Shows (.node j) "text/plain" b.2 := by
      obtain ⟨_, others, key, hothers, _, hkey, hkeys⟩ := hshowsMedia
      obtain rfl : types = others := by
        rw [hid, Shape.object.injEq] at hothers
        exact hothers.2
      refine ⟨j, expanded, b.1, Store.shape_node (hkept hcell), hb, ?_, fun k hk => hkeys k (hkeysEq ▸ hk)⟩
      rw [hbExpanded.1]
      rfl
    exact (hshows.put hshape (Store.shape_node (hkept hcopy))).holdsShape hwritten
      (hshowsTypes.holdsShape hwrittenTypes hheldMedia (by decide) (by decide)) (by decide) (by decide)

/-- **The comparison.** All other responses can be expanded and compared, and are what is expected, just if they
are those of errors. -/
theorem compares_iff {responses : Entries Value} (hkeyed : responses.TextKeyed) (hP : ∀ e ∈ responses, P e.2) :
    (∃ errors t shape, Runs ((responses.remove "200").mapM fun e => errorResponse (.node root) op e.1 e.2) s errors t ∧
      ((t.add (.object errors)).2.tree (t.add (.object errors)).1).withoutOptional = .ok shape ∧
      shape.same errorResponsesShape = true) ↔ s.Fails (.node root) responses := by
  have hmem : ∀ {e : Scalar × Value}, e ∈ responses.remove "200" ↔ e ∈ responses ∧ e.1 ≠ .text "200" := by
    intro e
    rw [Entries.remove_eq_filter hkeyed.nodup, List.mem_filter, decide_eq_true_iff]
  constructor
  · rintro ⟨errors, t, shape, herrors, hshape, hsame⟩
    have hall := forall₂_of_runs_mapM herrors fun _ _ _ _ he => grows_errorResponse he
    refine ⟨fun e he hne => ?_, fun code hcode => code_cases_of_errors hkeyed herrors hshape hsame hcode,
      fun code hcode => answersInText_of_errors hkeyed hgated (fun e he => hlinked _ (hP e he)) herrors hshape hsame hcode⟩
    obtain ⟨b, -, t₁, t₂, hfirst, hrun, -⟩ := exists_mem_of_forall₂ hall (hmem.mpr ⟨he, hne⟩)
    exact expands_of_runs hgated (hlinked _ (hP e he)) hfirst hrun
  · intro h
    have hsteps : ∀ e ∈ responses.remove "200", ∀ u, s.Grows u →
        ∃ b u', Runs (errorResponse (.node root) op e.1 e.2) u b u' ∧ u.Grows u' := fun e he u hu =>
      exists_runs_errorResponse hgated (hlinked _ (hP e (hmem.mp he).1)) (h.expands e (hmem.mp he).1 (hmem.mp he).2) hu
    obtain ⟨errors, t, herrors, hgrows⟩ := exists_runs_mapM hsteps
    have hall := forall₂_of_runs_mapM herrors fun _ _ _ _ he => grows_errorResponse he
    have hkeys : Entries.keys errors = (responses.remove "200").keys :=
      Entries.keys_eq_of_forall₂ hall fun e b ⟨_, _, _, hrun, _⟩ => fst_of_errorResponse hrun
    have hkeyedErrors : Entries.TextKeyed errors :=
      ⟨hkeys ▸ hkeyed.remove.exists_text, hkeys ▸ hkeyed.remove.nodup⟩
    have hlast : t.Grows (t.add (.object errors)).2 := .add t _
    have hnode : (t.add (.object errors)).2.shape (t.add (.object errors)).1 = .object t.cells.size errors :=
      Store.shape_node (by rw [Store.cells_add, if_pos rfl])
    have hwritten : (t.add (.object errors)).2.Written (t.add (.object errors)).1 := by
      refine (Store.written_object hnode).mpr ⟨hkeyedErrors, fun b hb => ?_⟩
      obtain ⟨e, he, t₁, t₂, hfirst, hrun, hsecond⟩ := exists_mem_of_forall₂_right hall hb
      exact (written_of_errorResponse hgated hcomparable hlinked (hP e (hmem.mp he).1) hfirst hrun
        (hsecond.trans hlast)).1
    have hshape : (t.add (.object errors)).2.HoldsShape (t.add (.object errors)).1 errorResponsesShape := by
      refine hwritten.holdsShape hnode (fun code hcode => ?_) (fun f hf => ?_) (by decide) (by decide) (by decide)
      · rw [hkeys] at hcode
        obtain ⟨e, he, rfl⟩ := List.mem_map.mp hcode
        obtain ⟨hmem, hne⟩ := hmem.mp he
        rcases h.code_cases e.1 (List.mem_map_of_mem hmem) with ⟨c, hc, heq⟩ | hoptional
        · refine ⟨c, heq, .inl ?_⟩
          rcases List.mem_cons.mp hc with rfl | hc
          · exact absurd heq hne
          · exact hc
        · obtain ⟨name, hname, heq⟩ := isOptionalKeyword_iff.mp hoptional
          exact ⟨name, heq, .inr hname⟩
      · obtain ⟨hcode, hfield⟩ : f.1 ∈ ["400", "500"] ∧ f.2 = errorResponseShape := by
          rcases List.mem_pair.mp hf with rfl | rfl <;> simp
        obtain ⟨declared, response, hget, hresponse, hanswers⟩ := h.error f.1 hcode
        have he := Entries.mem_of_get? hget
        have hne : Scalar.text f.1 ≠ .text "200" := by
          rcases List.mem_pair.mp hcode with heq | heq <;> rw [heq] <;> decide
        obtain ⟨b, hb, t₁, t₂, hfirst, hrun, hsecond⟩ := exists_mem_of_forall₂ hall (hmem.mpr ⟨he, hne⟩)
        have hheld := (written_of_errorResponse hgated hcomparable hlinked (hP _ he) hfirst hrun
          (hsecond.trans hlast)).2 response hresponse hanswers
        have hkey : b.1 = .text f.1 := fst_of_errorResponse hrun
        exact ⟨b.2, hkey ▸ hb, hfield ▸ hheld⟩
    obtain ⟨tree, shape, htree, hleft, hsame⟩ := hshape
    exact ⟨errors, t, shape, herrors, htree.tree_eq.symm ▸ hleft, hsame⟩

end

end Edit

end DeviceApi
