import DeviceApi.Proofs.Api.Taken

/-!
# Operations that are accepted

An operation can be classified just if it has the form that operations have. Only the document as it was in the beginning
counts for this: adopting the schemas of the parameters and of the request makes no difference to what is looked at
afterwards, but that the schema of the request has a role then.
-/

namespace DeviceApi

variable {s s' t : Store} {v w : Value} {key : String}

namespace View.Gated

variable {root : Nat} {gates : Set Gate} {K : Set Nat} {role : Role} {owner : Value} {type : String} {content : Content}

theorem linked_of_field {key : Scalar} (h : View.Gated root gates ⟨s, K⟩) (hv : View.Linked ⟨s, K⟩ v)
    (hfield : s.field? v key = some w) : View.Linked ⟨s, K⟩ w := by
  obtain ⟨id, fields, hshape, hget⟩ := Store.field?_eq_some.mp hfield
  obtain ⟨k, hk⟩ := Entries.exists_mem_of_get? hget
  exact h.linked_entry hv hshape hk

section

variable (h : View.Gated root gates ⟨s, K⟩) (hgrows : s.Grows t)
include h hgrows

/-- A content is found in the same places when nodes are added. -/
theorem findsContent_grow (howner : View.Linked ⟨s, K⟩ owner) :
    Edit.FindsContent t (.node root) owner type content ↔ Edit.FindsContent s (.node root) owner type content := by
  have hfield : ∀ {v : Value} {key : Scalar}, View.Linked ⟨s, K⟩ v → t.field? v key = s.field? v key := fun hv =>
    Store.field?_eq_of_shape_eq (h.shape_eq_grow hgrows hv)
  rw [Edit.findsContent_iff_fields, Edit.findsContent_iff_fields]
  refine exists_congr fun types => exists_congr fun id => exists_congr fun declared => ?_
  rw [hfield howner]
  refine and_congr_right fun hcontent => ?_
  have htypes := h.linked_of_field howner hcontent
  rw [h.shape_eq_grow hgrows htypes]
  refine and_congr_right fun hshape => ?_
  have hmedia : View.Linked ⟨s, K⟩ content.media := h.linked_entry htypes hshape (List.mem_singleton_self _)
  rw [hfield hmedia]
  refine and_congr_right fun hdeclared => ?_
  have hlinked := h.linked_of_field hmedia hdeclared
  rw [h.dereference_grow hgrows hlinked]
  refine and_congr_right fun hschema => ?_
  rw [hfield (h.linked_dereference hlinked hschema)]

theorem mayHave_grow (hv : View.Linked ⟨s, K⟩ v) : t.MayHave v role ↔ s.MayHave v role := by
  rw [Store.mayHave_iff_field, Store.mayHave_iff_field, Store.IsObject, Store.IsObject, h.shape_eq_grow hgrows hv,
    Store.field?_eq_of_shape_eq (h.shape_eq_grow hgrows hv)]
  refine and_congr_right fun _ => forall_congr' fun w => imp_congr_right fun hw => ?_
  rw [Store.isTruthy, Store.isTruthy, h.shape_eq_grow hgrows (h.linked_of_field hv hw)]

end

end View.Gated

namespace Edit

variable {root T c : Nat} {gates : Set Gate} {K : Set Nat} {P : Value → Prop} {op : Operation} {table : SchemaTable}
  {responses entries : Entries Value}

/-- The responses of an operation can be classified just if those of errors are what is expected, and the successful one
leads to a content whose schema may be tagged. -/
theorem exists_runs_classifyResponses_iff (hgated : View.Gated root gates ⟨s, K⟩)
    (hgate : ∃ g ∈ gates, table.schemas = .node g.node ∧ g.key ≠ roleKey)
    (hcomparable : s.Comparable (.node root) P) (hlinked : ∀ v, P v → View.Linked ⟨s, K⟩ v)
    (hresponses : Runs (responsesOf op) s responses s) (hP : ∀ e ∈ responses, P e.2)
    (htable : s.IsObject table.schemas) (hop : s.IsObject op.content) :
    (∃ s', Runs (classifyResponses (.node root) table op) s () s') ↔ s.Fails (.node root) responses ∧
      ∃ owner content, s.dereference (.node root) ((responses.get? "200").getD .null) = .ok owner ∧
        FindsContent s (.node root) owner jsonContentType content ∧ s.MayHave content.schema .response := by
  have hkeyed := textKeyed_responsesOf hresponses
  have hsuccess : View.Linked ⟨s, K⟩ ((responses.get? "200").getD .null) := by
    cases hget : responses.get? "200" with
    | none => exact View.linked_scalar
    | some w => exact hlinked _ (hP _ (Entries.mem_of_get? hget))
  -- The rest is looked at after the copies have been added, which makes no difference.
  have hrest : ∀ {t : Store} {owner : Value} {content : Content}, s.Grows t →
      (t.dereference (.node root) ((responses.get? "200").getD .null) = .ok owner ∧
        FindsContent t (.node root) owner jsonContentType content ∧
          (∃ s', Runs (adoptContent table op .response content) t () s') ↔
      s.dereference (.node root) ((responses.get? "200").getD .null) = .ok owner ∧
        FindsContent s (.node root) owner jsonContentType content ∧ s.MayHave content.schema .response) := by
    intro t owner content hgrows
    rw [hgated.dereference_grow hgrows hsuccess]
    refine and_congr_right fun howner => ?_
    have hlinkedOwner := hgated.linked_dereference hsuccess howner
    rw [hgated.findsContent_grow hgrows hlinkedOwner]
    refine and_congr_right fun hfinds => ?_
    obtain ⟨types, id, declared, hcontent, htypes, hdeclared, hschema, -⟩ := findsContent_iff_fields.mp hfinds
    have hlinkedSchema : View.Linked ⟨s, K⟩ content.schema := by
      have hmedia := hgated.linked_entry (hgated.linked_of_field hlinkedOwner hcontent) htypes (List.mem_singleton_self _)
      exact hgated.linked_dereference (hgated.linked_of_field hmedia hdeclared) hschema
    have hputs : s.Puts (fun _ _ _ => False) t := .grow hgrows
    rw [exists_runs_adoptContent_iff ((hgated.findsContent_grow hgrows hlinkedOwner).mpr hfinds) (fun i hi => ?_)
      (hputs.isObject htable) (hputs.isObject hop), hgated.mayHave_grow hgrows hlinkedSchema]
    rw [Store.field?_eq_of_shape_eq (hgated.shape_eq_grow hgrows hlinkedSchema)] at hi
    refine ⟨(hgated.lt i (hgated.linked_of_field hlinkedSchema hi i rfl)).trans_le hgrows.size_le, fun hT => ?_⟩
    obtain ⟨g, hg, hnode, hkey⟩ := hgate
    obtain rfl : i = g.node := Value.node.inj (hT.symm.trans hnode)
    obtain ⟨j, fields, hshape, hget⟩ := Store.field?_eq_some.mp hi
    obtain ⟨heq, hcell⟩ := Store.shape_eq_object.mp hshape
    have hplace := (hgated.only g hg j _ (hlinkedSchema j heq) (stands_of_get? hcell hget)).2
    exact hkey (by simpa using hplace.symm)
  constructor
  · rintro ⟨s', h⟩
    obtain ⟨others, errors, t, shape, owner, content, hothers, -, herrors, hshape, hsame, howner, hfinds, hadopt⟩ :=
      runs_classifyResponses_iff.mp h
    obtain ⟨rfl, -⟩ := hresponses.unique hothers
    exact ⟨(compares_iff hgated hcomparable hlinked hkeyed hP).mp ⟨errors, t, shape, herrors, hshape, hsame⟩, owner, content,
      (hrest (grows_errorResponses herrors)).mp ⟨howner, (runs_contentOf.mp hfinds).2, s', hadopt⟩⟩
  · rintro ⟨hfails, owner, content, hfound⟩
    obtain ⟨errors, t, shape, herrors, hshape, hsame⟩ :=
      (compares_iff hgated hcomparable hlinked hkeyed hP).mpr hfails
    obtain ⟨howner, hfinds, s', hadopt⟩ := (hrest (grows_errorResponses herrors)).mpr hfound
    refine ⟨s', runs_classifyResponses_iff.mpr ⟨responses, errors, t, shape, owner, content, hresponses, ?_, herrors,
      hshape, hsame, howner, runs_contentOf.mpr ⟨rfl, hfinds⟩, hadopt⟩⟩
    by_contra hnull
    rw [Bool.not_eq_false] at hnull
    obtain ⟨types, _, _, hcontent, -⟩ := findsContent_iff_fields.mp hfound.2.1
    obtain ⟨id, fields, hfields, -⟩ := Store.field?_eq_some.mp hcontent
    have howner' := hfound.1
    cases hvalue : (responses.get? "200").getD .null with
    | node i =>
      rw [hvalue] at hnull
      have hlt := hgated.lt i (hsuccess i hvalue)
      rw [Store.isNull_node (Array.getElem?_eq_getElem hlt)] at hnull
      cases hnull
    | scalar a =>
      rw [hvalue, Store.dereference_of_not_isReference rfl, Except.ok.injEq] at howner'
      rw [← howner'] at hfields
      cases hfields

end Edit

namespace Edit

variable {root T c : Nat} {entries : Entries Value} {table : SchemaTable} {op : Operation} {media tagged : Value → Prop}

/-! ## After adoption -/

/-- The responses of an operation can be classified after adoption just if they can be compared and have a content of JSON in
the beginning, the schema of which may have the role of an answer. -/
theorem Adopted.exists_runs_classifyResponses_iff {K : Set Nat} (h : Adopted s t root c T entries table op media tagged)
    (hwritten : ∀ v, Ordinary s root c T entries v → s.Has v → s.Written v) (hobject : s.IsObject op.content)
    (hschemas : s.IsObject table.schemas)
    (hgated : View.Gated root (documentGates root (entries.get? "paths") c T) ⟨t, K⟩)
    (hknown : {i | i < s.cells.size} ⊆ K) :
    (∃ s', Runs (classifyResponses (.node root) table op) t () s') ↔ s.Fails (.node root) (s.responses op) ∧
      ∃ owner content, s.dereference (.node root) (((s.responses op).get? "200").getD .null) = .ok owner ∧
        FindsContent s (.node root) owner jsonContentType content ∧ t.MayHave content.schema .response := by
  have hordinary := ordinary_responses h.opened h.content
  have hsuccess := ordinary_success h.opened h.content
  have hlinked : ∀ v, (Ordinary s root c T entries v ∧ s.Written v) ∨ (∃ m, media m ∧ t.field? m "schema" = some v) →
      View.Linked ⟨t, K⟩ v := by
    rintro v (⟨hv, -⟩ | ⟨m, hm, hfield⟩)
    · exact hv.linked.mono hknown
    · obtain ⟨declared, hschema, -⟩ := h.media_schema m hm
      obtain ⟨i, _, hshape, -⟩ := Store.field?_eq_some.mp hschema
      obtain rfl := (Store.shape_eq_object.mp hshape).1
      exact hgated.linked_of_field ((h.media_place i hm).1.linked.mono hknown) hfield
  have hruns : ∀ {found : Entries Value}, Runs (responsesOf op) t found t ↔
      (t.isTruthy (t.declared op "responses") = true → t.IsObject (t.declared op "responses")) ∧ found = s.responses op :=
    h.runs_responsesOf_iff hobject
  have hiff : Runs (responsesOf op) t (s.responses op) t →
      ((∃ s', Runs (classifyResponses (.node root) table op) t () s') ↔ s.Fails (.node root) (s.responses op) ∧
        ∃ owner content, s.dereference (.node root) (((s.responses op).get? "200").getD .null) = .ok owner ∧
          FindsContent s (.node root) owner jsonContentType content ∧ t.MayHave content.schema .response) := by
    intro hresponses
    rw [Edit.exists_runs_classifyResponses_iff hgated
      ⟨⟨c, "schemas", T⟩, mem_documentGates.mpr (.inr (.inr rfl)), h.node, show "schemas" ≠ roleKey by decide⟩ (h.comparable hwritten) hlinked
      hresponses (fun e he => .inl ⟨hordinary e he, hwritten _ (hordinary e he) (Store.has_response he)⟩) (h.puts.isObject hschemas) (h.puts.isObject hobject),
      h.fails_iff hordinary]
    refine and_congr_right fun _ => exists_congr fun owner => exists_congr fun content => ?_
    rw [h.dereference_iff hsuccess]
    refine and_congr_right fun howner => ?_
    rw [h.findsContent_iff (h.ordinary_dereference hsuccess howner) (by decide)]
  constructor
  · rintro ⟨s', hrun⟩
    obtain ⟨found, _, _, _, _, _, hfound, -⟩ := runs_classifyResponses_iff.mp hrun
    obtain ⟨hpresent, -⟩ := hruns.mp hfound
    exact (hiff (hruns.mpr ⟨hpresent, rfl⟩)).mp ⟨s', hrun⟩
  · intro hboth
    refine (hiff (hruns.mpr ⟨fun _ => ?_, rfl⟩)).mpr hboth
    obtain ⟨declared, _, hget, -⟩ := hboth.1.error "400" (by simp)
    rw [← h.responses_eq hobject, Store.responses] at hget
    cases hfields : t.entries? (t.declared op "responses") with
    | none => simp [hfields] at hget
    | some fields => exact (Store.entries?_eq_some.mp hfields).imp fun id hid => ⟨fields, hid⟩

/-- The schema of the answer must not have another role. -/
theorem Taken.exists_runs_classifyResponses_iff {K : Set Nat} {taken : Role → Option Adoption}
    (hplaced : Placed s root c T entries table op) (h : Taken s t root c T entries table op taken)
    (hgated : View.Gated root (documentGates root (entries.get? "paths") c T) ⟨t, K⟩)
    (hknown : {i | i < s.cells.size} ⊆ K) :
    (∃ s', Runs (Edit.classifyResponses (.node root) table op) t () s') ↔ s.Fails (.node root) (s.responses op) ∧
      ∃ schema, s.Carries (.node root) (((s.responses op).get? "200").getD .null) jsonContentType .response schema ∧
        ∀ role found, taken role = some (.content found) → found.schema = schema → role = .response := by
  have hsuccess := ordinary_success h.opened h.content
  rw [(h.adopted hplaced).exists_runs_classifyResponses_iff hplaced.written hplaced.object hplaced.schemas hgated hknown]
  refine and_congr_right fun _ => ?_
  constructor
  · rintro ⟨owner, ⟨mediaType, schema⟩, howner, hfinds, hmay⟩
    have hschema := (h.ordinary_content (h.ordinary_dereference hsuccess howner) hfinds).2
    obtain ⟨hmay, hroles⟩ := (h.mayHave_ordinary_iff hschema).mp hmay
    exact ⟨schema, ⟨owner, mediaType, howner, hfinds, hmay⟩, hroles⟩
  · rintro ⟨schema, ⟨owner, mediaType, howner, hfinds, hmay⟩, hroles⟩
    have hschema := (h.ordinary_content (h.ordinary_dereference hsuccess howner) hfinds).2
    exact ⟨owner, ⟨mediaType, schema⟩, howner, hfinds, (h.mayHave_ordinary_iff hschema).mpr ⟨hmay, hroles⟩⟩

/-! ## Operations -/

namespace Placed

variable {query : Option Value} {body path : Value} {s₁ s₂ : Store} {taken : Role → Option Adoption}
  (h : Placed s root c T entries table op)
include h

theorem isContent : IsContent root (documentGates root (entries.get? "paths") c T) False ⟨s, {i | i < s.cells.size}⟩
    op.content := by
  refine ⟨fun x hx => ?_, False.elim⟩
  obtain ⟨hlt, hroot, hgates⟩ := h.content.writable x hx
  exact ⟨hlt, hroot, fun g hg => hgates g (documentGates_subset hg)⟩

section

variable (h₂ : Taken s s₂ root c T entries table op taken)
  (hbody : s.dereference (.node root) (s.declared op "requestBody") = .ok body)
include h₂ hbody

end

end Placed

end Edit

end DeviceApi
