import DeviceApi.Proofs.Kinds.Parameters
import DeviceApi.Proofs.Kinds.Trees
import DeviceApi.Proofs.Api.Steady
import DeviceApi.Normalization

/-!
# Classification in stores that differ in descriptions

An operation is classified in the same way in two stores that are alike: descriptions count neither for the content
of a body or a response nor for the shape of the error responses, and the same schemas come into the table.
-/

namespace DeviceApi

variable {kinds kinds' ks : List Kind} {k : Kind} {s s' : Store} {root v w : Value} {entries entries' : Entries Value}
  {table : SchemaTable} {name type : String} {op : Operation} {role : Role} {content : Content}

namespace Kind

theorem below_referred (name : String) (hname : name ∈ [roleKey, "type", "default", "minimum", "maximum", "format"]) :
    ∀ k ∈ referred, k.below (some (.text name)) = [plain] := by
  have hall : ∀ name ∈ [roleKey, "type", "default", "minimum", "maximum", "format"], ∀ k ∈ referred,
      k.below (some (.text name)) = [plain] := by decide
  exact hall name hname

/-- What may stand in a node of a document may stand in a copy. -/
theorem below_subset_all (hk : k ≠ loose) (key : Option Scalar) : k.below key ⊆ all := fun other hother => by
  have hne : other ≠ loose := fun heq => loose_notMem_below hk key (heq ▸ hother)
  have hall : ∀ k : Kind, k ≠ loose → k ∈ all := by
    intro k
    cases k <;> decide
  exact hall other hne

theorem below_copy (key : Scalar) : copy.below (some key) = all := by
  cases key <;> rfl

end Kind

namespace Edit

namespace Agree

/-- A schema is tagged in the same way in both stores. -/
theorem setRole (h : s.Matches kinds s') (hv : v.IsOf kinds Kind.referred) :
    Agree kinds s s' (setRole v role) (Edit.setRole v role) (Same fun _ _ => True) := by
  have hbelow := Kind.below_referred roleKey (by simp)
  have hput : Agree kinds s s' (Edit.putField v roleKey (.text role.text)) (Edit.putField v roleKey (.text role.text))
      (Same fun _ _ => True) := putField h hv fun _ _ => ⟨Value.isOf_text, fun _ => by decide⟩
  unfold Edit.setRole
  refine fieldOf_bind h hv (by decide) (l := [.plain]) (fun k hk => (hbelow k hk) ▸ List.Subset.refl _) fun previous hprevious => ?_
  refine get_bind ?_
  dsimp only
  rw [h.isTruthy_eq hprevious (by decide), h.isText_eq hprevious]
  refine ite Iff.rfl (fun _ => ?_) fun _ => hput
  exact (shownTree h (hprevious.of_subset (by decide))).bind_same fun _ _ _ _ _ _ _ => refuse_bind

/-- A schema comes into the table under the same name in both stores. -/
theorem register (h : s.Matches kinds s') (htable : table.schemas.IsOf kinds [.table]) (hname : Pointer.Simple name)
    (hv : v.IsOf kinds [.schema, .plain]) :
    Agree kinds s s' (table.register (.text name) v) (table.register (.text name) v) (Same (OneOf [.plain])) := by
  unfold SchemaTable.register
  refine (putField h htable fun k hk => ?_).bind_same fun kinds₁ _ t t' _ halike _ => ?_
  · obtain rfl := List.mem_singleton.mp hk
    exact ⟨hv, by simp [Kind.mayRefer]⟩
  · refine (textOf halike).bind_same fun kinds₂ text u u' _ halike' htext => ?_
    obtain rfl : text = name := htext
    refine newObject halike' (.refl (.object ⟨by simp [Entries.keys], by simp [Entries.keys]⟩ ?_ fun _ p hp => ?_))
    · intro name v hmem
      obtain ⟨-, rfl⟩ := Prod.mk.inj (List.mem_singleton.mp hmem)
      exact Value.isOf_text
    · obtain rfl : pointerTo text = p := by simpa [Entries.get?, referenceKey] using hp
      exact ⟨"schemas", text, pointerTo_eq text, by decide, hname⟩

theorem copyObject (h : s.Matches kinds s') (hv : v.IsOf kinds ks) :
    Agree kinds s s' (copyObject v) (Edit.copyObject v) (Same (OneOf ks)) := by
  unfold Edit.copyObject
  refine entriesOf_bind h hv fun k entries entries' hk halike => ?_
  refine (newObject h (halike.mono (List.prefix_append _ _))).mono fun kinds₁ a a' _ hsame => ?_
  exact ⟨hsame.1, hsame.2.of_subset fun _ hmem => List.mem_singleton.mp hmem ▸ hk⟩

/-! ## Contents -/

/-- The content of a body or a response is the same in both stores. -/
theorem contentOf (h : s.Matches kinds s') (hroot : root.IsOf kinds [.root]) (hv : v.IsOf kinds Kind.referred) :
    Agree kinds s s' (contentOf root v type) (Edit.contentOf root v type)
      (Same fun kinds content => content.media.IsOf kinds [.media, .plain] ∧ content.schema.IsOf kinds Kind.referred) := by
  have hbelow : ∀ k ∈ Kind.referred, k.below (some (.text "content")) ⊆ [.contents, .plain] := by decide
  unfold Edit.contentOf
  refine fieldOf_bind h hv (by decide) (l := [.contents, .plain]) hbelow fun types htypes => ?_
  refine isTruthy_bind h htypes (by decide) fun c => ?_
  refine ite_bind (P := fun kinds items => ∀ w ∈ items, w.IsOf kinds [.plain])
    (fun _ => elementsOf h htypes (by decide)) (fun _ => pure h ⟨rfl, by simp⟩)
    fun kinds₁ items t t' hgrown halike hitems => ?_
  have hrefused : ∀ {β : Type} (items : List Value), (∀ w ∈ items, w.IsOf kinds₁ [.plain]) → ∀ next : β → Edit Content,
      Agree kinds₁ t t' (items.mapM Edit.shownTree >>= fun found => Edit.refuse (.contentTypes found type) >>= next)
        (items.mapM Edit.shownTree >>= fun found => Edit.refuse (.contentTypes found type) >>= next)
        (Same fun kinds content => content.media.IsOf kinds [.media, .plain] ∧ content.schema.IsOf kinds Kind.referred) :=
    fun items hitems next => (mapM (P := fun _ _ _ => True) halike (fun _ _ _ _ _ => id) fun w hw kinds₂ u u' hgrown' hu =>
      shownTree hu (((hitems w hw).mono hgrown').of_subset (by decide))).bind_same fun _ _ _ _ _ _ _ => refuse_bind
  have htypes' := htypes.mono hgrown
  rcases items with _ | ⟨first, _ | ⟨second, rest⟩⟩
  · exact hrefused [] hitems _
  · refine get_bind ?_
    rw [halike.isText_eq (hitems first List.mem_cons_self)]
    refine ite Iff.rfl (fun _ => hrefused [first] hitems _) fun _ => get_bind ?_
    rw [halike.entries?_eq htypes' (by decide)]
    cases hentries : t.entries? types with
    | none => exact misfit
    | some entries =>
      obtain ⟨k, hk, hfits⟩ := halike.exists_fits htypes' hentries
      have hmedia : ((entries.get? type).getD .null).IsOf kinds₁ [.media, .plain] := by
        have hkinds : k.below (some (.text type)) = [.media] ∨ k.below (some (.text type)) = [.plain] := by
          rcases List.mem_pair.mp hk with rfl | rfl
          · exact .inl rfl
          · exact .inr (Kind.below_plain _)
        refine ((Entries.AlikeIn.refl hfits).isOf_getD).of_subset ?_
        rcases hkinds with heq | heq <;> rw [heq] <;> decide
      refine get_bind ?_
      rw [halike.entries?_eq hmedia (by decide)]
      cases hfields : t.entries? ((entries.get? type).getD .null) with
      | none => exact refuse
      | some fields =>
        obtain ⟨k', hk', hfits'⟩ := halike.exists_fits hmedia hfields
        have hschema : ((fields.get? (.text "schema")).getD .null).IsOf kinds₁ Kind.referred := by
          refine ((Entries.AlikeIn.refl hfits').isOf_getD).of_subset ?_
          rcases List.mem_pair.mp hk' with rfl | rfl <;> decide
        refine dereference_bind halike (hroot.mono hgrown) hschema fun w _ hw => get_bind ?_
        rcases halike.object_cases hw with ⟨hnone, hnone'⟩ | ⟨i, k₂, keywords, keywords', hk₂, -, hshape, hshape', hkeywords⟩
        · rw [hnone, hnone']
          exact refuse
        · rw [Store.entries?_eq_some.mpr ⟨i, hshape⟩, Store.entries?_eq_some.mpr ⟨i, hshape'⟩]
          refine get_bind ?_
          rw [hkeywords.get?_eq (by decide), halike.isText_eq hkeywords.isOf_getD]
          exact ite Iff.rfl (fun _ => pure halike ⟨rfl, hmedia, hw⟩) fun _ => refuse
  · exact hrefused _ hitems _

/-- The schema of a content is adopted in the same way in both stores. -/
theorem adoptContent {owner : Value} (h : s.Matches kinds s') (hop : op.content.IsOf kinds [.operation])
    (htable : table.schemas.IsOf kinds [.table]) (hmedia : content.media.IsOf kinds [.media, .plain])
    (hschema : content.schema.IsOf kinds Kind.referred) (hfinds : FindsContent s root owner type content) :
    Agree kinds s s' (adoptContent table op role content) (Edit.adoptContent table op role content)
      (Same fun _ _ => True) := by
  have hbelow : ∀ k ∈ [Kind.media, .plain], k.below (some (.text "schema")) ⊆ [.schema, .plain] := by decide
  obtain ⟨_, _, declared, -, -, hdeclared, hdereference, -⟩ := findsContent_iff_fields.mp hfinds
  have hof : declared.IsOf kinds [.schema, .plain] := h.isOf_field? hmedia hbelow hdeclared
  -- What is done once the media type has a reference to the schema.
  have hlast : ∀ {kinds₁ : List Kind} {t t' : Store}, kinds <+: kinds₁ → t.Matches kinds₁ t' →
      Agree kinds₁ t t' (do
        Edit.setRole content.schema role
        let reference ← Edit.copyObject (← fieldOf content.media "schema")
        Edit.putField op.content role.operationKey reference) (do
        Edit.setRole content.schema role
        let reference ← Edit.copyObject (← fieldOf content.media "schema")
        Edit.putField op.content role.operationKey reference) (Same fun _ _ => True) := by
    intro kinds₁ t t' hgrown halike
    refine (setRole halike (hschema.mono hgrown)).bind_same fun kinds₂ _ u u' hgrown' halike' _ => ?_
    refine fieldOf_bind halike' ((hmedia.mono hgrown).mono hgrown') (by decide) hbelow fun reference hreference => ?_
    refine (copyObject halike' hreference).bind_same fun kinds₃ w x x' hgrown'' halike'' hw => ?_
    refine putField halike'' (((hop.mono hgrown).mono hgrown').mono hgrown'') fun k hk => ?_
    obtain rfl := List.mem_singleton.mp hk
    have hkey : ∀ role : Role, Kind.operation.below (some (.text role.operationKey)) = [.schema, .plain] := by
      intro role
      cases role <;> rfl
    exact ⟨hkey role ▸ hw, by simp [Kind.mayRefer]⟩
  unfold Edit.adoptContent
  refine fieldOf_bind_of_field? h hmedia (by decide) hdeclared ?_
  refine isReference_bind h hof ?_
  cases href : s.isReference declared with
  | true => exact hlast List.prefix_rfl h
  | false =>
    obtain rfl : declared = content.schema := by
      rw [Store.dereference_of_not_isReference href] at hdereference
      exact Except.ok.inj hdereference
    refine (register h htable (op.simple_schemaName role) hof).bind_same fun kinds₁ w t t' hgrown halike hw => ?_
    refine (putField halike (hmedia.mono hgrown) fun k hk => ?_).bind_same fun kinds₂ _ u u' hgrown' halike' _ =>
      hlast (hgrown.trans hgrown') halike'
    refine ⟨hw.of_subset ?_, fun _ => by decide⟩
    rcases List.mem_pair.mp hk with rfl | rfl <;> decide

/-- The schema of grouped parameters is adopted in the same way in both stores. -/
theorem adoptParameters (h : s.Matches kinds s') (hop : op.content.IsOf kinds [.operation])
    (htable : table.schemas.IsOf kinds [.table]) (hv : v.IsOf kinds [.schema]) :
    Agree kinds s s' (adoptParameters table op role v) (Edit.adoptParameters table op role v)
      (Same fun _ _ => True) := by
  unfold Edit.adoptParameters
  refine (setRole h (hv.of_subset (by decide))).bind_same fun kinds₁ _ t t' hgrown halike _ => ?_
  refine (register halike (htable.mono hgrown) (op.simple_schemaName role)
    ((hv.mono hgrown).of_subset (by decide))).bind_same fun kinds₂ w u u' hgrown' halike' hw => ?_
  refine putField halike' ((hop.mono hgrown).mono hgrown') fun k hk => ?_
  obtain rfl := List.mem_singleton.mp hk
  refine ⟨hw.of_subset ?_, by simp [Kind.mayRefer]⟩
  cases role <;> decide

/-! ## Responses -/

/-- A copy of a node of the document is alike in both stores. -/
theorem alikeIn_copy (hk : k ∈ Kind.referred ∨ k = .media) (halike : entries.AlikeIn kinds k entries') :
    entries.AlikeIn kinds .copy entries' := by
  have hkinds : k ≠ .loose ∧ k.isTextKeyed = true := by
    rcases hk with hk | rfl
    · have hall : ∀ k ∈ Kind.referred, k ≠ .loose ∧ k.isTextKeyed = true := by decide
      exact hall k hk
    · decide
  have hfits : ∀ {entries : Entries Value}, (Cell.object entries).Fits kinds k → (Cell.object entries).Fits kinds .copy :=
    fun hfits => .object (hfits.textKeyed hkinds.2)
      (fun name v hmem => (hfits.entry hmem).of_subset (Kind.below_copy _ ▸ Kind.below_subset_all hkinds.1 _))
      (by simp [Kind.mayRefer])
  exact ⟨halike.alike, by simp [Kind.isSteady], by simp [Kind.isDescribed], hfits halike.fits, hfits halike.fits'⟩

/-- What may stand in a document may be put into a copy. -/
theorem alikeIn_copy_put (name : String) (halike : entries.AlikeIn kinds .copy entries') (hw : w.IsOf kinds Kind.all) :
    (entries.put (.text name) w).AlikeIn kinds .copy (entries'.put (.text name) w) :=
  halike.put (Kind.below_copy _ ▸ hw) (by simp [Kind.mayRefer])

/-- An object with copies in it is a copy. -/
theorem fits_copy (hkeyed : entries.TextKeyed) (hentries : ∀ e ∈ entries, e.2.IsOf kinds Kind.all) :
    (Cell.object entries).Fits kinds .copy :=
  .object hkeyed (fun name v hmem => Kind.below_copy _ ▸ hentries _ hmem) (by simp [Kind.mayRefer])

/-- A response is expanded in the same way in both stores. -/
theorem expandResponse (h : s.Matches kinds s') (hroot : root.IsOf kinds [.root]) (hv : v.IsOf kinds Kind.referred) :
    Agree kinds s s' (expandResponse root v) (Edit.expandResponse root v) (Same (OneOf [.copy])) := by
  have hbelow : ∀ k ∈ Kind.referred, k.below (some (.text "content")) ⊆ [.contents, .plain] := by decide
  unfold Edit.expandResponse
  refine entriesOf_bind h hv fun k entries entries' hk halike => get_bind ?_
  have hcontent : ((entries.get? (.text "content")).getD .null).IsOf kinds [.contents, .plain] :=
    halike.isOf_getD.of_subset (hbelow k hk)
  rw [halike.get?_eq (by decide), h.entries?_eq hcontent (by decide)]
  have hcopy := alikeIn_copy (.inl hk) halike
  cases hfound : s.entries? ((entries.get? (.text "content")).getD .null) with
  | none => exact newObject h (hcopy.mono (List.prefix_append _ _))
  | some found =>
    obtain ⟨k', hk', hfits⟩ := h.exists_fits hcontent hfound
    have hkeyed : found.TextKeyed := hfits.textKeyed (by rcases List.mem_pair.mp hk' with rfl | rfl <;> rfl)
    have hmedia : ∀ e ∈ found, e.2.IsOf kinds [.media, .plain] := fun e he => by
      obtain ⟨name, hname⟩ := hkeyed.exists_text e.1 (List.mem_map_of_mem he)
      refine (hfits.entry he).of_subset ?_
      rw [hname]
      rcases List.mem_pair.mp hk' with rfl | rfl
      · rw [Kind.below_of_forall_ne (by simp [Kind.fields])]
        decide
      · simp
    refine (mapM (P := fun kinds (e e' : Scalar × Value) => e'.1 = e.1 ∧ e'.2.IsOf kinds Kind.all) h
      (fun _ _ _ _ hgrown he => ⟨he.1, he.2.mono hgrown⟩)
      fun e he kinds₁ t t' hgrown halike' => ?_).bind_same fun kinds₁ expanded t t' hgrown halike' hexpanded => ?_
    · obtain ⟨type, media⟩ := e
      have hmedia' := (hmedia _ he).mono hgrown
      refine get_bind ?_
      rw [halike'.entries?_eq hmedia' (by decide)]
      cases hfields : t.entries? media with
      | none => exact pure halike' ⟨rfl, rfl, hmedia'.of_subset (by decide)⟩
      | some fields =>
        obtain ⟨k₂, hk₂, hfits₂⟩ := halike'.exists_fits hmedia' hfields
        have hschema : ((fields.get? (.text "schema")).getD .null).IsOf kinds₁ Kind.referred := by
          refine ((Entries.AlikeIn.refl hfits₂).isOf_getD).of_subset ?_
          rcases List.mem_pair.mp hk₂ with rfl | rfl <;> decide
        have hfieldsCopy : fields.AlikeIn kinds₁ .copy fields := by
          refine alikeIn_copy (k := k₂) ?_ (.refl hfits₂)
          rcases List.mem_pair.mp hk₂ with rfl | rfl
          · exact .inr rfl
          · exact .inl (by decide)
        refine dereference_bind halike' (hroot.mono hgrown) hschema fun w _ hw => ?_
        refine (newObject halike' ((alikeIn_copy_put _ hfieldsCopy (hw.of_subset (by decide))).mono
          (List.prefix_append _ _))).bind_same fun kinds₂ copied u u' _ hu hcopied => ?_
        exact pure hu ⟨rfl, rfl, hcopied.of_subset (by decide)⟩
    · have hkeys : Entries.keys expanded = Entries.keys found :=
        Entries.keys_eq_of_forall₂ hexpanded fun _ _ he => he.1
      have hall : ∀ e ∈ expanded, e.2.IsOf kinds₁ Kind.all := fun e he => by
        obtain ⟨_, -, -, hof⟩ := exists_mem_of_forall₂_right hexpanded he
        exact hof
      have hfitsCopy : (Cell.object expanded).Fits kinds₁ .copy :=
        fits_copy ⟨hkeys ▸ hkeyed.exists_text, hkeys ▸ hkeyed.nodup⟩ hall
      refine (newObject halike' (.refl (hfitsCopy.mono (List.prefix_append _ _)))).bind_same
        fun kinds₂ node u u' hgrown' hu hnode => ?_
      have hput := alikeIn_copy_put "content" ((hcopy.mono hgrown).mono hgrown') (hnode.of_subset (by decide))
      exact newObject hu (hput.mono (List.prefix_append _ _))

theorem errorResponse {code : Scalar} (h : s.Matches kinds s') (hroot : root.IsOf kinds [.root])
    (hv : v.IsOf kinds Kind.referred) :
    Agree kinds s s' (errorResponse root op code v) (Edit.errorResponse root op code v)
      (Same fun kinds e => e.1 = code ∧ e.2.IsOf kinds [.copy]) := by
  unfold Edit.errorResponse
  refine dereference_bind h hroot hv fun response _ hresponse => get_bind ?_
  have hnone : (s'.entries? response).isNone = (s.entries? response).isNone := by
    rcases h.object_cases hresponse with ⟨hleft, hright⟩ | ⟨i, k, entries, entries', -, -, hshape, hshape', -⟩
    · rw [hleft, hright]
    · rw [Store.entries?_eq_some.mpr ⟨i, hshape⟩, Store.entries?_eq_some.mpr ⟨i, hshape'⟩]
      rfl
  dsimp only
  rw [hnone]
  refine ite Iff.rfl (fun _ => refuse_bind) fun _ => ?_
  refine (expandResponse h hroot hresponse).bind_same fun kinds₁ copied t t' _ halike hcopied => ?_
  exact pure halike ⟨rfl, rfl, hcopied⟩

/-- The responses of an operation are the same in both stores. -/
theorem responsesOf (h : s.Matches kinds s') (hop : op.content.IsOf kinds [.operation]) :
    Agree kinds s s' (responsesOf op) (Edit.responsesOf op)
      (Same fun kinds responses => responses.TextKeyed ∧ ∀ v ∈ responses.values, v.IsOf kinds [.described]) := by
  unfold Edit.responsesOf
  refine fieldOf_bind h hop (by decide) (l := [.responses]) (by decide) fun w hw => ?_
  refine optionalEntries_bind h hw (by decide) fun entries hentries => ?_
  have hall : ∀ e ∈ entries, e.2.IsOf kinds [.described] := fun e he => by
    rcases hentries with rfl | ⟨k, hk, hfits⟩
    · cases he
    · obtain rfl := List.mem_singleton.mp hk
      obtain ⟨name, hname⟩ := (hfits.textKeyed rfl).exists_text e.1 (List.mem_map_of_mem he)
      refine (hfits.entry he).of_subset ?_
      rw [hname, Kind.below_of_forall_ne (by simp [Kind.fields])]
      decide
  refine (mapM (P := fun kinds (e e' : Scalar × Value) => (∃ t, e'.1 = .text t) ∧ e'.2.IsOf kinds [.described]) h
    (fun _ _ _ _ hgrown he => ⟨he.1, he.2.mono hgrown⟩)
    fun e he kinds₁ t t' hgrown halike => ?_).bind_same fun kinds₁ pairs t t' hgrown halike hpairs => ?_
  · obtain ⟨code, response⟩ := e
    refine (textOf halike).bind_same fun kinds₂ text u u' hgrown' halike' _ => ?_
    exact pure halike' ⟨rfl, ⟨text, rfl⟩, ((hall _ he).mono hgrown).mono hgrown'⟩
  · have hpair : ∀ e ∈ pairs, (∃ t, e.1 = .text t) ∧ e.2.IsOf kinds₁ [.described] := fun e he => by
      obtain ⟨_, -, hpair⟩ := exists_mem_of_forall₂_right hpairs he
      exact hpair
    refine pure halike ⟨rfl, ?_, fun v hv => ?_⟩
    · refine Entries.TextKeyed.putAll ⟨by simp, by simp⟩ fun key hkey => ?_
      obtain ⟨e, he, rfl⟩ := List.mem_map.mp hkey
      exact (hpair e he).1
    · obtain ⟨e, he, rfl⟩ := List.mem_map.mp hv
      rcases Entries.mem_or_of_mem_putAll he with hold | hnew
      · cases hold
      · obtain ⟨e', he', heq⟩ := List.mem_map.mp hnew
        exact heq ▸ (hpair e' he').2

/-- The responses of an operation are classified in the same way in both stores. -/
theorem classifyResponses (h : s.Matches kinds s') (hroot : root.IsOf kinds [.root])
    (htable : table.schemas.IsOf kinds [.table]) (hop : op.content.IsOf kinds [.operation]) :
    Agree kinds s s' (classifyResponses root table op) (Edit.classifyResponses root table op) (Same fun _ _ => True) := by
  unfold Edit.classifyResponses
  refine (responsesOf h hop).bind_same fun kinds₁ responses t t' hgrown halike hresponses => ?_
  obtain ⟨hkeyed, hall⟩ := hresponses
  have hsuccess : ((responses.get? (.text "200")).getD .null).IsOf kinds₁ [.described] := by
    cases hget : responses.get? (.text "200") with
    | none => exact Value.isOf_null
    | some v => exact hall v (Entries.mem_values_of_get? hget)
  refine get_bind ?_
  dsimp only
  rw [halike.isNull_eq hsuccess]
  refine ite Iff.rfl (fun _ => refuse_bind) fun _ => ?_
  refine (mapM (P := fun kinds (e e' : Scalar × Value) => e'.1 = e.1 ∧ e'.2.IsOf kinds [.copy]) halike
    (fun _ _ _ _ hgrown he => ⟨he.1, he.2.mono hgrown⟩) fun e he kinds₂ u u' hgrown' hu => ?_).bind_same
    fun kinds₂ errors u u' hgrown' hu herrors => ?_
  · obtain ⟨code, declared⟩ := e
    have hdeclared := hall declared (List.mem_map_of_mem (Entries.mem_of_mem_remove he))
    exact errorResponse hu ((hroot.mono hgrown).mono hgrown') ((hdeclared.mono hgrown').of_subset (by decide))
  have hkeys : Entries.keys errors = (Entries.remove (.text "200") responses).keys :=
    Entries.keys_eq_of_forall₂ herrors fun _ _ he => he.1
  have hfits : (Cell.object errors).Fits kinds₂ .copy := by
    refine fits_copy ⟨hkeys ▸ hkeyed.remove.exists_text, hkeys ▸ hkeyed.remove.nodup⟩ fun e he => ?_
    obtain ⟨_, -, -, hof⟩ := exists_mem_of_forall₂_right herrors he
    exact hof.of_subset (by decide)
  refine (newObject hu (.refl (hfits.mono (List.prefix_append _ _)))).bind_same
    fun kinds₃ node x x' hgrown'' hx hnode => ?_
  refine read_bind (x := .ok (x.tree node)) (y := .ok (x'.tree node)) rfl rfl (.inr ⟨_, _, rfl, rfl, ?_⟩)
  refine ofExcept_bind (hx.withoutOptional_tree_eq hnode (by decide)) fun shape _ => ?_
  refine ite Iff.rfl (fun _ => refuse_bind) fun _ => ?_
  have hroot' := ((hroot.mono hgrown).mono hgrown').mono hgrown''
  have hsuccess' := ((hsuccess.mono hgrown').mono hgrown'').of_subset (by decide : [Kind.described] ⊆ Kind.referred)
  refine (explaining (dereference_bind hx hroot' hsuccess' fun w _ hw => contentOf hx hroot' hw)).bind_of_runs
    fun kinds₄ content content' y y' hlast hy hruns hsame => ?_
  obtain ⟨rfl, hmedia, hschema⟩ := hsame
  obtain ⟨w, z, hw, hcontent⟩ := runs_bind.mp (runs_explaining.mp hruns)
  obtain ⟨rfl, hfinds⟩ := runs_contentOf.mp hcontent
  exact adoptContent hy ((((hop.mono hgrown).mono hgrown').mono hgrown'').mono hlast)
    ((((htable.mono hgrown).mono hgrown').mono hgrown'').mono hlast) hmedia hschema hfinds

/-! ## Operations -/

theorem putEncoding {key : String} {encoding : RequestEncoding} (h : s.Matches kinds s')
    (hop : op.content.IsOf kinds [.operation]) :
    Agree kinds s s' (Edit.putField op.content key (.text encoding.text))
      (Edit.putField op.content key (.text encoding.text)) (Same fun _ _ => True) :=
  putField h hop fun k hk => ⟨Value.isOf_text, by simp [List.mem_singleton.mp hk, Kind.mayRefer]⟩

theorem classifyQuery {query : Option Value} {body : Value} (h : s.Matches kinds s')
    (htable : table.schemas.IsOf kinds [.table]) (hop : op.content.IsOf kinds [.operation])
    (hquery : ∀ v ∈ query, v.IsOf kinds [.schema]) (hbody : body.IsOf kinds Kind.referred) :
    Agree kinds s s' (classifyQuery table op query body) (Edit.classifyQuery table op query body)
      (Same fun _ _ => True) := by
  unfold Edit.classifyQuery
  cases query with
  | none => exact refuse
  | some schema =>
    refine isTruthy_bind h hbody (by decide) fun c => ?_
    refine ite Iff.rfl (fun _ => refuse_bind) fun _ => ?_
    refine (adoptParameters h hop htable (hquery schema rfl)).bind_same fun kinds₁ _ t t' hgrown halike _ => ?_
    exact putEncoding halike (hop.mono hgrown)

theorem classifyForm {query : Option Value} {body : Value} (h : s.Matches kinds s') (hroot : root.IsOf kinds [.root])
    (htable : table.schemas.IsOf kinds [.table]) (hop : op.content.IsOf kinds [.operation])
    (hbody : body.IsOf kinds Kind.referred) :
    Agree kinds s s' (classifyForm root table op query body) (Edit.classifyForm root table op query body)
      (Same fun _ _ => True) := by
  unfold Edit.classifyForm
  refine ite Iff.rfl (fun _ => refuse_bind) fun _ => ?_
  refine isTruthy_bind h hbody (by decide) fun c => ?_
  refine ite Iff.rfl (fun _ => refuse_bind) fun _ => ?_
  refine (explaining (contentOf h hroot hbody)).bind_of_runs fun kinds₁ content content' t t' hgrown halike hruns hsame => ?_
  obtain ⟨rfl, hmedia, hschema⟩ := hsame
  obtain ⟨rfl, hfinds⟩ := runs_contentOf.mp (runs_explaining.mp hruns)
  refine (adoptContent halike (hop.mono hgrown) (htable.mono hgrown) hmedia hschema hfinds).bind_same
    fun kinds₂ _ u u' hgrown' halike' _ => ?_
  exact putEncoding halike' ((hop.mono hgrown).mono hgrown')

/-- An operation is classified in the same way in both stores. -/
theorem classify (h : s.Matches kinds s') (hroot : root.IsOf kinds [.root]) (htable : table.schemas.IsOf kinds [.table])
    (hop : op.content.IsOf kinds [.operation]) :
    Agree kinds s s' (classify root table op) (Edit.classify root table op) (Same fun _ _ => True) := by
  unfold Edit.classify
  refine fieldOf_bind h hop (by decide) (l := [.parameters]) (by decide) fun declared hdeclared => ?_
  refine isTruthy_bind h hdeclared (by decide) fun c => ?_
  refine ite_bind (fun _ => groupParameters h hroot hdeclared) (fun _ => pure h ⟨rfl, by simp⟩)
    fun kinds₁ schemas t t' hgrown halike hschemas => ?_
  obtain ⟨path, query⟩ := schemas
  cases path with
  | none => exact refuse
  | some path =>
    have hop₁ := hop.mono hgrown
    refine (adoptParameters halike hop₁ (htable.mono hgrown) (hschemas path (.inl rfl))).bind_same
      fun kinds₂ _ u u' hgrown' hu _ => ?_
    have hroot₂ := (hroot.mono hgrown).mono hgrown'
    have htable₂ := (htable.mono hgrown).mono hgrown'
    have hop₂ := hop₁.mono hgrown'
    refine fieldOf_bind hu hop₂ (by decide) (l := [.described]) (by decide) fun declared hdeclared => ?_
    refine dereference_bind hu hroot₂ (hdeclared.of_subset (by decide)) fun body _ hbody => ?_
    have hquery : ∀ v ∈ query, v.IsOf kinds₂ [.schema] := fun v hv => (hschemas v (.inr hv)).mono hgrown'
    have hlast : ∀ kinds₃ (_ : PUnit) (x x' : Store), kinds₂ <+: kinds₃ → x.Matches kinds₃ x' → True →
        Agree kinds₃ x x' (Edit.classifyResponses root table op) (Edit.classifyResponses root table op)
          (Same fun _ _ => True) := fun kinds₃ _ x x' hgrown'' hx _ =>
      classifyResponses hx (hroot₂.mono hgrown'') (htable₂.mono hgrown'') (hop₂.mono hgrown'')
    cases op.method with
    | get => exact (classifyQuery hu htable₂ hop₂ hquery hbody).bind_same hlast
    | _ => exact (classifyForm hu hroot₂ htable₂ hop₂ hbody).bind_same hlast

theorem classifyAndName {names : Option MethodNames} (h : s.Matches kinds s') (hroot : root.IsOf kinds [.root])
    (htable : table.schemas.IsOf kinds [.table]) (hop : op.content.IsOf kinds [.operation]) :
    Agree kinds s s' (classifyAndName root table names op) (Edit.classifyAndName root table names op)
      (Same fun _ _ => True) := by
  unfold Edit.classifyAndName
  refine (classify h hroot htable hop).bind_same fun kinds₁ _ t t' hgrown halike _ => ?_
  cases names with
  | none => exact pure halike ⟨rfl, trivial⟩
  | some names =>
    dsimp only
    cases names.resolvePath op.path with
    | error f => exact throw
    | ok name =>
      exact putField halike (hop.mono hgrown) fun k hk =>
        ⟨Value.isOf_text, by simp [List.mem_singleton.mp hk, Kind.mayRefer]⟩

/-! ## Visits -/

section

variable {visit : Operation → Edit Unit}
  (hvisit : ∀ kinds₁ t t' op, kinds <+: kinds₁ → t.Matches kinds₁ t' → op.content.IsOf kinds₁ [.operation] →
    Agree kinds₁ t t' (visit op) (visit op) (Same fun _ _ => True))
include hvisit

/-- The methods of a path are visited in the same way in both stores. -/
theorem visitMethods {kinds₁ : List Kind} {t t' : Store} {path : String} {methods : Value} {remaining : List Method}
    (hgrown : kinds <+: kinds₁) (h : t.Matches kinds₁ t') (hmethods : methods.IsOf kinds₁ [.path]) :
    Agree kinds₁ t t' (visitMethods path methods visit remaining) (Edit.visitMethods path methods visit remaining)
      (Same fun _ _ => True) := by
  induction remaining generalizing kinds₁ t t' with
  | nil => exact pure h ⟨rfl, trivial⟩
  | cons method rest ih =>
    have hbelow : ∀ method : Method, Kind.path.below (some (.text method.text)) = [.operation] := by
      intro method
      cases method <;> decide
    have hne : ∀ method : Method, method.text ≠ descriptionKey := by
      intro method
      cases method <;> decide
    unfold Edit.visitMethods
    refine fieldOf_bind h hmethods (hne method) (l := [.operation]) (fun k hk => ?_) fun content hcontent => ?_
    · rw [List.mem_singleton.mp hk, hbelow]
      exact List.Subset.refl _
    refine isTruthy_bind h hcontent (by decide) fun c => ?_
    refine ite Iff.rfl (fun _ => ?_) fun _ => ih hgrown h hmethods
    refine (hvisit kinds₁ t t' _ hgrown h hcontent).bind_same fun kinds₂ _ u u' hgrown' halike _ => ?_
    refine (ih (hgrown.trans hgrown') halike (hmethods.mono hgrown')).bind_same fun kinds₃ count x x' _ halike' _ => ?_
    exact pure halike' ⟨rfl, trivial⟩

/-- The operations of a document are visited in the same way in both stores. -/
theorem visitOperations (h : s.Matches kinds s') (hroot : root.IsOf kinds [.root]) :
    Agree kinds s s' (visitOperations root visit) (Edit.visitOperations root visit) (Same fun _ _ => True) := by
  unfold Edit.visitOperations
  refine fieldOf_bind h hroot (by decide) (l := [.paths]) (by decide) fun paths hpaths => ?_
  refine isTruthy_bind h hpaths (by decide) fun c => ?_
  refine ite Iff.rfl (fun _ => ?_) fun _ => pure h ⟨rfl, trivial⟩
  refine foldEntries h hpaths (by decide) trivial fun kinds₁ count t t' key methods k hgrown halike _ hk hmethods => ?_
  obtain rfl := List.mem_singleton.mp hk
  have hmethods' : methods.IsOf kinds₁ [.path] := by
    rwa [Kind.below_of_forall_ne (by simp [Kind.fields])] at hmethods
  refine ofExcept_bind rfl fun path _ => ?_
  refine isTruthy_bind halike hmethods' (by decide) fun c => ?_
  refine ite Iff.rfl (fun _ => ?_) fun _ => pure halike ⟨rfl, trivial⟩
  exact (visitMethods hvisit hgrown halike hmethods').bind_same fun _ _ _ _ _ halike' _ => pure halike' ⟨rfl, trivial⟩

end

end Agree

end Edit

end DeviceApi
