import DeviceApi.Proofs.Kinds.Operations
import DeviceApi.Proofs.Kinds.ShapeKeys
import DeviceApi.Proofs.Schema.Canonical

/-!
# Schemas in stores that differ in descriptions

The envelope of a schema is checked without descriptions, and neither its removal nor canonical form looks at one. So
the schemas of the table are treated in the same way in two stores that are alike.
-/

namespace DeviceApi

variable {kinds ks : List Kind} {k : Kind} {s s' : Store} {v w : Value} {entries entries' : Entries Value}
  {table : SchemaTable} {role : Role} {name : Scalar} {key : String} {p : Scalar → Bool} {i : Nat}

namespace Cell.Fits

theorem nil : (Cell.object []).Fits kinds k :=
  .object ⟨by simp, by simp⟩ (by simp) (by simp)

/-- Some of the entries of a node may stand alone. -/
theorem filter {q : Scalar × Value → Bool} (h : (Cell.object entries).Fits kinds k) (hne : k ≠ .loose) :
    (Cell.object (entries.filter q)).Fits kinds k where
  json _ := by
    cases h.json hne with
    | object hkeys hnodup =>
      have hsub : (Entries.keys (entries.filter q)).Sublist entries.keys := List.filter_sublist.map _
      exact .object (fun key hkey => hkeys key (hsub.subset hkey)) (hnodup.sublist hsub)
  keyed hk entries' heq := Cell.object.inj heq ▸ (h.textKeyed hk).filter
  places e he := by
    obtain ⟨place, v⟩ := e
    obtain ⟨key, rfl, hmem⟩ := mem_places_object.mp he
    exact h.entry (List.mem_filter.mp hmem).1
  pointer hk entries' p heq hget := by
    obtain rfl : entries.filter q = entries' := by simpa using heq
    have hmem := (List.mem_filter.mp (Entries.mem_of_get? hget)).1
    cases h.json hne with
    | object _ hnodup => exact h.pointer hk entries p rfl (Entries.get?_of_mem hnodup hmem)

/-- What says nothing about a type may stand in place of the properties of a schema. -/
theorem of_plain (h : (Cell.object entries).Fits kinds .plain) : (Cell.object entries).Fits kinds .properties where
  json _ := h.json (by simp)
  keyed hk := by simp [Kind.isTextKeyed] at hk
  places e he := by
    obtain ⟨place, v⟩ := e
    obtain ⟨key, rfl, hmem⟩ := mem_places_object.mp he
    have hof := h.entry hmem
    rw [Kind.below_plain] at hof
    rw [Kind.below_properties]
    exact hof.of_subset (by decide)
  pointer hk := by simp [Kind.mayRefer] at hk

end Cell.Fits

namespace Edit

namespace Agree

/-! ## Envelopes -/

/-- A schema has the same role in both stores. -/
theorem roleOf (h : s.Matches kinds s') (hv : v.IsOf kinds Kind.referred) :
    Agree kinds s s' (roleOf v) (Edit.roleOf v) (Same fun _ _ => True) := by
  have hbelow := Kind.below_referred roleKey (by simp)
  unfold Edit.roleOf
  refine fieldOf_bind h hv (by decide) (l := [.plain]) (fun k hk => (hbelow k hk) ▸ List.Subset.refl _)
    fun tag htag => ?_
  refine look_bind (h.shape_eq htag (by decide)) ?_
  split
  · exact pure h ⟨rfl, trivial⟩
  · split
    · exact pure h ⟨rfl, trivial⟩
    · exact refuse
  · exact (shownTree h (htag.of_subset (by decide))).bind_same fun _ _ _ _ _ _ _ => refuse

/-- The fields of an envelope are checked without descriptions. -/
theorem envelopeMismatches {fields : List (String × Tree)} (h : s.Matches kinds s')
    (hentries : ∀ e ∈ entries, e.2.IsOf kinds [.schema, .property, .plain]) :
    Agree kinds s s' (envelopeMismatches entries fields) (Edit.envelopeMismatches entries fields)
      (Same fun _ _ => True) := by
  induction fields with
  | nil => exact pure h ⟨rfl, trivial⟩
  | cons field rest ih =>
    have hdeclared : ((entries.get? (.text field.1)).getD .null).IsOf kinds [.schema, .property, .plain] := by
      cases hget : entries.get? (.text field.1) with
      | none => exact Value.isOf_null
      | some v => exact hentries _ (Entries.mem_of_get? hget)
    unfold Edit.envelopeMismatches
    refine read_bind (x := .ok _) (y := .ok _) rfl rfl (.inr ⟨_, _, rfl, rfl, ?_⟩)
    refine ofExcept_bind (h.withoutOptional_tree_eq hdeclared (by decide)) fun shape _ => ?_
    exact ih.bind_same fun _ more t t' _ halike _ => pure halike ⟨rfl, trivial⟩

theorem requiredBeyondEnvelope (h : s.Matches kinds s') (hv : v.IsOf kinds [.plain]) :
    Agree kinds s s' (requiredBeyondEnvelope role v) (Edit.requiredBeyondEnvelope role v)
      (Same fun kinds names => ∀ w ∈ names, w.IsOf kinds [.plain]) := by
  unfold Edit.requiredBeyondEnvelope
  refine elementsOf_bind h hv (l := [.plain]) (by decide) fun items hitems => ?_
  refine (filterM h fun name hname kinds₁ t t' hgrown halike => ?_).mono fun kinds₁ names names' hgrown hsame =>
    ⟨hsame.1, fun w hw => (hitems w (hsame.2 hw)).mono hgrown⟩
  have hof := (hitems name hname).mono hgrown
  refine look_bind (halike.shape_eq hof (by decide)) ?_
  split
  · exact pure halike ⟨rfl, trivial⟩
  · have hkey : t'.mayBeKey name = t.mayBeKey name := by
      unfold Store.mayBeKey
      rw [halike.shape_eq hof (by decide)]
      split
      · rfl
      · next key value hshape => exact absurd hshape (halike.shape_ne_pair hof (by decide))
      · rfl
    refine get_bind ?_
    rw [hkey]
    exact ite Iff.rfl (fun _ => pure halike ⟨rfl, trivial⟩) fun _ => misfit

/-- The envelope of a schema is checked and removed in the same way in both stores. What has been in the properties of
a schema stays there. -/
theorem stripEnvelope (h : s.Matches kinds s') (hv : v.IsOf kinds [.schema, .plain]) :
    Agree kinds s s' (stripEnvelope name v) (Edit.stripEnvelope name v) (Same fun _ _ => True) := by
  have hkind : ∃ k below, (k, below) ∈ [(Kind.schema, Kind.properties), (.plain, .plain)] ∧ v.IsOf kinds [k] := by
    cases v with
    | scalar a => exact ⟨.schema, .properties, by simp, hv.imp_right (by simp)⟩
    | node i =>
      obtain ⟨k, hk, hi⟩ := hv
      rcases List.mem_pair.mp hk with rfl | rfl
      · exact ⟨.schema, .properties, by simp, .schema, List.mem_singleton_self _, hi⟩
      · exact ⟨.plain, .plain, by simp, .plain, List.mem_singleton_self _, hi⟩
  obtain ⟨k, below, hk, hof⟩ := hkind
  have hkeys : k ∈ Kind.referred ∧ k.below (some (.text "properties")) ⊆ [below, .plain] ∧
      below ∈ k.below (some (.text "properties")) ∧ k.below (some (.text "required")) = [.plain] := by
    have hall : ∀ e ∈ [(Kind.schema, Kind.properties), (.plain, .plain)], e.1 ∈ Kind.referred ∧
        e.1.below (some (.text "properties")) ⊆ [e.2, .plain] ∧ e.2 ∈ e.1.below (some (.text "properties")) ∧
        e.1.below (some (.text "required")) = [.plain] := by decide
    exact hall _ hk
  have hbelow : below = .properties ∨ below = .plain := by
    rcases List.mem_pair.mp hk with heq | heq
    · exact .inl (Prod.mk.inj heq).2
    · exact .inr (Prod.mk.inj heq).2
  obtain ⟨hreferred, hproperties, hmem, hrequired⟩ := hkeys
  unfold Edit.stripEnvelope
  refine (roleOf h (hof.of_subset (by simpa using hreferred))).bind_same fun kinds₁ role t t' hgrown halike _ => ?_
  have hof₁ := hof.mono hgrown
  cases role with
  | none => exact pure halike ⟨rfl, trivial⟩
  | some role =>
    refine ite Iff.rfl (fun _ => pure halike ⟨rfl, trivial⟩) fun _ => ?_
    refine fieldOf_bind halike hof₁ (by decide) (l := [below, .plain]) (by simpa using hproperties) fun declared hdeclared => ?_
    refine optionalEntries_bind halike hdeclared (by rcases hbelow with rfl | rfl <;> decide)
      fun properties hentries => ?_
    have hfits : (Cell.object properties).Fits kinds₁ below := by
      rcases hentries with rfl | ⟨k', hk', hfits⟩
      · exact .nil
      · rcases List.mem_pair.mp hk' with rfl | rfl
        · exact hfits
        · rcases hbelow with rfl | rfl
          · exact hfits.of_plain
          · exact hfits
    have hall : ∀ e ∈ properties, e.2.IsOf kinds₁ [.schema, .property, .plain] := fun e he => by
      have hof := hfits.entry he
      rcases hbelow with rfl | rfl
      · rwa [Kind.below_properties] at hof
      · exact hof.of_subset (by simp)
    refine (envelopeMismatches halike hall).bind_same fun kinds₂ mismatches u u' hgrown' hu _ => ?_
    refine ite Iff.rfl (fun _ => ?_) fun _ => ?_
    · exact (textOf hu).bind_same fun _ _ _ _ _ _ _ => refuse_bind
    have hkept := (hfits.mono hgrown').filter (q := fun property => !role.hasEnvelopeField property.1)
      (by rcases hbelow with rfl | rfl <;> decide)
    refine (newObject hu (.refl (hkept.mono (List.prefix_append _ _)))).bind_same
      fun kinds₃ node x x' hgrown'' hx hnode => ?_
    have hof₃ := (hof₁.mono hgrown').mono hgrown''
    refine (putField hx hof₃ fun k' hk' => ?_).bind_same fun kinds₄ _ y y' hlast hy _ => ?_
    · obtain rfl := List.mem_singleton.mp hk'
      exact ⟨hnode.of_subset (by simpa using hmem), fun _ => by decide⟩
    have hof₄ := hof₃.mono hlast
    refine entriesOf_bind hy hof₄ fun k' entries entries' hk' hentries' => ?_
    obtain rfl := List.mem_singleton.mp hk'
    rw [hentries'.get?_eq (by decide)]
    cases hget : entries.get? (.text "required") with
    | none => exact pure hy ⟨rfl, trivial⟩
    | some required =>
      have hof : required.IsOf kinds₄ [.plain] := hrequired ▸ hentries'.fits.get? hget
      refine (requiredBeyondEnvelope hy hof).bind_same fun kinds₅ names z z' hgrown₅ hz hnames => ?_
      have hof₅ := hof₄.mono hgrown₅
      refine ite Iff.rfl (fun _ => removeField hz hof₅ (by decide) fun _ _ _ => by decide) fun _ => ?_
      refine (newList (k := .plain) hz hnames).bind_same fun kinds₆ node o o' hgrown₆ ho hnode' => ?_
      refine putField ho (hof₅.mono hgrown₆) fun k'' hk'' => ?_
      obtain rfl := List.mem_singleton.mp hk''
      exact ⟨hrequired ▸ hnode', fun _ => by decide⟩

/-- An entry of the table is a schema, or says nothing about a type. -/
theorem isOf_tableEntry {kinds' : List Kind} {e : Scalar × Value} (hfits : (Cell.object entries).Fits kinds .table)
    (he : e ∈ entries) (hgrown : kinds <+: kinds') : e.2.IsOf kinds' [.schema, .plain] := by
  refine ((hfits.entry he).mono hgrown).of_subset ?_
  rw [Kind.below_of_forall_ne (by simp [Kind.fields])]
  decide

/-- The envelopes of all schemas are removed in the same way in both stores. -/
theorem stripEnvelopes (h : s.Matches kinds s') (htable : table.schemas.IsOf kinds [.table]) :
    Agree kinds s s' (stripEnvelopes table) (Edit.stripEnvelopes table) (Same fun _ _ => True) := by
  unfold Edit.stripEnvelopes SchemaTable.entries
  refine entriesOf_bind h htable fun k entries entries' hk halike => ?_
  obtain rfl := List.mem_singleton.mp hk
  obtain rfl := halike.same rfl
  refine (forIn h fun e he kinds₁ t t' hgrown halike' => ?_).bind_same fun _ _ t t' _ halike' _ =>
    pure halike' ⟨rfl, trivial⟩
  have hschema := isOf_tableEntry halike.fits he hgrown
  refine isReference_bind halike' hschema ?_
  refine ite Iff.rfl (fun _ => ?_) fun _ => pure halike' ⟨rfl, rfl⟩
  exact (stripEnvelope halike' hschema).bind_same fun _ _ _ _ _ halike'' _ => pure halike'' ⟨rfl, rfl⟩

end Agree

end Edit

/-! ## Canonical form -/

namespace Entries.AlikeIn

section

variable (h : s.Matches kinds s') (halike : entries.AlikeIn kinds k entries')
include h halike

theorem bind_scalar?_eq (hne : key ≠ descriptionKey) :
    (entries'.get? (.text key)).bind s'.scalar? = (entries.get? (.text key)).bind s.scalar? := by
  rw [halike.get?_eq hne]
  cases hget : entries.get? (.text key) with
  | none => rfl
  | some v => exact h.scalar?_eq (halike.fits.get? hget)

theorem dropIf (hne : key ≠ descriptionKey) (href : key ≠ referenceKey) :
    (entries.dropIf s.scalar? (.text key) p).AlikeIn kinds k (entries'.dropIf s'.scalar? (.text key) p) := by
  unfold Entries.dropIf
  rw [bind_scalar?_eq h halike hne]
  split
  · split
    · exact halike.remove hne fun _ => href
    · exact halike
  · exact halike

theorem dropBounds {format : Scalar} : (canonicalInteger.dropBounds s.scalar? format entries).AlikeIn kinds k
    (canonicalInteger.dropBounds s'.scalar? format entries') := by
  unfold canonicalInteger.dropBounds
  split
  · exact halike
  · exact dropIf h (dropIf h halike (by decide) (by decide)) (by decide) (by decide)

/-- The entries of a schema are brought into canonical form in the same way in both stores. -/
theorem answers_canonicalOfType {type : Scalar} : Answers (fun after after' => after.AlikeIn kinds k after')
    (entries.canonicalOfType s.scalar? .text type) (entries'.canonicalOfType s'.scalar? .text type) := by
  have hdefault : ∀ {others others' : Entries Value} {p : Scalar → Bool}, others.AlikeIn kinds k others' →
      (others.dropIf s.scalar? "default" p).AlikeIn kinds k (others'.dropIf s'.scalar? "default" p) := fun hothers =>
    dropIf h hothers (by decide) (by decide)
  have hinteger : Answers (fun after after' => after.AlikeIn kinds k after') (entries.canonicalInteger s.scalar? .text)
      (entries'.canonicalInteger s'.scalar? .text) := by
    unfold canonicalInteger
    rw [halike.get?_eq (show "format" ≠ descriptionKey by decide)]
    cases hformat : entries.get? (.text "format") with
    | none => exact .ok (dropBounds h (halike.put Value.isOf_text fun _ => by decide))
    | some format =>
      dsimp only
      rw [h.scalar?_eq (halike.fits.get? hformat)]
      cases s.scalar? format with
      | none => exact .error _
      | some a => exact .ok (dropBounds h halike)
  unfold canonicalOfType
  split
  · exact .ok (hdefault halike)
  · exact .ok (hdefault halike)
  · exact .ok (hdefault halike)
  · exact hinteger.map fun _ _ hafter => hdefault hafter
  · exact .ok halike

end

end Entries.AlikeIn

namespace Edit

namespace Agree

variable {β : Type} {R : List Kind → β → β → Prop} {after after' : Entries Value}

/-- A node is given entries in both stores. -/
theorem set_object (h : s.Matches kinds s') (hi : kinds[i]? = some k) (halike : after.AlikeIn kinds k after') :
    Agree kinds s s' (set (s.set i (.object after))) (set (s'.set i (.object after'))) (Same fun _ _ => True) :=
  ⟨kinds, List.prefix_rfl, h.set hi halike.cells halike.fits halike.fits', rfl, trivial⟩

theorem ofAnswers_bind {α : Type} {next next' : α → Edit β} {S : α → α → Prop} {answer answer' : Except Misfit α}
    (hanswers : Answers S answer answer') (hnext : ∀ a a', S a a' → Agree kinds s s' (next a) (next' a') R) :
    Agree kinds s s' (Edit.ofExcept answer >>= next) (Edit.ofExcept answer' >>= next') R := by
  cases hanswers with
  | error m => exact read_bind rfl rfl (.inl ⟨_, rfl, rfl⟩)
  | ok hok => exact read_bind rfl rfl (.inr ⟨_, _, rfl, rfl, hnext _ _ hok⟩)

/-- A schema is brought into canonical form in the same way in both stores. -/
theorem canonicalizeWithin (depth : Nat) (h : s.Matches kinds s')
    (hv : v.IsOf kinds [.schema, .property, .plain, .loose]) :
    Agree kinds s s' (canonicalizeWithin depth v) (Edit.canonicalizeWithin depth v) (Same fun _ _ => True) := by
  induction depth generalizing kinds s s' v with
  | zero => exact misfit
  | succ depth ih =>
    unfold Edit.canonicalizeWithin
    refine isReference_bind h hv ?_
    refine ite Iff.rfl (fun _ => pure h ⟨rfl, trivial⟩) fun _ => ?_
    refine objectOf_bind h hv fun i k entries entries' hk hi hshape hshape' halike => get_bind ?_
    dsimp only
    rw [halike.bind_scalar?_eq h (by decide)]
    generalize ((entries.get? (.text "type")).bind s.scalar?).getD .null = type
    refine ofAnswers_bind (halike.answers_canonicalOfType h) fun after after' hafter => ?_
    refine (set_object h hi hafter).bind_same fun kinds₁ _ t t' hgrown halike' _ => ?_
    have hbelow : ∀ k ∈ [Kind.schema, .property, .plain, .loose],
        k.below (some (.text "items")) ⊆ [.schema, .property, .plain, .loose] ∧
        k.below (some (.text "properties")) ⊆ [.properties, .plain, .loose] := by decide
    split
    · have hitems : ((entries.get? (.text "items")).getD .null).IsOf kinds [.schema, .property, .plain, .loose] :=
        halike.isOf_getD.of_subset (hbelow k hk).1
      rw [halike.get?_eq (by decide)]
      have hsome : (s'.entries? ((entries.get? (.text "items")).getD .null)).isSome =
          (s.entries? ((entries.get? (.text "items")).getD .null)).isSome := by
        rcases h.object_cases hitems with ⟨hnone, hnone'⟩ | ⟨j, k', others, others', -, -, hother, hother', -⟩
        · rw [hnone, hnone']
        · rw [Store.entries?_eq_some.mpr ⟨j, hother⟩, Store.entries?_eq_some.mpr ⟨j, hother'⟩]
          rfl
      rw [hsome]
      exact ite Iff.rfl (fun _ => ih halike' (hitems.mono hgrown)) fun _ => pure halike' ⟨rfl, trivial⟩
    · have hproperties : ((entries.get? (.text "properties")).getD .null).IsOf kinds₁ [.properties, .plain, .loose] :=
        (halike.isOf_getD.of_subset (hbelow k hk).2).mono hgrown
      rw [halike.get?_eq (by decide)]
      refine isTruthy_bind halike' hproperties (by decide) fun c => ?_
      refine ite Iff.rfl (fun _ => ?_) fun _ => pure halike' ⟨rfl, trivial⟩
      refine foldEntries halike' hproperties (by decide) trivial
        fun kinds₂ _ u u' key w k' hgrown' hu _ hk' hw => ih hu (hw.of_subset ?_)
      simp only [List.mem_cons, List.not_mem_nil, or_false] at hk'
      rcases hk' with rfl | rfl | rfl
      · rw [Kind.below_properties]
        decide
      · rw [Kind.below_plain]
        decide
      · rw [Kind.below_loose]
        decide
    · exact pure halike' ⟨rfl, trivial⟩

theorem canonicalize (h : s.Matches kinds s') (hv : v.IsOf kinds [.schema, .property, .plain, .loose]) :
    Agree kinds s s' (canonicalize v) (Edit.canonicalize v) (Same fun _ _ => True) := by
  unfold Edit.canonicalize
  refine get_bind ?_
  rw [h.size_eq]
  exact canonicalizeWithin _ h hv

/-- All schemas are brought into canonical form in the same way in both stores. -/
theorem canonicalizeTable (h : s.Matches kinds s') (htable : table.schemas.IsOf kinds [.table]) :
    Agree kinds s s' (canonicalizeTable table) (Edit.canonicalizeTable table) (Same fun _ _ => True) := by
  unfold Edit.canonicalizeTable SchemaTable.entries
  refine entriesOf_bind h htable fun k entries entries' hk halike => ?_
  obtain rfl := List.mem_singleton.mp hk
  obtain rfl := halike.same rfl
  refine (forIn h fun e he kinds₁ t t' hgrown halike' => ?_).bind_same fun _ _ t t' _ halike' _ =>
    pure halike' ⟨rfl, trivial⟩
  have hschema := isOf_tableEntry halike.fits he hgrown
  refine isReference_bind halike' hschema ?_
  refine ite Iff.rfl (fun _ => ?_) fun _ => pure halike' ⟨rfl, rfl⟩
  exact (canonicalize halike' (hschema.of_subset (by decide))).bind_same fun _ _ _ _ _ halike'' _ =>
    pure halike'' ⟨rfl, rfl⟩

end Agree

end Edit

end DeviceApi
