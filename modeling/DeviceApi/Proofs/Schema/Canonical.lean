import DeviceApi.Proofs.Document.Frames
import DeviceApi.Proofs.Document.Runs
import DeviceApi.Schema.Canonical

/-!
# What canonical form does to a store

Bringing a schema into canonical form rewrites objects below the schema and nothing else. An
object loses entries and is given scalars, so the schema still holds a tree, and no node comes to
lie below it.
-/

namespace DeviceApi

variable {s s' s'' : Store} {v w : Value} {t : Tree} {id i : Nat}

namespace Entries

variable {α : Type} {scalar? : α → Option Scalar} {ofText : String → α}
  {entries canonical : Entries α} {e : Scalar × α}

theorem mem_of_mem_dropIf {key : Scalar} {p : Scalar → Bool}
    (h : e ∈ entries.dropIf scalar? key p) : e ∈ entries := by
  unfold dropIf at h
  split at h
  · split at h
    · exact mem_of_mem_remove h
    · exact h
  · exact h

theorem mem_of_mem_dropBounds {format : Scalar}
    (h : e ∈ canonicalInteger.dropBounds scalar? format entries) : e ∈ entries := by
  unfold canonicalInteger.dropBounds at h
  split at h
  · exact h
  · exact mem_of_mem_dropIf (mem_of_mem_dropIf h)

/-- The entries of an integer in canonical form were there before, except for the format. -/
theorem mem_canonicalInteger (h : entries.canonicalInteger scalar? ofText = .ok canonical)
    (he : e ∈ canonical) :
    e ∈ entries ∨ e = (.text "format", ofText defaultIntegerFormat) := by
  unfold canonicalInteger at h
  split at h
  · obtain rfl := Except.ok.inj h
    rcases mem_put (mem_of_mem_dropBounds he) with hmem | ⟨hkey, hvalue⟩
    · exact .inl hmem
    · exact .inr (Prod.ext hkey hvalue)
  · split at h
    · cases h
    · obtain rfl := Except.ok.inj h
      exact .inl (mem_of_mem_dropBounds he)

/-- The entries of a schema in canonical form were there before, except for a format. -/
theorem mem_canonicalOfType {type : Scalar}
    (h : entries.canonicalOfType scalar? ofText type = .ok canonical) (he : e ∈ canonical) :
    e ∈ entries ∨ e = (.text "format", ofText defaultIntegerFormat) := by
  unfold canonicalOfType at h
  split at h
  · obtain rfl := Except.ok.inj h
    exact .inl (mem_of_mem_dropIf he)
  · obtain rfl := Except.ok.inj h
    exact .inl (mem_of_mem_dropIf he)
  · obtain rfl := Except.ok.inj h
    exact .inl (mem_of_mem_dropIf he)
  · cases hinteger : entries.canonicalInteger scalar? ofText with
    | error m =>
      rw [hinteger] at h
      cases h
    | ok entries' =>
      rw [hinteger] at h
      obtain rfl := Except.ok.inj h
      exact mem_canonicalInteger hinteger (mem_of_mem_dropIf he)
  · obtain rfl := Except.ok.inj h
    exact .inl he

/-- Entries have a canonical form unless they are those of an integer whose format is no scalar. -/
theorem exists_canonicalOfType_iff {type : Scalar} :
    (∃ c, entries.canonicalOfType scalar? ofText type = .ok c) ↔
      (type = .text "integer" → ∀ w, entries.get? "format" = some w → ∃ a, scalar? w = some a) := by
  unfold canonicalOfType
  split
  · simp
  · simp
  · simp
  · rw [canonicalInteger]
    cases entries.get? "format" with
    | none => simp [bind, Except.bind, pure, Except.pure]
    | some format => cases hformat : scalar? format <;> simp [hformat, bind, Except.bind, pure, Except.pure]
  · next hother => exact iff_of_true ⟨_, rfl⟩ fun htype => absurd htype hother

/-! ## Entries in canonical form -/

/-- The keys under which a schema may differ from its canonical form. -/
def annotationKeys : List String := ["default", "minimum", "maximum", "format"]

/-- Nothing stands under the key that would be dropped. -/
def Kept (scalar? : α → Option Scalar) (key : String) (p : Scalar → Bool) (entries : Entries α) : Prop :=
  ∀ s, (entries.get? key).bind scalar? = some s → p s = false

variable {key key' : String} {p q : Scalar → Bool} {type format : Scalar}

theorem dropIf_of_kept (h : Kept scalar? key p entries) :
    entries.dropIf scalar? (.text key) p = entries := by
  unfold dropIf
  split
  · next s hs => simp [h s hs]
  · rfl

theorem get?_dropIf_of_ne (hne : key ≠ key') :
    (entries.dropIf scalar? (.text key) p).get? (.text key') = entries.get? (.text key') := by
  unfold dropIf
  split
  · split
    · exact get?_remove_of_ne hne
    · rfl
  · rfl

theorem Kept.dropIf (h : Kept scalar? key p entries) (hne : key' ≠ key) :
    Kept scalar? key p (entries.dropIf scalar? (.text key') q) := by
  intro s hs
  rw [get?_dropIf_of_ne hne] at hs
  exact h s hs

theorem get?_dropBounds (hkey : key ∉ annotationKeys) :
    (canonicalInteger.dropBounds scalar? format entries).get? (.text key) = entries.get? (.text key) := by
  simp only [annotationKeys, List.mem_cons, List.not_mem_nil, or_false, not_or] at hkey
  unfold canonicalInteger.dropBounds
  split
  · rfl
  · rw [get?_dropIf_of_ne (Ne.symm hkey.2.2.1), get?_dropIf_of_ne (Ne.symm hkey.2.1)]

theorem get?_format_dropBounds :
    (canonicalInteger.dropBounds scalar? format entries).get? "format" = entries.get? "format" := by
  unfold canonicalInteger.dropBounds
  split
  · rfl
  · rw [get?_dropIf_of_ne (by decide), get?_dropIf_of_ne (by decide)]

/-! ### Keys that do not repeat -/

section

variable (hnodup : entries.keys.Nodup)
include hnodup

theorem nodup_dropIf : (entries.dropIf scalar? (.text key) p).keys.Nodup := by
  unfold dropIf
  split
  · split
    · exact nodup_keys_remove hnodup
    · exact hnodup
  · exact hnodup

theorem nodup_dropBounds : (canonicalInteger.dropBounds scalar? format entries).keys.Nodup := by
  unfold canonicalInteger.dropBounds
  split
  · exact hnodup
  · exact nodup_dropIf (nodup_dropIf hnodup)

theorem kept_dropIf : Kept scalar? key p (entries.dropIf scalar? (.text key) p) := by
  unfold dropIf
  intro s' hs'
  split at hs'
  · next s hs =>
    split at hs'
    · simp [get?_remove hnodup] at hs'
    · next hp =>
      obtain rfl : s = s' := by simpa [hs] using hs'
      simpa using hp
  · next hnone => simp [hnone] at hs'

/-- Once the bounds of a format have been dropped, they stay so when a default is. -/
theorem dropBounds_dropIf :
    canonicalInteger.dropBounds scalar? format
        ((canonicalInteger.dropBounds scalar? format entries).dropIf scalar? "default" p) =
      (canonicalInteger.dropBounds scalar? format entries).dropIf scalar? "default" p := by
  unfold canonicalInteger.dropBounds
  split
  · rfl
  · next low high _ =>
    have hlow : Kept scalar? "minimum" (fun s => s.isInteger low)
        (entries.dropIf scalar? "minimum" fun s => s.isInteger low) := kept_dropIf hnodup
    have hhigh : Kept scalar? "maximum" (fun s => s.isInteger high)
        ((entries.dropIf scalar? "minimum" fun s => s.isInteger low).dropIf scalar? "maximum"
          fun s => s.isInteger high) := kept_dropIf (nodup_dropIf hnodup)
    rw [dropIf_of_kept ((hlow.dropIf (by decide)).dropIf (by decide)),
      dropIf_of_kept (hhigh.dropIf (by decide))]

/-- An integer in canonical form states a format, and the bounds of that format are dropped. -/
theorem canonicalInteger_eq_ok (h : entries.canonicalInteger scalar? ofText = .ok canonical)
    (hofText : ∀ t, scalar? (ofText t) = some (.text t)) :
    ∃ format v, ∃ before : Entries α, before.keys.Nodup ∧ before.get? "format" = some v ∧
      scalar? v = some format ∧ canonical = canonicalInteger.dropBounds scalar? format before ∧
      ∀ key, key ≠ "format" → before.get? (.text key) = entries.get? (.text key) := by
  unfold canonicalInteger at h
  split at h
  · refine ⟨_, _, _, nodup_keys_put hnodup, get?_put_self, hofText _, (Except.ok.inj h).symm, fun key hkey => ?_⟩
    rw [get?_put, if_neg (Ne.symm hkey)]
  · next v hv =>
    split at h
    · cases h
    · next s hs => exact ⟨s, v, entries, hnodup, hv, hs, (Except.ok.inj h).symm, fun _ _ => rfl⟩

/-- Other keys keep what stands under them. -/
theorem get?_canonicalOfType (h : entries.canonicalOfType scalar? ofText type = .ok canonical)
    (hofText : ∀ t, scalar? (ofText t) = some (.text t)) (hkey : key ∉ annotationKeys) :
    canonical.get? (.text key) = entries.get? (.text key) := by
  have hdefault : "default" ≠ key := by
    rintro rfl
    simp [annotationKeys] at hkey
  have hformat : key ≠ "format" := by
    rintro rfl
    simp [annotationKeys] at hkey
  unfold canonicalOfType at h
  split at h
  · obtain rfl := Except.ok.inj h
    exact get?_dropIf_of_ne hdefault
  · obtain rfl := Except.ok.inj h
    exact get?_dropIf_of_ne hdefault
  · obtain rfl := Except.ok.inj h
    exact get?_dropIf_of_ne hdefault
  · cases hinteger : entries.canonicalInteger scalar? ofText with
    | error m =>
      rw [hinteger] at h
      cases h
    | ok middle =>
      rw [hinteger] at h
      obtain rfl := Except.ok.inj h
      obtain ⟨format, v, before, hbefore, -, -, rfl, hothers⟩ := canonicalInteger_eq_ok hnodup hinteger hofText
      rw [get?_dropIf_of_ne hdefault, get?_dropBounds hkey, hothers key hformat]
  · obtain rfl := Except.ok.inj h
    rfl

theorem nodup_canonicalOfType (h : entries.canonicalOfType scalar? ofText type = .ok canonical)
    (hofText : ∀ t, scalar? (ofText t) = some (.text t)) : canonical.keys.Nodup := by
  unfold canonicalOfType at h
  split at h
  · obtain rfl := Except.ok.inj h
    exact nodup_dropIf hnodup
  · obtain rfl := Except.ok.inj h
    exact nodup_dropIf hnodup
  · obtain rfl := Except.ok.inj h
    exact nodup_dropIf hnodup
  · cases hinteger : entries.canonicalInteger scalar? ofText with
    | error m =>
      rw [hinteger] at h
      cases h
    | ok middle =>
      rw [hinteger] at h
      obtain rfl := Except.ok.inj h
      obtain ⟨format, v, before, hbefore, -, -, rfl, -⟩ := canonicalInteger_eq_ok hnodup hinteger hofText
      exact nodup_dropIf (nodup_dropBounds hbefore)
  · obtain rfl := Except.ok.inj h
    exact hnodup

/-- The canonical form of entries is its own canonical form. -/
theorem canonicalOfType_canonical (h : entries.canonicalOfType scalar? ofText type = .ok canonical)
    (hofText : ∀ t, scalar? (ofText t) = some (.text t)) :
    canonical.canonicalOfType scalar? ofText type = .ok canonical := by
  unfold canonicalOfType at h ⊢
  split at h
  · obtain rfl := Except.ok.inj h
    exact congrArg Except.ok (dropIf_of_kept (kept_dropIf hnodup))
  · obtain rfl := Except.ok.inj h
    exact congrArg Except.ok (dropIf_of_kept (kept_dropIf hnodup))
  · obtain rfl := Except.ok.inj h
    exact congrArg Except.ok (dropIf_of_kept (kept_dropIf hnodup))
  · cases hinteger : entries.canonicalInteger scalar? ofText with
    | error m =>
      rw [hinteger] at h
      cases h
    | ok middle =>
      rw [hinteger] at h
      obtain rfl := Except.ok.inj h
      obtain ⟨format, v, before, hbefore, hv, hformat, rfl, -⟩ :=
        canonicalInteger_eq_ok hnodup hinteger hofText
      have hnodup' : (canonicalInteger.dropBounds scalar? format before).keys.Nodup :=
        nodup_dropBounds hbefore
      have hagain : (Entries.dropIf scalar? "default" Scalar.isZeroNumber
          (canonicalInteger.dropBounds scalar? format before)).canonicalInteger scalar? ofText =
          .ok (Entries.dropIf scalar? "default" Scalar.isZeroNumber
            (canonicalInteger.dropBounds scalar? format before)) := by
        rw [canonicalInteger, get?_dropIf_of_ne (by decide), get?_format_dropBounds, hv]
        simp only [hformat]
        rw [dropBounds_dropIf hbefore]
      rw [hagain]
      exact congrArg Except.ok (dropIf_of_kept (kept_dropIf hnodup'))
  · rfl

end

/-- What may become of the entries of an object below a schema when this is brought into canonical
form. -/
structure Trimmed (before after : Entries Value) : Prop where
  mem : ∀ e ∈ after, e ∈ before ∨ e.1 = .text "format" ∧ ∃ x, e.2 = .scalar x
  nodup : before.keys.Nodup → after.keys.Nodup
  get?_eq : before.keys.Nodup → ∀ key, key ∉ annotationKeys →
    after.get? (.text key) = before.get? (.text key)

theorem Trimmed.trans {before middle after : Entries Value} (h : Trimmed before middle)
    (h' : Trimmed middle after) : Trimmed before after where
  mem e he := (h'.mem e he).elim (h.mem e) .inr
  nodup hnodup := h'.nodup (h.nodup hnodup)
  get?_eq hnodup key hkey := (h'.get?_eq (h.nodup hnodup) key hkey).trans (h.get?_eq hnodup key hkey)

theorem trimmed_canonicalOfType {before after : Entries Value} {scalar? : Value → Option Scalar}
    (h : before.canonicalOfType scalar? .text type = .ok after)
    (hofText : ∀ t : String, scalar? (.text t) = some (.text t)) : Trimmed before after where
  mem e he := by
    rcases mem_canonicalOfType h he with hold | rfl
    · exact .inl hold
    · exact .inr ⟨rfl, _, rfl⟩
  nodup hnodup := nodup_canonicalOfType hnodup h hofText
  get?_eq hnodup _ hkey := get?_canonicalOfType hnodup h hofText hkey

end Entries

namespace Store

/-- Only nodes of the region differ between the stores, and those are objects that have lost
entries or were given scalars. -/
structure Trims (s s' : Store) (region : Nat → Prop) : Prop where
  size_eq : s'.cells.size = s.cells.size
  agree : ∀ i : Nat, ¬ region i → s'.cells[i]? = s.cells[i]?
  trimmed : ∀ i : Nat, s'.cells[i]? = s.cells[i]? ∨ ∃ before after : Entries Value,
    s.cells[i]? = some (.object before) ∧ s'.cells[i]? = some (.object after) ∧
      before.Trimmed after

namespace Trims

variable {region region' : Nat → Prop}

theorem refl (s : Store) (region : Nat → Prop) : Trims s s region where
  size_eq := rfl
  agree _ _ := rfl
  trimmed _ := .inl rfl

theorem mono (h : Trims s s' region) (hsub : ∀ i, region i → region' i) : Trims s s' region' where
  size_eq := h.size_eq
  agree i hi := h.agree i fun hregion => hi (hsub i hregion)
  trimmed := h.trimmed

theorem trans (h : Trims s s' region) (h' : Trims s' s'' region) : Trims s s'' region where
  size_eq := h'.size_eq.trans h.size_eq
  agree i hi := (h'.agree i hi).trans (h.agree i hi)
  trimmed i := by
    rcases h.trimmed i with heq | ⟨before, after, hbefore, hafter, hmem⟩
    · rw [← heq]
      exact h'.trimmed i
    · rcases h'.trimmed i with heq' | ⟨before', after', hbefore', hafter', hmem'⟩
      · exact .inr ⟨before, after, hbefore, heq'.trans hafter, hmem⟩
      · obtain rfl : after = before' := by simpa [hafter] using hbefore'
        exact .inr ⟨before, after', hbefore, hafter', hmem.trans hmem'⟩

/-- Every part of a node was a part of it before or is a scalar. -/
theorem mem_parts (h : Trims s s' region) {cell' : Cell} (hcell' : s'.cells[i]? = some cell')
    (hw : w ∈ cell'.parts) :
    (∃ cell, s.cells[i]? = some cell ∧ w ∈ cell.parts) ∨ ∃ x, w = .scalar x := by
  rcases h.trimmed i with heq | ⟨before, after, hbefore, hafter, hmem⟩
  · exact .inl ⟨cell', heq ▸ hcell', hw⟩
  · obtain rfl : cell' = .object after := by simpa [hafter] using hcell'.symm
    obtain ⟨e, he, rfl⟩ := List.mem_map.mp hw
    rcases hmem.mem e he with hold | ⟨-, hscalar⟩
    · exact .inl ⟨_, hbefore, List.mem_map_of_mem hold⟩
    · exact .inr hscalar

/-- No node comes to lie below a value. -/
theorem reaches (h : Trims s s' region) (hreach : s'.Reaches v i) : s.Reaches v i := by
  induction hreach with
  | here id => exact .here id
  | part hcell hpart hbelow ih =>
    rcases h.mem_parts hcell hpart with ⟨cell, hcell', hpart'⟩ | ⟨x, rfl⟩
    · exact .part hcell' hpart' ih
    · exact absurd hbelow not_reaches_scalar

/-- A value that held a tree still holds one. -/
theorem exists_holds (h : Trims s s' region) (hv : s.Holds v t) : ∃ t', s'.Holds v t' := by
  induction hsize : sizeOf t using Nat.strong_induction_on generalizing v t with
  | _ n ih =>
    cases v with
    | scalar x => exact ⟨.scalar x, by simp⟩
    | node id =>
      have hlt : id < s'.cells.size := h.size_eq ▸ hv.lt_size
      have hparts : ∀ w ∈ s'.cells[id].parts, ∃ u, s'.Holds w u := by
        intro w hw
        rcases h.mem_parts (Array.getElem?_eq_getElem hlt) hw with ⟨cell', hcell', hw'⟩ | ⟨x, rfl⟩
        · obtain ⟨u, hu, hlt⟩ := hv.of_part hcell' hw'
          exact ih (sizeOf u) (hsize ▸ hlt) hu rfl
        · exact ⟨.scalar x, by simp⟩
      exact exists_holds_of_parts (Array.getElem?_eq_getElem hlt) hparts

end Trims

end Store

namespace Edit

/-- The type that the entries of a schema state. -/
def schemaType (s : Store) (entries : Entries Value) : Scalar :=
  ((entries.get? "type").bind s.scalar?).getD .null

/-- Brings the schemas directly below a schema into canonical form. Type and entries are those
that the schema had in the store `s`. -/
def canonicalizeBelow (depth : Nat) (s : Store) (entries : Entries Value) : Edit Unit :=
  match schemaType s entries with
  | .text "array" =>
    if (s.entries? ((entries.get? "items").getD .null)).isSome then
      canonicalizeWithin depth ((entries.get? "items").getD .null)
    else pure ()
  | .text "object" => do
    if ← isTruthy ((entries.get? "properties").getD .null) then
      foldEntries ((entries.get? "properties").getD .null) () fun _ _ property =>
        canonicalizeWithin depth property
  | _ => pure ()

/-- A schema other than a reference is first itself brought into canonical form. -/
theorem runs_canonicalizeWithin {depth : Nat} {u : Unit} :
    Runs (canonicalizeWithin (depth + 1) v) s u s' ↔
      if s.isReference v then s = s'
      else ∃ id entries canonical, s.shape v = .object id entries ∧
        entries.canonicalOfType s.scalar? .text (schemaType s entries) = .ok canonical ∧
        Runs (canonicalizeBelow depth s entries) (s.set id (.object canonical)) u s' := by
  rw [canonicalizeWithin, runs_bind]
  simp only [runs_isReference]
  constructor
  · rintro ⟨c, t, ⟨rfl, rfl⟩, h⟩
    split at h
    · next hreference =>
      rw [if_pos hreference]
      exact (runs_pure.mp h).2
    · next hreference =>
      rw [if_neg hreference]
      obtain ⟨⟨id, entries⟩, t, hobject, h⟩ := runs_bind.mp h
      obtain ⟨hshape, rfl⟩ := runs_objectOf.mp hobject
      obtain ⟨canonical, t, hrun, h⟩ := runs_bind.mp (runs_get_bind.mp h)
      obtain ⟨hcanonical, rfl⟩ := runs_ofExcept.mp hrun
      obtain ⟨_, t, hset, h⟩ := runs_bind.mp h
      obtain rfl := runs_set.mp hset
      exact ⟨id, entries, canonical, hshape, hcanonical, h⟩
  · intro h
    refine ⟨_, s, ⟨rfl, rfl⟩, ?_⟩
    split at h
    · next hreference =>
      rw [if_pos hreference]
      exact runs_pure.mpr ⟨rfl, h⟩
    · next hreference =>
      rw [if_neg hreference]
      obtain ⟨id, entries, canonical, hshape, hcanonical, h⟩ := h
      refine runs_bind.mpr ⟨(id, entries), s, runs_objectOf.mpr ⟨hshape, rfl⟩, ?_⟩
      refine runs_get_bind.mpr (runs_bind.mpr ⟨canonical, s, ?_, ?_⟩)
      · exact runs_ofExcept.mpr ⟨hcanonical, rfl⟩
      · exact runs_bind.mpr ⟨⟨⟩, _, runs_set.mpr rfl, h⟩

/-- Replacing the entries of an object by their canonical form is a trim. -/
theorem trims_set {entries canonical : Entries Value} {type : Scalar}
    (hshape : s.shape v = .object id entries)
    (h : entries.canonicalOfType s.scalar? .text type = .ok canonical) :
    s.Trims (s.set id (.object canonical)) (s.Reaches v) := by
  obtain ⟨rfl, hcell⟩ := Store.shape_eq_object.mp hshape
  refine ⟨Store.size_set, fun i hi => ?_, fun i => ?_⟩
  · rw [Store.cells_set, if_neg]
    rintro ⟨rfl, -⟩
    exact hi (.here i)
  · rw [Store.cells_set]
    split
    · next hi =>
      obtain ⟨rfl, -⟩ := hi
      exact .inr ⟨entries, canonical, hcell, rfl, Entries.trimmed_canonicalOfType h fun _ => rfl⟩
    · exact .inl rfl

/-- Canonical form is brought about by trimming objects below the schema. -/
theorem trims_canonicalizeWithin {depth : Nat} {u : Unit}
    (h : Runs (canonicalizeWithin depth v) s u s') : s.Trims s' (s.Reaches v) := by
  induction depth generalizing s v s' u with
  | zero => simp [canonicalizeWithin] at h
  | succ depth ih =>
    rw [runs_canonicalizeWithin] at h
    split at h
    · obtain rfl := h
      exact .refl s _
    · obtain ⟨id, entries, canonical, hshape, hcanonical, h⟩ := h
      have hset := trims_set hshape hcanonical
      obtain ⟨rfl, hcell⟩ := Store.shape_eq_object.mp hshape
      have hbelow : ∀ key i, s.Reaches ((entries.get? (.text key)).getD .null) i →
          s.Reaches (.node id) i := by
        intro key i hi
        cases hget : entries.get? (.text key) with
        | none => simp [hget] at hi
        | some w =>
          rw [hget] at hi
          exact .part hcell (List.mem_map_of_mem (Entries.mem_of_get? hget)) hi
      refine hset.trans ?_
      unfold canonicalizeBelow at h
      split at h
      · split at h
        · exact (ih h).mono fun i hi => hbelow "items" i (hset.reaches hi)
        · obtain ⟨-, rfl⟩ := runs_pure.mp h
          exact .refl _ _
      · simp only [runs_bind, runs_isTruthy] at h
        obtain ⟨c, t, ⟨htruthy, rfl⟩, h⟩ := h
        split at h
        · obtain ⟨_, _, hproperties⟩ := h.exists_shape_of_foldEntries
          refine Runs.foldEntries_induct
            (fun _ _ t => (s.set id (.object canonical)).Trims t (s.Reaches (.node id)))
            h hproperties (.refl _ _) ?_
          intro _ _ t id' properties _ w _ t' htrims hshape' _ hentry hrun
          refine htrims.trans ((ih hrun).mono fun i hi => ?_)
          obtain ⟨heq, hcell'⟩ := Store.shape_eq_object.mp hshape'
          refine hbelow "properties" i (hset.reaches (htrims.reaches ?_))
          rw [heq]
          exact .part hcell' (List.mem_map_of_mem (List.mem_of_getElem? hentry)) hi
        · obtain ⟨-, rfl⟩ := runs_pure.mp h
          exact .refl _ _
      · obtain ⟨-, rfl⟩ := runs_pure.mp h
        exact .refl _ _

/-- Bringing a schema into canonical form trims objects below it. -/
theorem trims_canonicalize {u : Unit} (h : Runs (canonicalize v) s u s') :
    s.Trims s' (s.Reaches v) := by
  rw [canonicalize, runs_get_bind] at h
  exact trims_canonicalizeWithin h

end Edit

end DeviceApi
