import DeviceApi.Log.Procedure
import DeviceApi.Api.Content

/-!
# Successful runs

What a successful run of an edit or a procedure answers and leaves behind. Every lemma is an
equivalence, so a run of a long edit comes apart into runs of its steps.
-/

namespace DeviceApi

@[simp] theorem toOption_eq_some {ε α : Type} {answer : Except ε α} {a : α} :
    answer.toOption = some a ↔ answer = .ok a := by
  cases answer <;> simp [Except.toOption]

/-- A fault as part of a wider one, if it is a violation. -/
def Fault.within (wider : Violation → Violation) : Fault → Fault
  | .violation v => .violation (wider v)
  | f => f

namespace Edit

variable {α β : Type} {s s' : Store} {a : α} {b : β}

/-- The edit answers `a` on the store `s` and leaves the store `s'` behind. -/
def Runs (edit : Edit α) (s : Store) (a : α) (s' : Store) : Prop :=
  edit.runOn s = (.ok a, s')

/-- A run determines its answer and the store behind it. -/
theorem Runs.unique {edit : Edit α} {a' : α} {t : Store} (h : Runs edit s a s')
    (h' : Runs edit s a' t) : a = a' ∧ s' = t := by
  have heq : ((.ok a, s') : Except Fault α × Store) = (.ok a', t) := h.symm.trans h'
  simpa using heq

@[simp] theorem runs_pure {a' : α} : Runs (pure a) s a' s' ↔ a = a' ∧ s = s' := by
  change ((.ok a, s) : Except Fault α × Store) = (.ok a', s') ↔ _
  simp

/-- What follows an edit runs on the store that the edit leaves behind, unless the edit fails. -/
theorem runOn_bind {edit : Edit α} {next : α → Edit β} : (edit >>= next).runOn s =
    match edit.runOn s with
    | (.ok a, t) => (next a).runOn t
    | (.error f, t) => (.error f, t) := by
  simp only [runOn, bind, ExceptT.bind, ExceptT.run, ExceptT.mk, StateT.run, StateT.bind]
  rcases h : edit s with ⟨r, t⟩
  cases r <;> rfl

@[simp] theorem runs_bind {edit : Edit α} {next : α → Edit β} :
    Runs (edit >>= next) s b s' ↔ ∃ a t, Runs edit s a t ∧ Runs (next a) t b s' := by
  unfold Runs
  rw [runOn_bind]
  rcases h : edit.runOn s with ⟨r, t⟩
  cases r with
  | ok a =>
    constructor
    · intro hb
      exact ⟨a, t, rfl, hb⟩
    · rintro ⟨a', t', heq, hb⟩
      obtain ⟨rfl, rfl⟩ : a = a' ∧ t = t' := by simpa using heq
      exact hb
  | error f => simp

/-- An edit that answers has a run. -/
theorem exists_runs_of_answer {edit : Edit α} (h : (edit.runOn s).1.toOption = some a) :
    ∃ s', Runs edit s a s' := by
  rcases hrun : edit.runOn s with ⟨answer, s'⟩
  rw [hrun, toOption_eq_some] at h
  exact ⟨s', hrun.trans (h ▸ rfl)⟩

/-- After an edit whose run is known, what follows it goes on. -/
theorem Runs.runOn_bind {edit : Edit α} {next : α → Edit β} {t : Store} (h : Runs edit s a t) :
    (edit >>= next).runOn s = (next a).runOn t := by
  rw [Edit.runOn_bind, show edit.runOn s = (.ok a, t) from h]

/-- After an edit whose run is known, what follows it runs. -/
theorem Runs.bind_iff {edit : Edit α} {next : α → Edit β} {t : Store} (h : Runs edit s a t) :
    Runs (edit >>= next) s b s' ↔ Runs (next a) t b s' := by
  rw [runs_bind]
  constructor
  · rintro ⟨a', t', h', hnext⟩
    obtain ⟨rfl, rfl⟩ := h.unique h'
    exact hnext
  · intro hnext
    exact ⟨a, t, h, hnext⟩

@[simp] theorem runs_map {edit : Edit α} {f : α → β} :
    Runs (f <$> edit) s b s' ↔ ∃ a, Runs edit s a s' ∧ f a = b := by
  rw [map_eq_pure_bind, runs_bind]
  simp only [runs_pure]
  constructor
  · rintro ⟨a, t, h, hb, rfl⟩
    exact ⟨a, h, hb⟩
  · rintro ⟨a, h, hb⟩
    exact ⟨a, s', h, hb, rfl⟩

@[simp] theorem not_runs_throw {f : Fault} : ¬ Runs (throw f : Edit α) s a s' := by
  change ¬ ((.error f, s) : Except Fault α × Store) = (.ok a, s')
  simp

@[simp] theorem not_runs_refuse {v : Violation} : ¬ Runs (refuse v : Edit α) s a s' :=
  not_runs_throw

@[simp] theorem not_runs_misfit {m : Misfit} : ¬ Runs (misfit m : Edit α) s a s' :=
  not_runs_throw

@[simp] theorem runs_get {t : Store} : Runs (get : Edit Store) s t s' ↔ s = t ∧ s = s' := by
  change ((.ok s, s) : Except Fault Store × Store) = (.ok t, s') ↔ _
  simp

/-- An edit that begins by taking the store goes on with that store. -/
@[simp] theorem runs_get_bind {next : Store → Edit α} :
    Runs (get >>= next) s a s' ↔ Runs (next s) s a s' := by
  rw [runs_bind]
  constructor
  · rintro ⟨_, _, h, hnext⟩
    obtain ⟨rfl, rfl⟩ := runs_get.mp h
    exact hnext
  · intro hnext
    exact ⟨s, s, runs_get.mpr ⟨rfl, rfl⟩, hnext⟩

@[simp] theorem runs_set {t : Store} {u : PUnit} :
    Runs (set t : Edit PUnit) s u s' ↔ t = s' := by
  change ((.ok PUnit.unit, t) : Except Fault PUnit × Store) = (.ok u, s') ↔ _
  simp

@[simp] theorem runs_modify {f : Store → Store} {u : PUnit} :
    Runs (modify f : Edit PUnit) s u s' ↔ f s = s' := by
  change ((.ok PUnit.unit, f s) : Except Fault PUnit × Store) = (.ok u, s') ↔ _
  simp

theorem runOn_explaining {edit : Edit α} {wider : Violation → Violation} :
    (explaining wider edit).runOn s = ((edit.runOn s).1.mapError (Fault.within wider), (edit.runOn s).2) := by
  simp only [explaining, runOn, tryCatch, tryCatchThe, MonadExceptOf.tryCatch, ExceptT.tryCatch,
    ExceptT.run, ExceptT.mk, StateT.run, bind, StateT.bind]
  rcases edit s with ⟨r, t⟩
  cases r with
  | ok a => rfl
  | error f => cases f <;> rfl

@[simp] theorem runs_explaining {edit : Edit α} {wider : Violation → Violation} :
    Runs (explaining wider edit) s a s' ↔ Runs edit s a s' := by
  unfold Runs
  rw [runOn_explaining]
  rcases edit.runOn s with ⟨r, t⟩
  cases r with
  | ok b => rfl
  | error f => exact iff_of_false (fun h => nomatch h) fun h => nomatch h

@[simp] theorem runs_ofExcept {answer : Except Misfit α} :
    Runs (ofExcept answer) s a s' ↔ answer = .ok a ∧ s = s' := by
  cases answer <;> simp [ofExcept]

/-! ## Reading -/

@[simp] theorem runs_look {v : Value} {shape : Shape} :
    Runs (look v) s shape s' ↔ s.shape v = shape ∧ s = s' := by
  simp only [look, runs_get_bind, runs_pure]

@[simp] theorem runs_isTruthy {v : Value} {c : Bool} :
    Runs (isTruthy v) s c s' ↔ s.isTruthy v = c ∧ s = s' := by
  simp only [isTruthy, runs_get_bind, runs_pure]

@[simp] theorem runs_isReference {v : Value} {c : Bool} :
    Runs (isReference v) s c s' ↔ s.isReference v = c ∧ s = s' := by
  simp only [isReference, runs_get_bind, runs_pure]

@[simp] theorem runs_objectOf {v : Value} {id : Nat} {entries : Entries Value} :
    Runs (objectOf v) s (id, entries) s' ↔ s.shape v = .object id entries ∧ s = s' := by
  simp only [objectOf, runs_bind, runs_look]
  constructor
  · rintro ⟨shape, t, ⟨rfl, rfl⟩, h⟩
    split at h
    · next heq =>
      simp only [runs_pure, Prod.mk.injEq] at h
      obtain ⟨⟨rfl, rfl⟩, rfl⟩ := h
      exact ⟨heq, rfl⟩
    · exact absurd h not_runs_misfit
  · rintro ⟨hshape, rfl⟩
    exact ⟨_, s, ⟨rfl, rfl⟩, by simp [hshape]⟩

@[simp] theorem runs_entriesOf {v : Value} {entries : Entries Value} :
    Runs (entriesOf v) s entries s' ↔ (∃ id, s.shape v = .object id entries) ∧ s = s' := by
  simp only [entriesOf, runs_bind, Prod.exists, runs_objectOf, runs_pure]
  constructor
  · rintro ⟨id, e, t, ⟨hshape, rfl⟩, rfl, rfl⟩
    exact ⟨⟨id, hshape⟩, rfl⟩
  · rintro ⟨⟨id, hshape⟩, rfl⟩
    exact ⟨id, entries, s, ⟨hshape, rfl⟩, rfl, rfl⟩

@[simp] theorem runs_fieldOf {v w : Value} {key : Scalar} :
    Runs (fieldOf v key) s w s' ↔
      (∃ id entries, s.shape v = .object id entries ∧ (entries.get? key).getD .null = w) ∧
        s = s' := by
  simp only [fieldOf, runs_bind, runs_entriesOf, runs_pure]
  constructor
  · rintro ⟨entries, t, ⟨⟨id, hshape⟩, rfl⟩, rfl, rfl⟩
    exact ⟨⟨id, entries, hshape, rfl⟩, rfl⟩
  · rintro ⟨⟨id, entries, hshape, rfl⟩, rfl⟩
    exact ⟨entries, s, ⟨⟨id, hshape⟩, rfl⟩, rfl, rfl⟩

@[simp] theorem runs_treeOf {v : Value} {t : Tree} :
    Runs (treeOf v) s t s' ↔ s.tree v = t ∧ s = s' := by
  simp only [treeOf, runs_get_bind, runs_pure]

@[simp] theorem runs_elementsOf {v : Value} {items : List Value} :
    Runs (elementsOf v) s items s' ↔ s.elements v = .ok items ∧ s = s' := by
  simp only [elementsOf, runs_get_bind, runs_ofExcept]

@[simp] theorem runs_keyOf {v : Value} {key : Scalar} :
    Runs (keyOf v) s key s' ↔ s.key v = .ok key ∧ s = s' := by
  simp only [keyOf, runs_get_bind, runs_ofExcept]

@[simp] theorem runs_textOf {key : Scalar} {text : String} :
    Runs (textOf key) s text s' ↔ (key.hasText = true ∧ key.display = text) ∧ s = s' := by
  unfold textOf
  split <;> rename_i h <;> simp [h]

@[simp] theorem runs_dereference {root v w : Value} :
    Runs (dereference root v) s w s' ↔ s.dereference root v = .ok w ∧ s = s' := by
  simp only [dereference, runs_get_bind]
  cases s.dereference root v with
  | ok w' => simp
  | error f => simp

@[simp] theorem runs_optionalEntries {v : Value} {entries : Entries Value} :
    Runs (optionalEntries v) s entries s' ↔
      (if s.isTruthy v then ∃ id, s.shape v = .object id entries else [] = entries) ∧ s = s' := by
  simp only [optionalEntries, runs_bind, runs_isTruthy]
  constructor
  · rintro ⟨c, t, ⟨rfl, rfl⟩, h⟩
    split at h <;> rename_i hc <;> simpa [hc] using h
  · rintro ⟨h, rfl⟩
    refine ⟨_, s, ⟨rfl, rfl⟩, ?_⟩
    split <;> rename_i hc <;> simpa [hc] using h

/-! ## Writing -/

@[simp] theorem runs_putField {v w : Value} {key : Scalar} {u : Unit} :
    Runs (putField v key w) s u s' ↔
      ∃ id entries, s.shape v = .object id entries ∧
        s.set id (.object (entries.put key w)) = s' := by
  simp only [putField, runs_bind, runs_look]
  constructor
  · rintro ⟨shape, t, ⟨rfl, rfl⟩, h⟩
    split at h
    · next heq => exact ⟨_, _, heq, by simpa using h⟩
    · exact absurd h not_runs_misfit
  · rintro ⟨id, entries, hshape, h⟩
    exact ⟨_, s, ⟨rfl, rfl⟩, by simpa [hshape] using h⟩

@[simp] theorem runs_removeField {v : Value} {key : Scalar} {u : Unit} :
    Runs (removeField v key) s u s' ↔
      ∃ id entries, s.shape v = .object id entries ∧ entries.has key = true ∧
        s.set id (.object (entries.remove key)) = s' := by
  simp only [removeField, runs_bind, runs_look]
  constructor
  · rintro ⟨shape, t, ⟨rfl, rfl⟩, h⟩
    split at h
    · next heq =>
      split at h
      · next hhas => exact ⟨_, _, heq, hhas, by simpa using h⟩
      · exact absurd h not_runs_misfit
    · exact absurd h not_runs_misfit
  · rintro ⟨id, entries, hshape, hhas, h⟩
    exact ⟨_, s, ⟨rfl, rfl⟩, by simpa [hshape, hhas] using h⟩

@[simp] theorem runs_addCell {cell : Cell} {v : Value} :
    Runs (addCell cell) s v s' ↔ (s.add cell).1 = v ∧ (s.add cell).2 = s' := by
  rw [addCell, runs_get_bind]
  simp only [runs_bind, runs_set, runs_pure]
  constructor
  · rintro ⟨_, _, rfl, rfl, rfl⟩
    exact ⟨rfl, rfl⟩
  · rintro ⟨rfl, rfl⟩
    exact ⟨⟨⟩, _, rfl, rfl, rfl⟩

@[simp] theorem runs_newObject {entries : Entries Value} {v : Value} :
    Runs (newObject entries) s v s' ↔
      (s.add (.object entries)).1 = v ∧ (s.add (.object entries)).2 = s' :=
  runs_addCell

@[simp] theorem runs_newList {items : List Value} {v : Value} :
    Runs (newList items) s v s' ↔
      (s.add (.list items)).1 = v ∧ (s.add (.list items)).2 = s' :=
  runs_addCell

@[simp] theorem runs_loadTree {t : Tree} {v : Value} :
    Runs (loadTree t) s v s' ↔ (s.load t).1 = v ∧ (s.load t).2 = s' := by
  rw [loadTree, runs_get_bind]
  simp only [runs_bind, runs_set, runs_pure]
  constructor
  · rintro ⟨_, _, rfl, rfl, rfl⟩
    exact ⟨rfl, rfl⟩
  · rintro ⟨rfl, rfl⟩
    exact ⟨⟨⟩, _, rfl, rfl, rfl⟩

/-! ## Going through lists -/

@[simp] theorem runs_mapM_nil {f : α → Edit β} {bs : List β} :
    Runs (([] : List α).mapM f) s bs s' ↔ [] = bs ∧ s = s' := by
  simp

@[simp] theorem runs_mapM_cons {f : α → Edit β} {x : α} {xs : List α} {bs : List β} :
    Runs ((x :: xs).mapM f) s bs s' ↔
      ∃ b t, Runs (f x) s b t ∧ ∃ rest, Runs (xs.mapM f) t rest s' ∧ b :: rest = bs := by
  rw [List.mapM_cons]
  simp only [runs_bind, runs_pure]
  constructor
  · rintro ⟨b, t, hb, rest, u, hrest, rfl, rfl⟩
    exact ⟨b, t, hb, rest, hrest, rfl⟩
  · rintro ⟨b, t, hb, rest, hrest, rfl⟩
    exact ⟨b, t, hb, rest, s', hrest, rfl, rfl⟩

@[simp] theorem runs_foldlM_nil {f : β → α → Edit β} {b b' : β} :
    Runs (([] : List α).foldlM f b) s b' s' ↔ b = b' ∧ s = s' := by
  simp

@[simp] theorem runs_foldlM_cons {f : β → α → Edit β} {b b' : β} {x : α} {xs : List α} :
    Runs ((x :: xs).foldlM f b) s b' s' ↔
      ∃ c t, Runs (f b x) s c t ∧ Runs (xs.foldlM f c) t b' s' := by
  simp

/-- Going through a list step by step keeps what relates the first store to each later one. -/
theorem Runs.mapM_induct {f : α → Edit β} {xs : List α} {bs : List β} (R : Store → Store → Prop)
    (h : Runs (xs.mapM f) s bs s') (hrefl : ∀ t, R t t)
    (htrans : ∀ t t' t'', R t t' → R t' t'' → R t t'')
    (hstep : ∀ x ∈ xs, ∀ b t t', Runs (f x) t b t' → R t t') : R s s' := by
  induction xs generalizing s bs with
  | nil =>
    obtain ⟨-, rfl⟩ := runs_mapM_nil.mp h
    exact hrefl s
  | cons x xs ih =>
    obtain ⟨b, t, hx, rest, hrest, -⟩ := runs_mapM_cons.mp h
    exact htrans s t s' (hstep x List.mem_cons_self b s t hx)
      (ih hrest fun y hy => hstep y (List.mem_cons_of_mem _ hy))

/-- Going through a list keeps what every step keeps. The step for an item meets it behind the
items that are done. -/
theorem Runs.foldlM_induct {f : β → α → Edit β} {xs : List α}
    (I : List α → β → Store → Prop) (h : Runs (xs.foldlM f b) s b' s') (hinit : I [] b s)
    (hstep : ∀ done x rest c t c' t', done ++ x :: rest = xs → I done c t →
      Runs (f c x) t c' t' → I (done ++ [x]) c' t') : I xs b' s' := by
  have hgeneral : ∀ rest done c t, done ++ rest = xs → I done c t →
      Runs (rest.foldlM f c) t b' s' → I xs b' s' := by
    intro rest
    induction rest with
    | nil =>
      intro done c t hdone hI hrun
      obtain ⟨rfl, rfl⟩ := runs_pure.mp hrun
      simpa [← hdone] using hI
    | cons x rest ih =>
      intro done c t hdone hI hrun
      rw [List.foldlM_cons, runs_bind] at hrun
      obtain ⟨c', t', hx, hrest⟩ := hrun
      exact ih (done ++ [x]) c' t' (by simpa using hdone) (hstep done x rest c t c' t' hdone hI hx)
        hrest
  exact hgeneral xs [] b s rfl hinit h

/-- A loop over a list keeps what its body keeps, if the body never leaves the loop. -/
theorem Runs.forIn_induct {body : α → PUnit → Edit (ForInStep PUnit)} {xs : List α} {u : PUnit}
    (I : Store → Prop) (h : Runs (forIn xs PUnit.unit body) s u s') (hinit : I s)
    (hstep : ∀ x ∈ xs, ∀ t r t', I t → Runs (body x PUnit.unit) t r t' →
      r = .yield PUnit.unit ∧ I t') : I s' := by
  induction xs generalizing s with
  | nil =>
    obtain ⟨-, rfl⟩ := runs_pure.mp h
    exact hinit
  | cons x xs ih =>
    rw [List.forIn_cons, runs_bind] at h
    obtain ⟨r, t, hx, hrest⟩ := h
    obtain ⟨rfl, ht⟩ := hstep x List.mem_cons_self s r t hinit hx
    exact ih hrest ht fun y hy => hstep y (List.mem_cons_of_mem _ hy)

private theorem Runs.foldLastEntries_induct {object : Value} {step : β → Scalar → Value → Edit β}
    {count remaining : Nat} {b b' : β} (I : Nat → β → Store → Prop)
    (h : Runs (foldLastEntries object step count remaining b) s b' s')
    (hle : remaining ≤ count) (hinit : I (count - remaining) b s)
    (hstep : ∀ i c t id entries key w c' t', I i c t → t.shape object = .object id entries →
      entries.length = count → entries[i]? = some (key, w) → Runs (step c key w) t c' t' →
      I (i + 1) c' t') : I count b' s' := by
  induction remaining generalizing b s with
  | zero =>
    simp only [foldLastEntries, runs_bind, runs_entriesOf] at h
    obtain ⟨entries, t, ⟨⟨id, hshape⟩, rfl⟩, h⟩ := h
    split at h
    · simp at h
    · obtain ⟨rfl, rfl⟩ := runs_pure.mp h
      simpa using hinit
  | succ remaining ih =>
    simp only [foldLastEntries, runs_bind, runs_entriesOf] at h
    obtain ⟨entries, t, ⟨⟨id, hshape⟩, rfl⟩, h⟩ := h
    split at h
    · simp at h
    · next hlength =>
      simp only [ne_eq, Decidable.not_not] at hlength
      split at h
      · next key w hentry =>
        obtain ⟨c, t, hrun, hrest⟩ := runs_bind.mp h
        refine ih hrest (by omega) ?_
        have hnext := hstep _ _ _ _ _ _ _ _ _ hinit hshape hlength hentry hrun
        rwa [show count - (remaining + 1) + 1 = count - remaining by omega] at hnext
      · next hnone =>
        rw [List.getElem?_eq_none_iff] at hnone
        omega

/-- Only an object has entries to go through. -/
theorem Runs.exists_shape_of_foldEntries {object : Value} {step : β → Scalar → Value → Edit β}
    {b b' : β} (h : Runs (foldEntries object b step) s b' s') :
    ∃ id entries, s.shape object = .object id entries := by
  simp only [foldEntries, runs_bind, runs_entriesOf] at h
  obtain ⟨entries, t, ⟨⟨id, hshape⟩, rfl⟩, h⟩ := h
  exact ⟨id, entries, hshape⟩

/-- Going through the entries of an object keeps what every step keeps. The step for an entry
meets it at its place among as many entries as there were in the beginning. -/
theorem Runs.foldEntries_induct {object : Value} {step : β → Scalar → Value → Edit β} {b b' : β}
    {id : Nat} {entries : Entries Value} (I : Nat → β → Store → Prop)
    (h : Runs (foldEntries object b step) s b' s') (hshape : s.shape object = .object id entries)
    (hinit : I 0 b s)
    (hstep : ∀ i c t id' entries' key w c' t', I i c t → t.shape object = .object id' entries' →
      entries'.length = entries.length → entries'[i]? = some (key, w) →
      Runs (step c key w) t c' t' → I (i + 1) c' t') : I entries.length b' s' := by
  simp only [foldEntries, runs_bind, runs_entriesOf] at h
  obtain ⟨entries', t, ⟨⟨id', hshape'⟩, rfl⟩, h⟩ := h
  obtain ⟨rfl, rfl⟩ : id = id' ∧ entries = entries' := by simpa [hshape] using hshape'
  exact Runs.foldLastEntries_induct I h (Nat.le_refl _) (by simpa using hinit) hstep

/-- The entries of an object can be gone through if what is kept at each of them allows for the next one
and leaves the object as it is. -/
theorem exists_runs_foldEntries {object : Value} {step : Unit → Scalar → Value → Edit Unit} {id : Nat}
    {entries : Entries Value} (I : Nat → Store → Prop) (hinit : I 0 s)
    (hshape : ∀ k t, I k t → t.shape object = .object id entries)
    (hstep : ∀ k key w t, I k t → entries[k]? = some (key, w) →
      ∃ t', Runs (step () key w) t () t' ∧ I (k + 1) t') :
    ∃ s', Runs (foldEntries object () step) s () s' ∧ I entries.length s' := by
  suffices hloop : ∀ remaining t, remaining ≤ entries.length → I (entries.length - remaining) t →
      ∃ s', Runs (foldLastEntries object step entries.length remaining ()) t () s' ∧ I entries.length s' by
    obtain ⟨s', hrun, hlast⟩ := hloop entries.length s (Nat.le_refl _) (by simpa using hinit)
    exact ⟨s', runs_bind.mpr ⟨entries, s, runs_entriesOf.mpr ⟨⟨id, hshape 0 s hinit⟩, rfl⟩, hrun⟩, hlast⟩
  intro remaining
  induction remaining with
  | zero =>
    intro t _ hI
    refine ⟨t, runs_bind.mpr ⟨entries, t, runs_entriesOf.mpr ⟨⟨id, hshape _ t hI⟩, rfl⟩, ?_⟩, hI⟩
    simp
  | succ remaining ih =>
    intro t hle hI
    have hlt : entries.length - (remaining + 1) < entries.length := by omega
    obtain ⟨key, w, hget⟩ : ∃ key w, entries[entries.length - (remaining + 1)]? = some (key, w) :=
      ⟨_, _, List.getElem?_eq_getElem hlt⟩
    obtain ⟨t', hrun, hI'⟩ := hstep _ key w t hI hget
    obtain ⟨s', hrest, hlast⟩ := ih t' (by omega) (by rwa [show entries.length - remaining = entries.length - (remaining + 1) + 1 by omega])
    refine ⟨s', runs_bind.mpr ⟨entries, t, runs_entriesOf.mpr ⟨⟨id, hshape _ t hI⟩, rfl⟩, ?_⟩, hlast⟩
    simp only [ne_eq, not_true_eq_false, if_false, hget]
    exact runs_bind.mpr ⟨(), t', hrun, hrest⟩

end Edit

namespace Procedure

variable {α β : Type} {s s' : Session} {a : α} {b b' : β}

/-- The procedure answers `a` in the session `s` and leaves the session `s'` behind. -/
def Runs (procedure : Procedure α) (s : Session) (a : α) (s' : Session) : Prop :=
  procedure.runOn s = (.ok a, s')

/-- A run determines its answer and the session behind it. -/
theorem Runs.unique {procedure : Procedure α} {a' : α} {t : Session} (h : Runs procedure s a s')
    (h' : Runs procedure s a' t) : a = a' ∧ s' = t := by
  have heq : ((.ok a, s') : Except Fault α × Session) = (.ok a', t) := h.symm.trans h'
  simpa using heq

/-- Whether a procedure answers, and the answer and the session behind it pass a check. -/
def passes (procedure : Procedure α) (s : Session) (check : α → Session → Bool) : Bool :=
  match procedure.runOn s with
  | (.ok a, s') => check a s'
  | (.error _, _) => false

theorem exists_runs_of_passes {procedure : Procedure α} {check : α → Session → Bool}
    (h : passes procedure s check = true) : ∃ a s', Runs procedure s a s' ∧ check a s' = true := by
  unfold passes at h
  split at h
  · next a s' hrun => exact ⟨a, s', hrun, h⟩
  · cases h

/-- A procedure that answers has a run. -/
theorem exists_runs {procedure : Procedure α} {f : α → β}
    (h : (procedure.runOn s).1.toOption.map f = some b) :
    ∃ a s', Runs procedure s a s' ∧ f a = b := by
  rcases hrun : procedure.runOn s with ⟨r, s'⟩
  rw [hrun] at h
  cases r with
  | error _ => simp [Except.toOption] at h
  | ok a => exact ⟨a, s', hrun, by simpa [Except.toOption] using h⟩

@[simp] theorem runs_pure {a' : α} : Runs (pure a) s a' s' ↔ a = a' ∧ s = s' := by
  change ((.ok a, s) : Except Fault α × Session) = (.ok a', s') ↔ _
  simp

theorem runOn_bind {procedure : Procedure α} {next : α → Procedure β} : (procedure >>= next).runOn s =
    match procedure.runOn s with
    | (.ok a, t) => (next a).runOn t
    | (.error f, t) => (.error f, t) := by
  simp only [runOn, bind, ExceptT.bind, ExceptT.run, ExceptT.mk, StateT.run, StateT.bind]
  rcases h : procedure s with ⟨r, t⟩
  cases r <;> rfl

@[simp] theorem runs_bind {procedure : Procedure α} {next : α → Procedure β} :
    Runs (procedure >>= next) s b s' ↔
      ∃ a t, Runs procedure s a t ∧ Runs (next a) t b s' := by
  unfold Runs
  rw [runOn_bind]
  rcases h : procedure.runOn s with ⟨r, t⟩
  cases r with
  | ok a =>
    constructor
    · intro hb
      exact ⟨a, t, rfl, hb⟩
    · rintro ⟨a', t', heq, hb⟩
      obtain ⟨rfl, rfl⟩ : a = a' ∧ t = t' := by simpa using heq
      exact hb
  | error f => simp

@[simp] theorem not_runs_throw {f : Fault} : ¬ Runs (throw f : Procedure α) s a s' := by
  change ¬ ((.error f, s) : Except Fault α × Session) = (.ok a, s')
  simp

/-- The procedure that ends with the answer of an edit. -/
def answering : Except Fault α → Procedure α
  | .ok a => pure a
  | .error f => throw f

theorem runOn_ofEdit (edit : Edit α) (s : Session) :
    (ofEdit edit).runOn s =
      (answering (edit.runOn s.store).1).runOn { s with store := (edit.runOn s.store).2 } := rfl

/-- An edit inside of a procedure changes the store alone. -/
@[simp] theorem runs_ofEdit {edit : Edit α} :
    Runs (ofEdit edit) s a s' ↔
      ∃ store, edit.Runs s.store a store ∧ { s with store } = s' := by
  unfold Runs Edit.Runs
  rw [runOn_ofEdit]
  rcases edit.runOn s.store with ⟨r, t⟩
  cases r with
  | ok a' =>
    change ((.ok a', { s with store := t }) : Except Fault α × Session) = (.ok a, s') ↔ _
    simp only [Prod.mk.injEq, Except.ok.injEq]
    constructor
    · rintro ⟨rfl, rfl⟩
      exact ⟨t, ⟨rfl, rfl⟩, rfl⟩
    · rintro ⟨_, ⟨rfl, rfl⟩, rfl⟩
      exact ⟨rfl, rfl⟩
  | error f =>
    change ((.error f, { s with store := t }) : Except Fault α × Session) = (.ok a, s') ↔ _
    simp

@[simp] theorem runs_monadLift {edit : Edit α} :
    Runs (monadLift edit) s a s' ↔ ∃ store, edit.Runs s.store a store ∧ { s with store } = s' :=
  runs_ofEdit

@[simp] theorem runs_liftM {edit : Edit α} :
    Runs (liftM edit) s a s' ↔ ∃ store, edit.Runs s.store a store ∧ { s with store } = s' :=
  runs_ofEdit

@[simp] theorem runs_report {level : Log.Level} {message : String} {u : Unit} :
    Runs (report level message) s u s' ↔
      { s with log := s.log ++ [{ level, stage := none, message, timed := false }] } = s' := by
  change ((.ok (), _) : Except Fault Unit × Session) = (.ok u, s') ↔ _
  simp

@[simp] theorem runs_map {procedure : Procedure α} {f : α → β} :
    Runs (f <$> procedure) s b s' ↔ ∃ a, Runs procedure s a s' ∧ f a = b := by
  rw [map_eq_pure_bind, runs_bind]
  simp only [runs_pure]
  constructor
  · rintro ⟨a, t, h, hb, rfl⟩
    exact ⟨a, h, hb⟩
  · rintro ⟨a, h, hb⟩
    exact ⟨a, s', h, hb, rfl⟩

theorem runs_mapM_cons {f : α → Procedure β} {x : α} {xs : List α} {bs : List β} :
    Runs ((x :: xs).mapM f) s bs s' ↔
      ∃ b t, Runs (f x) s b t ∧ ∃ rest, Runs (xs.mapM f) t rest s' ∧ b :: rest = bs := by
  simp only [List.mapM_cons, runs_bind, runs_pure]
  constructor
  · rintro ⟨b, t, hb, rest, u, hrest, rfl, rfl⟩
    exact ⟨b, t, hb, rest, hrest, rfl⟩
  · rintro ⟨b, t, hb, rest, hrest, rfl⟩
    exact ⟨b, t, hb, rest, s', hrest, rfl, rfl⟩

/-- Going through a list keeps what every step keeps. The step for an item meets it behind the
items that are done. -/
theorem Runs.foldlM_induct {f : β → α → Procedure β} {xs : List α}
    (I : List α → β → Session → Prop) (h : Runs (xs.foldlM f b) s b' s') (hinit : I [] b s)
    (hstep : ∀ done x rest c t c' t', done ++ x :: rest = xs → I done c t →
      Runs (f c x) t c' t' → I (done ++ [x]) c' t') : I xs b' s' := by
  have hgeneral : ∀ rest done c t, done ++ rest = xs → I done c t →
      Runs (rest.foldlM f c) t b' s' → I xs b' s' := by
    intro rest
    induction rest with
    | nil =>
      intro done c t hdone hI hrun
      obtain ⟨rfl, rfl⟩ := runs_pure.mp hrun
      simpa [← hdone] using hI
    | cons x rest ih =>
      intro done c t hdone hI hrun
      rw [List.foldlM_cons, runs_bind] at hrun
      obtain ⟨c', t', hx, hrest⟩ := hrun
      exact ih (done ++ [x]) c' t' (by simpa using hdone) (hstep done x rest c t c' t' hdone hI hx)
        hrest
  exact hgeneral xs [] b s rfl hinit h

/-- A loop that only reports leaves the store as it is. -/
theorem store_eq_of_forIn_report {level : Log.Level} {message : α → String} {xs : List α}
    {u : PUnit} (h : Runs (forIn xs PUnit.unit fun x _ => do
      report level (message x); pure (ForInStep.yield PUnit.unit)) s u s') :
    s'.store = s.store := by
  induction xs generalizing s with
  | nil =>
    obtain ⟨-, rfl⟩ := runs_pure.mp h
    rfl
  | cons x xs ih =>
    simp only [List.forIn_cons, runs_bind, runs_report, runs_pure] at h
    obtain ⟨_, _, ⟨_, _, rfl, rfl, rfl⟩, h⟩ := h
    have hrest := ih h
    exact hrest

/-- The session in which the body of a stage begins. -/
def started (name : String) (s : Session) : Session :=
  { s with log := s.log ++
    [{ level := .debug, stage := some name, message := name ++ " ...", timed := false }] }

/-- A stage runs as its body does, between the reports of its beginning and of its end. -/
theorem runOn_stage {name : String} {body : Procedure α} : (stage name body).runOn s =
    match body.runOn (started name s) with
    | (.ok a, t) => (.ok a, { t with log := t.log ++
        [{ level := .debug, stage := some name, message := name ++ " done", timed := true }] })
    | (.error f, t) => (.error f, { t with log := t.log ++
        [{ level := .error, stage := some name, message := name ++ " failed", timed := true }] }) := by
  rcases h : body.runOn (started name s) with ⟨r, t⟩
  simp only [runOn, StateT.run, ExceptT.run] at h ⊢
  simp only [stage, record, bind, ExceptT.bind, ExceptT.mk, StateT.bind, tryCatch,
    tryCatchThe, MonadExceptOf.tryCatch, ExceptT.tryCatch, modifyThe, modifyGet,
    MonadStateOf.modifyGet, StateT.modifyGet, monadLift, MonadLift.monadLift, ExceptT.lift,
    Functor.map, StateT.map, pure, ExceptT.bindCont]
  unfold started at h
  cases r <;> simp [h, EarlyReturnT.return] <;> rfl

/-- A stage runs when its body does; the store behind both is the same. -/
theorem runs_stage {name : String} {body : Procedure α} (h : Runs (stage name body) s a s') :
    ∃ log t, Runs body { s with log } a t ∧ t.store = s'.store := by
  unfold Runs at h
  rw [runOn_stage] at h
  split at h
  · next a' t heq =>
    simp only [Prod.mk.injEq, Except.ok.injEq] at h
    obtain ⟨rfl, rfl⟩ := h
    exact ⟨_, t, heq, rfl⟩
  · simp at h

end Procedure

end DeviceApi
