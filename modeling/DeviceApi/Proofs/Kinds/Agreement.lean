import DeviceApi.Proofs.Kinds.Stores

/-!
# Edits that agree

Two edits agree on stores that are alike if both fail with the same fault, or both answer and leave stores
behind that are alike. The rules for steps, for sequences and for loops follow the runs of both edits at once.
-/

namespace DeviceApi

namespace Edit

variable {α β : Type} {kinds kinds' ks l : List Kind} {k : Kind} {s s' : Store} {i : Nat} {v w : Value}
  {entries entries' : Entries Value} {name : String}

/-- The edits fail with the same fault, or they answer as `Q` says and leave alike stores behind. -/
def Agree (kinds : List Kind) (s s' : Store) (edit edit' : Edit α) (Q : List Kind → α → α → Prop) : Prop :=
  match edit.runOn s, edit'.runOn s' with
  | (.ok a, t), (.ok a', t') =>
    ∃ kinds', kinds <+: kinds' ∧ t.Matches kinds' t' ∧ Q kinds' a a'
  | (.error f, _), (.error f', _) => f = f'
  | _, _ => False

/-- Both answers are the same, and it is as `P` says. -/
def Same (P : List Kind → α → Prop) (kinds : List Kind) (a a' : α) : Prop := a' = a ∧ P kinds a

/-- What is said of an answer stays so when nodes are added. -/
def Lasts (P : List Kind → α → Prop) : Prop :=
  ∀ {kinds kinds' : List Kind} {a : α}, kinds <+: kinds' → P kinds a → P kinds' a

/-- The value is of one of the kinds. -/
def OneOf (ks : List Kind) (kinds : List Kind) (v : Value) : Prop := v.IsOf kinds ks

variable {edit edit' : Edit α} {next next' : α → Edit β} {Q Q' : List Kind → α → α → Prop}
  {R : List Kind → β → β → Prop} {P : List Kind → α → Prop} {I : List Kind → β → Prop} {a a' : α}

/-! ## Single steps -/

theorem runOn_look (s : Store) (v : Value) : (look v).runOn s = (.ok (s.shape v), s) := rfl

theorem runOn_objectOf (h : s.shape v = .object i entries) : (objectOf v).runOn s = (.ok (i, entries), s) :=
  runs_objectOf.mpr ⟨h, rfl⟩

theorem runOn_putField {key : Scalar} (h : s.shape v = .object i entries) :
    (putField v key w).runOn s = (.ok (), s.set i (.object (entries.put key w))) :=
  runs_putField.mpr ⟨i, entries, h, rfl⟩

theorem runOn_removeField {key : Scalar} (h : s.shape v = .object i entries) (hhas : entries.has key = true) :
    (removeField v key).runOn s = (.ok (), s.set i (.object (entries.remove key))) :=
  runs_removeField.mpr ⟨i, entries, h, hhas, rfl⟩

section

variable (h : s.entries? v = none)
include h

theorem shape_ne_object : s.shape v ≠ .object i entries := fun hshape => by
  rw [Store.entries?_eq_some.mpr ⟨i, hshape⟩] at h
  cases h

theorem runOn_objectOf_none : (objectOf v).runOn s = (.error (.misfit .noSuchOperation), s) := by
  rw [objectOf, runOn_bind, runOn_look]
  cases hshape : s.shape v with
  | object i entries => exact absurd hshape (shape_ne_object h)
  | _ => rfl

theorem runOn_putField_none {key : Scalar} :
    (putField v key w).runOn s = (.error (.misfit .wrongOperand), s) := by
  rw [putField, runOn_bind, runOn_look]
  cases hshape : s.shape v with
  | object i entries => exact absurd hshape (shape_ne_object h)
  | _ => rfl

theorem runOn_removeField_none {key : Scalar} :
    (removeField v key).runOn s = (.error (.misfit .wrongOperand), s) := by
  rw [removeField, runOn_bind, runOn_look]
  cases hshape : s.shape v with
  | object i entries => exact absurd hshape (shape_ne_object h)
  | _ => rfl

end

theorem runOn_removeField_missing {key : Scalar} (h : s.shape v = .object i entries)
    (hhas : entries.has key = false) : (removeField v key).runOn s = (.error (.misfit .missingEntry), s) := by
  rw [removeField, runOn_bind, runOn_look, h]
  dsimp only
  rw [hhas]
  rfl

namespace Agree

theorem pure (h : s.Matches kinds s') (ha : Q kinds a a') : Agree kinds s s' (pure a) (pure a') Q :=
  ⟨kinds, List.prefix_rfl, h, ha⟩

theorem throw {f : Fault} : Agree kinds s s' (throw f) (throw f) Q := (rfl : f = f)

theorem refuse {v : Violation} : Agree kinds s s' (refuse v) (Edit.refuse v) Q := throw

theorem misfit {m : Misfit} : Agree kinds s s' (misfit m) (Edit.misfit m) Q := throw

theorem mono (h : Agree kinds s s' edit edit' Q) (hQ : ∀ kinds' a a', kinds <+: kinds' → Q kinds' a a' → Q' kinds' a a') :
    Agree kinds s s' edit edit' Q' := by
  unfold Agree at h ⊢
  split at h
  · obtain ⟨kinds', hgrown, halike, ha⟩ := h
    exact ⟨kinds', hgrown, halike, hQ _ _ _ hgrown ha⟩
  · exact h
  · exact h.elim

/-- Sequences agree step by step, from what the first steps have answered. -/
theorem bind_of_runs (h : Agree kinds s s' edit edit' Q)
    (hnext : ∀ kinds₁ a a' t t', kinds <+: kinds₁ → t.Matches kinds₁ t' → Runs edit s a t → Q kinds₁ a a' →
      Agree kinds₁ t t' (next a) (next' a') R) :
    Agree kinds s s' (edit >>= next) (edit' >>= next') R := by
  unfold Agree at h
  unfold Agree
  rw [runOn_bind, runOn_bind]
  split at h
  · next a t a' t' heq heq' =>
    obtain ⟨kinds₁, hgrown, halike, ha⟩ := h
    have hagree := hnext kinds₁ a a' t t' hgrown halike heq ha
    rw [heq, heq']
    unfold Agree at hagree
    dsimp only
    split at hagree
    · next hrun hrun' =>
      obtain ⟨kinds₂, hgrown', halike', hb⟩ := hagree
      simp only [hrun, hrun']
      exact ⟨kinds₂, hgrown.trans hgrown', halike', hb⟩
    · next hrun hrun' =>
      simp only [hrun, hrun']
      exact hagree
    · exact hagree.elim
  · next heq heq' =>
    rw [heq, heq']
    exact h
  · exact h.elim

/-- Sequences agree step by step. -/
theorem bind (h : Agree kinds s s' edit edit' Q)
    (hnext : ∀ kinds₁ a a' t t', kinds <+: kinds₁ → t.Matches kinds₁ t' → Q kinds₁ a a' →
      Agree kinds₁ t t' (next a) (next' a') R) :
    Agree kinds s s' (edit >>= next) (edit' >>= next') R :=
  h.bind_of_runs fun kinds₁ a a' t t' hgrown halike _ ha => hnext kinds₁ a a' t t' hgrown halike ha

/-- Sequences agree if the first steps have the same answer. -/
theorem bind_same (h : Agree kinds s s' edit edit' (Same P))
    (hnext : ∀ kinds₁ a t t', kinds <+: kinds₁ → t.Matches kinds₁ t' → P kinds₁ a →
      Agree kinds₁ t t' (next a) (next' a) R) :
    Agree kinds s s' (edit >>= next) (edit' >>= next') R := by
  refine h.bind fun kinds₁ a a' t t' hgrown halike ha => ?_
  obtain ⟨rfl, ha⟩ := ha
  exact hnext kinds₁ a' t t' hgrown halike ha

/-- Behind a refusal nothing is done. -/
theorem refuse_bind {v : Violation} : Agree kinds s s' (Edit.refuse v >>= next) (Edit.refuse v >>= next') R := throw

theorem get_bind {next next' : Store → Edit β} (hnext : Agree kinds s s' (next s) (next' s') R) :
    Agree kinds s s' (get >>= next) (get >>= next') R := hnext

theorem ofExcept {answer : Except Misfit α} (h : s.Matches kinds s') (ha : ∀ a, answer = .ok a → P kinds a) :
    Agree kinds s s' (ofExcept answer) (Edit.ofExcept answer) (Same P) := by
  cases answer with
  | ok a => exact pure h ⟨rfl, ha a rfl⟩
  | error m => exact misfit

theorem ite {c c' : Prop} [Decidable c] [Decidable c'] {other other' : Edit α} (hc : c' ↔ c)
    (h : c → Agree kinds s s' edit edit' Q) (h' : ¬ c → Agree kinds s s' other other' Q) :
    Agree kinds s s' (if c then edit else other) (if c' then edit' else other') Q := by
  by_cases hcond : c
  · rw [if_pos hcond, if_pos (hc.mpr hcond)]
    exact h hcond
  · rw [if_neg hcond, if_neg (mt hc.mp hcond)]
    exact h' hcond

/-- Whatever has been done in either case, the same is done with the answer. -/
theorem ite_bind {c : Prop} [Decidable c] {other other' : Edit α} (h : c → Agree kinds s s' edit edit' (Same P))
    (h' : ¬ c → Agree kinds s s' other other' (Same P))
    (hnext : ∀ kinds₁ a t t', kinds <+: kinds₁ → t.Matches kinds₁ t' → P kinds₁ a →
      Agree kinds₁ t t' (next a) (next' a) R) :
    Agree kinds s s' (if c then edit >>= next else other >>= next) (if c then edit' >>= next' else other' >>= next') R :=
  ite Iff.rfl (fun hc => (h hc).bind_same hnext) fun hc => (h' hc).bind_same hnext

/-- Adding alike nodes gives the same value. -/
theorem addCell {cell cell' : Cell} (h : s.Matches kinds s') (hcell : cell.Alike k cell')
    (hfits : cell.Fits (kinds ++ [k]) k) (hfits' : cell'.Fits (kinds ++ [k]) k) :
    Agree kinds s s' (addCell cell) (Edit.addCell cell') (Same (OneOf [k])) := by
  refine ⟨kinds ++ [k], List.prefix_append _ _, h.add hcell hfits hfits', ?_, ?_⟩
  · simp only [h.size, h.size']
  · refine ⟨k, List.mem_singleton_self k, ?_⟩
    simp [h.size]

/-- Changing a node of both stores in the same way. -/
theorem modify_set (h : s.Matches kinds s') (hi : kinds[i]? = some k) (halike : entries.AlikeIn kinds k entries') :
    Agree kinds s s' (modify fun t => t.set i (.object entries)) (modify fun t => t.set i (.object entries'))
      (Same fun _ _ => True) :=
  ⟨kinds, List.prefix_rfl, h.set hi halike.cells halike.fits halike.fits', rfl, trivial⟩

/-! ## Reading -/

/-- Edits that only read go on with what they have read. -/
theorem read_bind {x y : Except Fault α} (h : edit.runOn s = (x, s)) (h' : edit'.runOn s' = (y, s'))
    (hcases : (∃ f, x = .error f ∧ y = .error f) ∨
      ∃ a a', x = .ok a ∧ y = .ok a' ∧ Agree kinds s s' (next a) (next' a') R) :
    Agree kinds s s' (edit >>= next) (edit' >>= next') R := by
  unfold Agree
  rw [runOn_bind, runOn_bind, h, h']
  rcases hcases with ⟨f, rfl, rfl⟩ | ⟨a, a', rfl, rfl, hagree⟩
  · rfl
  · exact hagree

theorem look_bind {next next' : Shape → Edit β} (hshape : s'.shape v = s.shape v)
    (hnext : Agree kinds s s' (next (s.shape v)) (next' (s.shape v)) R) :
    Agree kinds s s' (look v >>= next) (look v >>= next') R :=
  read_bind rfl rfl (.inr ⟨_, _, rfl, rfl, hshape ▸ hnext⟩)

theorem isTruthy_bind {next next' : Bool → Edit β} (h : s.Matches kinds s') (hv : v.IsOf kinds ks)
    (hks : ∀ k ∈ ks, k.isSteady = true) (hnext : ∀ c, Agree kinds s s' (next c) (next' c) R) :
    Agree kinds s s' (isTruthy v >>= next) (isTruthy v >>= next') R :=
  read_bind rfl rfl (.inr ⟨_, _, rfl, rfl, h.isTruthy_eq hv hks ▸ hnext _⟩)

theorem isReference_bind {next next' : Bool → Edit β} (h : s.Matches kinds s') (hv : v.IsOf kinds ks)
    (hnext : Agree kinds s s' (next (s.isReference v)) (next' (s.isReference v)) R) :
    Agree kinds s s' (isReference v >>= next) (isReference v >>= next') R :=
  read_bind rfl rfl (.inr ⟨_, _, rfl, rfl, h.isReference_eq hv ▸ hnext⟩)

theorem ofExcept_bind {answer answer' : Except Misfit α} (hanswer : answer' = answer)
    (hnext : ∀ a, answer = .ok a → Agree kinds s s' (next a) (next' a) R) :
    Agree kinds s s' (Edit.ofExcept answer >>= next) (Edit.ofExcept answer' >>= next') R := by
  subst hanswer
  cases answer' with
  | ok a => exact read_bind rfl rfl (.inr ⟨a, a, rfl, rfl, hnext a rfl⟩)
  | error m => exact read_bind rfl rfl (.inl ⟨_, rfl, rfl⟩)

theorem elementsOf (h : s.Matches kinds s') (hv : v.IsOf kinds ks)
    (hks : ∀ k ∈ ks, k.isSteady = true ∧ k.items ⊆ l ∧ k ≠ .loose) :
    Agree kinds s s' (elementsOf v) (Edit.elementsOf v) (Same fun kinds items => ∀ w ∈ items, w.IsOf kinds l) := by
  unfold Edit.elementsOf
  refine get_bind ?_
  rw [h.elements_eq hv fun k hk => (hks k hk).1]
  exact ofExcept h fun items hitems w hw => h.isOf_elements hv (fun k hk => (hks k hk).2) hitems hw

theorem elementsOf_bind {next next' : List Value → Edit β} (h : s.Matches kinds s') (hv : v.IsOf kinds ks)
    (hks : ∀ k ∈ ks, k.isSteady = true ∧ k.items ⊆ l ∧ k ≠ .loose)
    (hnext : ∀ items, (∀ w ∈ items, w.IsOf kinds l) → Agree kinds s s' (next items) (next' items) R) :
    Agree kinds s s' (Edit.elementsOf v >>= next) (Edit.elementsOf v >>= next') R :=
  ofExcept_bind (h.elements_eq hv fun k hk => (hks k hk).1) fun items hitems =>
    hnext items fun _ hw => h.isOf_elements hv (fun k hk => (hks k hk).2) hitems hw

theorem keyOf_bind {next next' : Scalar → Edit β} (h : s.Matches kinds s') (hv : v.IsOf kinds ks)
    (hnext : ∀ key, s.key v = .ok key → Agree kinds s s' (next key) (next' key) R) :
    Agree kinds s s' (keyOf v >>= next) (keyOf v >>= next') R :=
  ofExcept_bind (h.key_eq hv) hnext

theorem textOf {key : Scalar} (h : s.Matches kinds s') :
    Agree kinds s s' (textOf key) (Edit.textOf key) (Same fun _ text => text = key.display) := by
  unfold Edit.textOf
  exact ite Iff.rfl (fun _ => pure h ⟨rfl, rfl⟩) fun _ => misfit

/-- Reading an object goes on with entries that are alike. -/
theorem objectOf_bind {next next' : Nat × Entries Value → Edit β} (h : s.Matches kinds s') (hv : v.IsOf kinds ks)
    (hnext : ∀ i k entries entries', k ∈ ks → kinds[i]? = some k → s.shape v = .object i entries →
      s'.shape v = .object i entries' → entries.AlikeIn kinds k entries' →
      Agree kinds s s' (next (i, entries)) (next' (i, entries')) R) :
    Agree kinds s s' (objectOf v >>= next) (objectOf v >>= next') R := by
  rcases h.object_cases hv with ⟨hnone, hnone'⟩ | ⟨i, k, entries, entries', hk, hi, hshape, hshape', halike⟩
  · exact read_bind (runOn_objectOf_none hnone) (runOn_objectOf_none hnone') (.inl ⟨_, rfl, rfl⟩)
  · exact read_bind (runOn_objectOf hshape) (runOn_objectOf hshape')
      (.inr ⟨_, _, rfl, rfl, hnext i k entries entries' hk hi hshape hshape' halike⟩)

theorem entriesOf_bind {next next' : Entries Value → Edit β} (h : s.Matches kinds s') (hv : v.IsOf kinds ks)
    (hnext : ∀ k entries entries', k ∈ ks → entries.AlikeIn kinds k entries' →
      Agree kinds s s' (next entries) (next' entries') R) :
    Agree kinds s s' (entriesOf v >>= next) (entriesOf v >>= next') R := by
  unfold entriesOf
  rw [bind_assoc, bind_assoc]
  refine objectOf_bind h hv fun i k entries entries' hk _ _ _ halike => ?_
  rw [pure_bind, pure_bind]
  exact hnext k entries entries' hk halike

/-- Reading a field other than the description goes on with the same value. -/
theorem fieldOf_bind {next next' : Value → Edit β} (h : s.Matches kinds s') (hv : v.IsOf kinds ks)
    (hne : name ≠ descriptionKey) (hks : ∀ k ∈ ks, k.below (some (.text name)) ⊆ l)
    (hnext : ∀ w, w.IsOf kinds l → Agree kinds s s' (next w) (next' w) R) :
    Agree kinds s s' (fieldOf v name >>= next) (fieldOf v name >>= next') R := by
  unfold fieldOf
  rw [bind_assoc, bind_assoc]
  refine entriesOf_bind h hv fun k entries entries' hk halike => ?_
  rw [pure_bind, pure_bind, halike.get?_eq hne]
  exact hnext _ (halike.isOf_getD.of_subset (hks k hk))

/-- Reading a field that is known goes on with its value. -/
theorem fieldOf_bind_of_field? {next next' : Value → Edit β} (h : s.Matches kinds s') (hv : v.IsOf kinds ks)
    (hne : name ≠ descriptionKey) (hfield : s.field? v name = some w)
    (hnext : Agree kinds s s' (next w) (next' w) R) :
    Agree kinds s s' (fieldOf v name >>= next) (fieldOf v name >>= next') R := by
  unfold fieldOf entriesOf
  rw [bind_assoc, bind_assoc, bind_assoc, bind_assoc]
  refine objectOf_bind h hv fun i k entries entries' hk _ hshape _ halike => ?_
  have hget : entries.get? (.text name) = some w := by
    rwa [Store.field?, Store.entries?_eq_some.mpr ⟨i, hshape⟩] at hfield
  rw [pure_bind, pure_bind, pure_bind, pure_bind, halike.get?_eq hne, hget, Option.getD_some]
  exact hnext

/-! ## Writing -/

/-- Giving objects the same value under a key. -/
theorem putKey {key : Scalar} (h : s.Matches kinds s') (hv : v.IsOf kinds ks)
    (hput : ∀ k ∈ ks, ∀ entries entries' : Entries Value, entries.AlikeIn kinds k entries' →
      (entries.put key w).AlikeIn kinds k (entries'.put key w)) :
    Agree kinds s s' (putField v key w) (putField v key w) (Same fun _ _ => True) := by
  rcases h.object_cases hv with ⟨hnone, hnone'⟩ | ⟨i, k, entries, entries', hk, hi, hshape, hshape', halike⟩
  · unfold Agree
    rw [runOn_putField_none hnone, runOn_putField_none hnone']
  · have hafter := hput k hk entries entries' halike
    unfold Agree
    rw [runOn_putField hshape, runOn_putField hshape']
    exact ⟨kinds, List.prefix_rfl, h.set hi hafter.cells hafter.fits hafter.fits', rfl, trivial⟩

/-- A value may be put where its kind may stand, but not in place of the pointer of a reference. -/
theorem putField (h : s.Matches kinds s') (hv : v.IsOf kinds ks)
    (hks : ∀ k ∈ ks, w.IsOf kinds (k.below (some (.text name))) ∧ (k.mayRefer = true → name ≠ referenceKey)) :
    Agree kinds s s' (putField v name w) (Edit.putField v name w) (Same fun _ _ => True) :=
  putKey h hv fun k hk _ _ halike => halike.put (hks k hk).1 (hks k hk).2

/-- Removing a key that both objects have or lack. -/
theorem removeKey {key : Scalar} (h : s.Matches kinds s') (hv : v.IsOf kinds ks)
    (hremove : ∀ k ∈ ks, ∀ entries entries' : Entries Value, entries.AlikeIn kinds k entries' →
      entries'.has key = entries.has key ∧ (entries.remove key).AlikeIn kinds k (entries'.remove key)) :
    Agree kinds s s' (removeField v key) (Edit.removeField v key) (Same fun _ _ => True) := by
  rcases h.object_cases hv with ⟨hnone, hnone'⟩ | ⟨i, k, entries, entries', hk, hi, hshape, hshape', halike⟩
  · unfold Agree
    rw [runOn_removeField_none hnone, runOn_removeField_none hnone']
  · obtain ⟨heq, hafter⟩ := hremove k hk entries entries' halike
    unfold Agree
    cases hhas : entries.has key with
    | true =>
      rw [runOn_removeField hshape hhas, runOn_removeField hshape' (heq.trans hhas)]
      exact ⟨kinds, List.prefix_rfl, h.set hi hafter.cells hafter.fits hafter.fits', rfl, trivial⟩
    | false =>
      rw [runOn_removeField_missing hshape hhas, runOn_removeField_missing hshape' (heq.trans hhas)]

theorem removeField (h : s.Matches kinds s') (hv : v.IsOf kinds ks) (hne : name ≠ descriptionKey)
    (hks : ∀ k ∈ ks, k.mayRefer = true → name ≠ referenceKey) :
    Agree kinds s s' (removeField v name) (Edit.removeField v name) (Same fun _ _ => True) :=
  removeKey h hv fun k hk _ _ halike => ⟨halike.alike.has_eq hne, halike.remove hne (hks k hk)⟩

theorem newObject (h : s.Matches kinds s') (halike : entries.AlikeIn (kinds ++ [k]) k entries') :
    Agree kinds s s' (newObject entries) (Edit.newObject entries') (Same (OneOf [k])) :=
  addCell h halike.cells halike.fits halike.fits'

theorem newList {items : List Value} (h : s.Matches kinds s') (hitems : ∀ v ∈ items, v.IsOf kinds k.items) :
    Agree kinds s s' (newList items) (Edit.newList items) (Same (OneOf [k])) :=
  have hfits := (Cell.Fits.list hitems).mono (List.prefix_append kinds [k])
  addCell h (.refl _) hfits hfits

/-! ## Loops -/

/-- Going through a list, with an answer for each item. -/
theorem mapM {f : α → Edit β} {xs : List α} {P : List Kind → α → β → Prop} (h : s.Matches kinds s')
    (hlasts : ∀ x, Lasts fun kinds => P kinds x)
    (hstep : ∀ x ∈ xs, ∀ kinds₁ t t', kinds <+: kinds₁ → t.Matches kinds₁ t' →
      Agree kinds₁ t t' (f x) (f x) (Same fun kinds => P kinds x)) :
    Agree kinds s s' (xs.mapM f) (xs.mapM f) (Same fun kinds bs => List.Forall₂ (P kinds) xs bs) := by
  induction xs generalizing kinds s s' with
  | nil => exact pure h ⟨rfl, .nil⟩
  | cons x xs ih =>
    rw [List.mapM_cons]
    refine (hstep x List.mem_cons_self kinds s s' List.prefix_rfl h).bind_same
      fun kinds₁ b t t' hgrown halike hb => ?_
    refine (ih halike fun y hy kinds₂ u u' hgrown' =>
      hstep y (List.mem_cons_of_mem _ hy) kinds₂ u u' (hgrown.trans hgrown')).bind_same
      fun kinds₂ bs u u' hgrown' halike' hbs => ?_
    exact pure halike' ⟨rfl, .cons (hlasts x hgrown' hb) hbs⟩

/-- Going through a list for some of its items. -/
theorem filterM {f : α → Edit Bool} {xs : List α} (h : s.Matches kinds s')
    (hstep : ∀ x ∈ xs, ∀ kinds₁ t t', kinds <+: kinds₁ → t.Matches kinds₁ t' →
      Agree kinds₁ t t' (f x) (f x) (Same fun _ _ => True)) :
    Agree kinds s s' (xs.filterM f) (xs.filterM f) (Same fun _ ys => ys ⊆ xs) := by
  have hloop : ∀ acc, Agree kinds s s' (xs.filterAuxM f acc) (xs.filterAuxM f acc) (Same fun _ ys => ys ⊆ xs ++ acc) := by
    induction xs generalizing kinds s s' with
    | nil => exact fun acc => pure h ⟨rfl, List.Subset.refl _⟩
    | cons x xs ih =>
      intro acc
      unfold List.filterAuxM
      refine (hstep x List.mem_cons_self kinds s s' List.prefix_rfl h).bind_same
        fun kinds₁ c t t' hgrown halike _ => ?_
      have hrest := ih halike (fun y hy kinds₂ u u' hgrown' =>
        hstep y (List.mem_cons_of_mem _ hy) kinds₂ u u' (hgrown.trans hgrown')) (cond c (x :: acc) acc)
      refine hrest.mono fun _ ys ys' _ hsame => ⟨hsame.1, fun y hy => ?_⟩
      have hmem := hsame.2 hy
      cases c <;> simp only [cond_true, cond_false, List.mem_append, List.mem_cons, List.cons_append] at hmem ⊢ <;> tauto
  unfold List.filterM
  refine (hloop []).bind_same fun kinds₁ ys t t' _ halike hys => pure halike ⟨rfl, fun y hy => ?_⟩
  simpa using hys (List.mem_reverse.mp hy)

/-- Going through a list with what is known so far. -/
theorem foldlM {f : β → α → Edit β} {xs : List α} {b : β} (h : s.Matches kinds s') (hb : I kinds b)
    (hstep : ∀ x ∈ xs, ∀ kinds₁ c t t', kinds <+: kinds₁ → t.Matches kinds₁ t' → I kinds₁ c →
      Agree kinds₁ t t' (f c x) (f c x) (Same I)) :
    Agree kinds s s' (xs.foldlM f b) (xs.foldlM f b) (Same I) := by
  induction xs generalizing kinds s s' b with
  | nil => exact pure h ⟨rfl, hb⟩
  | cons x xs ih =>
    rw [List.foldlM_cons]
    refine (hstep x List.mem_cons_self kinds b s s' List.prefix_rfl h hb).bind_same
      fun kinds₁ c t t' hgrown halike hc => ?_
    exact ih halike hc fun y hy kinds₂ d u u' hgrown' =>
      hstep y (List.mem_cons_of_mem _ hy) kinds₂ d u u' (hgrown.trans hgrown')

/-- A loop over a list whose body never leaves the loop. -/
theorem forIn {body : α → PUnit → Edit (ForInStep PUnit)} {xs : List α} (h : s.Matches kinds s')
    (hstep : ∀ x ∈ xs, ∀ kinds₁ t t', kinds <+: kinds₁ → t.Matches kinds₁ t' →
      Agree kinds₁ t t' (body x PUnit.unit) (body x PUnit.unit) (Same fun _ r => r = .yield PUnit.unit)) :
    Agree kinds s s' (ForIn.forIn xs PUnit.unit body) (ForIn.forIn xs PUnit.unit body) (Same fun _ _ => True) := by
  induction xs generalizing kinds s s' with
  | nil => exact pure h ⟨rfl, trivial⟩
  | cons x xs ih =>
    rw [List.forIn_cons]
    refine (hstep x List.mem_cons_self kinds s s' List.prefix_rfl h).bind_same
      fun kinds₁ r t t' hgrown halike hr => ?_
    subst hr
    exact ih halike fun y hy kinds₂ u u' hgrown' =>
      hstep y (List.mem_cons_of_mem _ hy) kinds₂ u u' (hgrown.trans hgrown')

/-- Going through the entries of an object that is the same in both stores. -/
theorem foldEntries {object : Value} {step : β → Scalar → Value → Edit β} {b : β} (h : s.Matches kinds s')
    (hobject : object.IsOf kinds ks) (hks : ∀ k ∈ ks, k.isDescribed = false) (hb : I kinds b)
    (hstep : ∀ kinds₁ c t t' key w k, kinds <+: kinds₁ → t.Matches kinds₁ t' → I kinds₁ c → k ∈ ks →
      w.IsOf kinds₁ (k.below (some key)) → Agree kinds₁ t t' (step c key w) (step c key w) (Same I)) :
    Agree kinds s s' (foldEntries object b step) (Edit.foldEntries object b step) (Same I) := by
  have hloop : ∀ (count remaining : Nat) (kinds₁ : List Kind) (c : β) (t t' : Store), kinds <+: kinds₁ →
      t.Matches kinds₁ t' → I kinds₁ c → Agree kinds₁ t t' (foldLastEntries object step count remaining c)
        (foldLastEntries object step count remaining c) (Same I) := by
    intro count remaining
    induction remaining with
    | zero =>
      intro kinds₁ c t t' hgrown halike hc
      unfold foldLastEntries
      refine entriesOf_bind halike (hobject.mono hgrown) fun k entries entries' hk hentries => ?_
      obtain rfl := hentries.same (hks k hk)
      refine ite Iff.rfl (fun _ => ?_) fun _ => ?_
      · exact misfit
      · exact pure halike ⟨rfl, hc⟩
    | succ remaining ih =>
      intro kinds₁ c t t' hgrown halike hc
      unfold foldLastEntries
      refine entriesOf_bind halike (hobject.mono hgrown) fun k entries entries' hk hentries => ?_
      obtain rfl := hentries.same (hks k hk)
      refine ite Iff.rfl (fun _ => ?_) fun _ => ?_
      · exact misfit
      · cases hentry : entries[count - (remaining + 1)]? with
        | none => exact pure halike ⟨rfl, hc⟩
        | some e =>
          have hw := hentries.fits.entry (List.mem_of_getElem? hentry)
          exact (hstep kinds₁ c t t' e.1 e.2 k hgrown halike hc hk hw).bind_same
            fun kinds₂ d u u' hgrown' halike' hd => ih kinds₂ d u u' (hgrown.trans hgrown') halike' hd
  unfold Edit.foldEntries
  refine entriesOf_bind h hobject fun k entries entries' hk hentries => ?_
  obtain rfl := hentries.same (hks k hk)
  exact hloop _ _ kinds b s s' List.prefix_rfl h hb

/-- The entries of a value that may be absent and is the same in both stores. -/
theorem optionalEntries_bind {next next' : Entries Value → Edit β} (h : s.Matches kinds s') (hv : v.IsOf kinds ks)
    (hks : ∀ k ∈ ks, k.isDescribed = false)
    (hnext : ∀ entries, entries = [] ∨ (∃ k ∈ ks, (Cell.object entries).Fits kinds k) →
      Agree kinds s s' (next entries) (next' entries) R) :
    Agree kinds s s' (optionalEntries v >>= next) (optionalEntries v >>= next') R := by
  unfold optionalEntries
  rw [bind_assoc, bind_assoc]
  refine isTruthy_bind h hv (fun k hk => Kind.isSteady_of_isDescribed (hks k hk)) fun c => ?_
  cases c with
  | true =>
    refine entriesOf_bind h hv fun k entries entries' hk halike => ?_
    obtain rfl := halike.same (hks k hk)
    exact hnext entries (.inr ⟨k, hk, halike.fits⟩)
  | false => exact hnext [] (.inl rfl)

/-- A violation is passed on as part of the same wider one. -/
theorem explaining {wider : Violation → Violation} (h : Agree kinds s s' edit edit' Q) :
    Agree kinds s s' (explaining wider edit) (Edit.explaining wider edit') Q := by
  unfold Agree at h ⊢
  rw [runOn_explaining, runOn_explaining]
  split at h
  · next hrun hrun' =>
    rw [hrun, hrun']
    exact h
  · next hrun hrun' =>
    rw [hrun, hrun']
    exact congrArg (Fault.within wider) h
  · exact h.elim

end Agree

end Edit

end DeviceApi
