import DeviceApi.Proofs.Document.Holds
import DeviceApi.Proofs.Document.Pointers
import Mathlib.Data.Fintype.Card

/-!
# Chains of references

A reference may refer to another one. The chain that begins with a value ends at the first value that is
no reference. A chain that ends has no pointer twice, and each of its pointers stands in a node of its own.
So the bound on the length of a chain and the pointers that are kept in mind refuse no chain that ends.
-/

namespace DeviceApi

namespace Store

variable {s : Store} {root v w w' : Value} {n m fuel : Nat} {p : String} {seen : List String}

/-- The chain of references that begins with a value ends at another one, so many references later. -/
inductive Chain (s : Store) (root : Value) : Nat → Value → Value → Prop
  | nil {v : Value} (h : s.isReference v = false) : Chain s root 0 v v
  | cons {n : Nat} {p : String} {v u w : Value} (hpointer : s.field? v referenceKey = some (.text p))
      (hresolve : s.resolve root p = .ok u) (h : Chain s root n u w) : Chain s root (n + 1) v w

theorem field?_eq_some {key : Scalar} :
    s.field? v key = some w ↔ ∃ id entries, s.shape v = .object id entries ∧ entries.get? key = some w := by
  unfold field?
  cases hentries : s.entries? v with
  | none =>
    simp only [reduceCtorEq, false_iff]
    rintro ⟨id, entries, hshape, -⟩
    rw [entries?_eq_some.mpr ⟨id, hshape⟩] at hentries
    cases hentries
  | some entries =>
    obtain ⟨id, hshape⟩ := entries?_eq_some.mp hentries
    constructor
    · exact fun hget => ⟨id, entries, hshape, hget⟩
    · rintro ⟨id', entries', hshape', hget⟩
      rw [hshape, Shape.object.injEq] at hshape'
      exact hshape'.2 ▸ hget

/-- Steps lead on from where the first of them leads to. -/
theorem follow_cons {name : String} {steps : List String} : s.follow v (name :: steps) = .ok (some w) ↔
    ∃ u, s.step v name = .ok (some u) ∧ s.isNull u = false ∧ s.follow u steps = .ok (some w) := by
  rw [follow]
  split
  · simp [*]
  · simp [*]
  · next u hstep => cases hnull : s.isNull u <;> simp [hstep, hnull]

/-- A pointer leads to what its steps lead to. -/
theorem resolve_eq_ok {pointer : String} : s.resolve root pointer = .ok w ↔
    ∃ steps, Pointer.steps? pointer = some steps ∧ s.follow root steps = .ok (some w) := by
  unfold resolve
  split
  · next hnone => simp [hnone]
  · next steps hsteps =>
    simp only [hsteps, Option.some.injEq, exists_eq_left']
    split <;> simp [*]

theorem isReference_eq_isSome : s.isReference v = (s.field? v referenceKey).isSome := by
  unfold isReference field?
  cases s.entries? v <;> rfl

theorem isReference_of_field? (h : s.field? v referenceKey = some w) : s.isReference v = true := by
  obtain ⟨id, entries, hshape, hget⟩ := field?_eq_some.mp h
  rw [isReference, entries?_eq_some.mpr ⟨id, hshape⟩]
  simp [Entries.has, hget]

namespace Chain

/-- A chain ends at no reference. -/
theorem not_isReference (h : s.Chain root n v w) : s.isReference w = false := by
  induction h with
  | nil h => exact h
  | cons _ _ _ ih => exact ih

/-- A value begins one chain at most. -/
theorem unique (h : s.Chain root n v w) (h' : s.Chain root m v w') : n = m ∧ w = w' := by
  induction h generalizing m with
  | nil hv =>
    cases h' with
    | nil => exact ⟨rfl, rfl⟩
    | cons hpointer => simp [isReference_of_field? hpointer] at hv
  | cons hpointer hresolve _ ih =>
    cases h' with
    | nil hv => simp [isReference_of_field? hpointer] at hv
    | cons hpointer' hresolve' h' =>
      rw [hpointer] at hpointer'
      obtain rfl := Scalar.text.inj (Value.scalar.inj (Option.some.inj hpointer'))
      rw [hresolve] at hresolve'
      obtain rfl := Except.ok.inj hresolve'
      obtain ⟨rfl, rfl⟩ := ih h'
      exact ⟨rfl, rfl⟩

/-- A chain passes through a node at each distance from its end. -/
theorem exists_node (h : s.Chain root n v w) (hlt : m < n) :
    ∃ i : Fin s.cells.size, s.Chain root (m + 1) (.node i) w := by
  induction h with
  | nil => omega
  | @cons n p v u w hpointer hresolve h ih =>
    rcases Nat.lt_succ_iff_lt_or_eq.mp hlt with hlt' | rfl
    · exact ih hlt'
    · obtain ⟨id, entries, hshape, -⟩ := field?_eq_some.mp hpointer
      obtain ⟨rfl, hcell⟩ := shape_eq_object.mp hshape
      have hid : id < s.cells.size := (Array.getElem?_eq_some_iff.mp hcell).choose
      exact ⟨⟨id, hid⟩, .cons hpointer hresolve h⟩

/-- No chain is longer than there are nodes: each node has its own distance from the end. -/
theorem length_le (h : s.Chain root n v w) : n ≤ s.cells.size := by
  choose f hf using fun m : Fin n => h.exists_node m.isLt
  have hinjective : Function.Injective f := by
    intro a b hab
    have heq := ((hf a).unique (hab ▸ hf b)).1
    exact Fin.ext (Nat.succ.inj heq)
  simpa using Fintype.card_le_of_injective f hinjective

/-- A chain is followed to its end if no pointer behind it has come up. -/
theorem chainEnd_eq (h : s.Chain root n v w) (hfuel : n < fuel)
    (hseen : ∀ p ∈ seen, ∀ u m w', s.resolve root p = .ok u → s.Chain root m u w' → n ≤ m) :
    s.chainEnd root fuel seen v = .ok w := by
  induction h generalizing fuel seen with
  | nil hv =>
    obtain ⟨fuel, rfl⟩ := Nat.exists_eq_succ_of_ne_zero (Nat.ne_of_gt hfuel)
    unfold chainEnd
    unfold isReference at hv
    cases hentries : s.entries? _ with
    | none => rfl
    | some entries =>
      rw [hentries] at hv
      simp only [Entries.has, Option.isSome_eq_false_iff, Option.isNone_iff_eq_none] at hv
      simp [hv]
  | @cons n p v u w hpointer hresolve h ih =>
    obtain ⟨fuel, rfl⟩ := Nat.exists_eq_succ_of_ne_zero (Nat.ne_of_gt (Nat.zero_lt_of_lt hfuel))
    obtain ⟨id, entries, hshape, hget⟩ := field?_eq_some.mp hpointer
    have hnew : seen.contains p = false := by
      rw [← Bool.not_eq_true, List.contains_iff_mem]
      intro hp
      have hle := hseen p hp u n w hresolve h
      omega
    unfold chainEnd
    simp only [entries?_eq_some.mpr ⟨id, hshape⟩, hget, shape, hnew, Bool.false_eq_true, if_false,
      hresolve]
    refine ih (by omega) fun q hq u' m w' hu' h' => ?_
    rcases List.mem_cons.mp hq with rfl | hq
    · rw [hresolve] at hu'
      obtain rfl := Except.ok.inj hu'
      exact (h.unique h').1.le
    · have hle := hseen q hq u' m w' hu' h'
      omega

end Chain

/-- Different pointers stand in different nodes. -/
theorem length_le_of_pointers (hnodup : seen.Nodup)
    (hseen : ∀ p ∈ seen, ∃ i, s.field? (.node i) referenceKey = some (.text p)) :
    seen.length ≤ s.cells.size := by
  choose! f hf using hseen
  have hlt : ∀ p ∈ seen, f p < s.cells.size := by
    intro p hp
    obtain ⟨id, entries, hshape, -⟩ := field?_eq_some.mp (hf p hp)
    obtain ⟨heq, hcell⟩ := shape_eq_object.mp hshape
    obtain rfl : f p = id := by simpa using heq
    exact (Array.getElem?_eq_some_iff.mp hcell).choose
  have hinjective : Set.InjOn f seen.toFinset := by
    intro p hp q hq hpq
    have heq := (hf p (by simpa using hp)).symm.trans (hpq ▸ hf q (by simpa using hq))
    exact Scalar.text.inj (Value.scalar.inj (Option.some.inj heq))
  have hcard := Finset.card_le_card_of_injOn (t := Finset.range s.cells.size) f
    (fun p hp => by simpa using hlt p (by simpa using hp)) hinjective
  rwa [List.toFinset_card_of_nodup hnodup, Finset.card_range] at hcard

/-- Following references does not stop before the end of a chain: it would have met more pointers than there
are nodes. -/
theorem chain_of_chainEnd (h : s.chainEnd root fuel seen v = .ok w) (hnodup : seen.Nodup)
    (hseen : ∀ p ∈ seen, ∃ i, s.field? (.node i) referenceKey = some (.text p))
    (hfuel : s.cells.size < seen.length + fuel) : ∃ n, s.Chain root n v w := by
  induction fuel generalizing seen v with
  | zero =>
    have hle := length_le_of_pointers hnodup hseen
    omega
  | succ fuel ih =>
    have hplain : ∀ {entries : Entries Value}, s.entries? v = some entries →
        entries.get? referenceKey = none → s.isReference v = false := by
      intro entries hentries hget
      simp [isReference, hentries, Entries.has, hget]
    unfold chainEnd at h
    split at h
    · next hnone =>
      obtain rfl := Except.ok.inj h
      exact ⟨0, .nil (by simp [isReference, hnone])⟩
    · next entries hentries =>
      split at h
      · next hget =>
        obtain rfl := Except.ok.inj h
        exact ⟨0, .nil (hplain hentries hget)⟩
      · next pointer hget =>
        split at h
        · next p hshape =>
          have htext : s.isText pointer p = true := by simp [isText, hshape]
          obtain rfl := isText_iff.mp htext
          split at h
          · cases h
          · next hnew =>
            obtain ⟨id, hid⟩ := entries?_eq_some.mp hentries
            have hfield : s.field? v referenceKey = some (.text p) :=
              field?_eq_some.mpr ⟨id, entries, hid, hget⟩
            obtain ⟨rfl, -⟩ := shape_eq_object.mp hid
            split at h
            · next u hresolve =>
              obtain ⟨n, hchain⟩ := ih h (List.nodup_cons.mpr ⟨by simpa using hnew, hnodup⟩)
                (List.forall_mem_cons.mpr ⟨⟨id, hfield⟩, hseen⟩) (by simp only [List.length_cons]; omega)
              exact ⟨n + 1, .cons hfield hresolve hchain⟩
            · cases h
        · cases h
        · cases h
        · cases h

/-- Following references answers the end of the chain that begins with a value, if there is one. -/
theorem dereference_eq_ok : s.dereference root v = .ok w ↔ ∃ n, s.Chain root n v w := by
  constructor
  · intro h
    exact chain_of_chainEnd h .nil (by simp) (by simp)
  · rintro ⟨n, h⟩
    have hle := h.length_le
    exact h.chainEnd_eq (by omega) (by simp)

end Store

/-! ## Following references in two stores

References lead to the same end in two stores if the same pointers stand in what they pass through, and if
these pointers lead to the same values. Nodes that are added elsewhere make no difference.
-/

section

variable {s s' : Store} {root v w u : Value} {n : Nat} {p : String}

namespace Store

/-- The two stores read the same reference, or none, in a value. -/
structure SameReference (s s' : Store) (v : Value) : Prop where
  isReference_eq : s'.isReference v = s.isReference v
  pointer_eq : s'.field? v referenceKey = s.field? v referenceKey

/-- A chain goes the same way in the other store as long as it stays among values where the stores read the
same references and from where these lead on to such values. -/
theorem Chain.transfer (h : s.Chain root n v w) (P : Value → Prop) (hv : P v)
    (hsame : ∀ v, P v → s.SameReference s' v)
    (hresolve : ∀ v p u, P v → s.field? v referenceKey = some (.text p) → s.resolve root p = .ok u →
      s'.resolve root p = .ok u ∧ P u) : s'.Chain root n v w ∧ P w := by
  induction h with
  | nil hnot => exact ⟨.nil ((hsame _ hv).isReference_eq.trans hnot), hv⟩
  | cons hpointer hleads _ ih =>
    obtain ⟨hleads', hu⟩ := hresolve _ _ _ hv hpointer hleads
    obtain ⟨hchain, hw⟩ := ih hu
    exact ⟨.cons ((hsame _ hv).pointer_eq.trans hpointer) hleads' hchain, hw⟩

theorem field?_eq_of_shape_eq {key : Scalar} (h : s'.shape v = s.shape v) : s'.field? v key = s.field? v key := by
  simp only [field?, entries?, h]

theorem isReference_eq_of_shape_eq (h : s'.shape v = s.shape v) : s'.isReference v = s.isReference v := by
  simp only [isReference, entries?, h]

theorem sameReference_of_shape_eq (h : s'.shape v = s.shape v) : s.SameReference s' v :=
  ⟨isReference_eq_of_shape_eq h, field?_eq_of_shape_eq h⟩

theorem step_eq_of_shape_eq {name : String} (h : s'.shape v = s.shape v) : s'.step v name = s.step v name := by
  simp only [step, h]

/-- A value that is there does not change when nodes are added. -/
theorem Grows.shape_eq (h : s.Grows s') (hv : ∀ i, v = .node i → i < s.cells.size) : s'.shape v = s.shape v := by
  cases v with
  | scalar a => rfl
  | node i => simp only [shape, h.agree i (hv i rfl)]

end Store

namespace View.Gated

variable {root : Nat} {gates : Set Gate} {K : Set Nat} {steps : List String}

section

variable (h : View.Gated root gates ⟨s, K⟩) (hgrows : s.Grows s')
include h hgrows

theorem shape_eq_grow (hv : View.Linked ⟨s, K⟩ v) : s'.shape v = s.shape v :=
  hgrows.shape_eq fun i hi => h.lt i (hv i hi)

theorem follow_grow (hv : View.Linked ⟨s, K⟩ v) : s'.follow v steps = s.follow v steps := by
  induction steps generalizing v with
  | nil => rfl
  | cons name rest ih =>
    rw [Store.follow, Store.follow, Store.step_eq_of_shape_eq (h.shape_eq_grow hgrows hv)]
    cases hstep : s.step v name with
    | error m => rfl
    | ok found =>
      cases found with
      | none => rfl
      | some w =>
        have hw := h.linked_step hv hstep
        dsimp only
        rw [Store.isNull_eq_of_shape_eq (h.shape_eq_grow hgrows hw), ih hw]

theorem resolve_grow : s'.resolve (.node root) p = s.resolve (.node root) p := by
  have hroot : View.Linked ⟨s, K⟩ (.node root) := by
    intro x hx
    obtain rfl : root = x := by simpa using hx
    exact h.root_known
  unfold Store.resolve
  cases Pointer.steps? p with
  | none => rfl
  | some steps => simp only [h.follow_grow hgrows hroot]

/-- What is known refers to the same as before when nodes are added. -/
theorem dereference_grow (hv : View.Linked ⟨s, K⟩ v) :
    s'.dereference (.node root) v = .ok w ↔ s.dereference (.node root) v = .ok w := by
  rw [Store.dereference_eq_ok, Store.dereference_eq_ok]
  constructor
  · rintro ⟨n, hchain⟩
    refine ⟨n, (hchain.transfer (View.Linked ⟨s, K⟩) hv (fun v hv => ?_) fun v p u _ _ hu => ?_).1⟩
    · exact Store.sameReference_of_shape_eq (h.shape_eq_grow hgrows hv).symm
    · rw [h.resolve_grow hgrows] at hu
      exact ⟨hu, h.linked_resolve hu⟩
  · rintro ⟨n, hchain⟩
    refine ⟨n, (hchain.transfer (View.Linked ⟨s, K⟩) hv (fun v hv => ?_) fun v p u _ _ hu => ?_).1⟩
    · exact Store.sameReference_of_shape_eq (h.shape_eq_grow hgrows hv)
    · rw [h.resolve_grow hgrows]
      exact ⟨hu, h.linked_resolve hu⟩

end

end View.Gated

end

end DeviceApi
