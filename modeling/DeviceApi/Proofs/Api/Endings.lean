import DeviceApi.Proofs.Api.Lookup

/-!
# How the pursuit of references ends

References are followed from one to the next until there is a value that is no reference, a pointer that has come up
before, or a pointer that leads nowhere. One of these comes about in any document: whatever is looked up after the first
pointer is a pointer of the document that has not been looked up yet, so there are fewer of them from step to step.
-/

namespace DeviceApi

namespace Tree

variable {t u D : Tree}

/-- All references in the tree have texts for pointers. -/
def TextReferences (t : Tree) : Prop :=
  ∀ u : Tree, u.Inside t → ∀ x, u.field? referenceKey = some x → ∃ p, x = .text p

theorem TextReferences.of_inside (h : t.TextReferences) (hu : u.Inside t) : u.TextReferences :=
  fun v hv => h v (hv.trans hu)

@[simp] theorem textReferences_scalar (a : Scalar) : (scalar a).TextReferences := by
  intro u hu x hx
  cases hu
  cases hx

@[simp] theorem textReferences_object {entries : List (Scalar × Tree)} : (object entries).TextReferences ↔
    (∀ x, Entries.get? referenceKey entries = some x → ∃ p, x = .text p) ∧ ∀ e ∈ entries, e.2.TextReferences := by
  constructor
  · exact fun h => ⟨h _ .refl, fun e he => h.of_inside (.entry he .refl)⟩
  · rintro ⟨hown, hbelow⟩ u hu
    cases hu with
    | refl => exact hown
    | entry he hu => exact hbelow _ he u hu

end Tree

namespace Store

variable {s : Store} {root v u u' w : Value} {t D V : Tree} {p q r : String} {seen ps ps' looked : List String}
  {answer : Except Fault Value} {fuel : Nat}

/-! ## Lookups -/

/-- Looking up the pointers one after the other leads from a value to another one: each pointer is that of the reference
that the pointers before it have led to. -/
inductive Lookups (s : Store) (root : Value) : Value → List String → Value → Prop
  | nil (v : Value) : Lookups s root v [] v
  | cons {v u w : Value} {p : String} {ps : List String} (hpointer : s.field? v referenceKey = some (.text p))
      (hresolve : s.resolve root p = .ok u) (h : Lookups s root u ps w) : Lookups s root v (p :: ps) w

/-- No lookup succeeds at the value. -/
def Final (s : Store) (root v : Value) : Prop :=
  ∀ p, s.field? v referenceKey = some (.text p) → ∀ w, s.resolve root p ≠ .ok w

theorem final_of_not_isReference (h : s.isReference v = false) : s.Final root v := by
  intro p hpointer
  rw [isReference_of_field? hpointer] at h
  cases h

theorem final_of_resolve {f : Fault} (hpointer : s.field? v referenceKey = some (.text p))
    (hresolve : s.resolve root p = .error f) : s.Final root v := by
  intro q hpointer' w
  rw [hpointer] at hpointer'
  obtain rfl := Scalar.text.inj (Value.scalar.inj (Option.some.inj hpointer'))
  simp [hresolve]

namespace Lookups

/-- Lookups that go as far as can be are the same. -/
theorem unique (h : s.Lookups root v ps u) (hfinal : s.Final root u) (h' : s.Lookups root v ps' u')
    (hfinal' : s.Final root u') : ps = ps' ∧ u = u' := by
  induction h generalizing ps' with
  | nil =>
    cases h' with
    | nil => exact ⟨rfl, rfl⟩
    | cons hpointer hresolve => exact absurd hresolve (hfinal _ hpointer _)
  | cons hpointer hresolve _ ih =>
    cases h' with
    | nil => exact absurd hresolve (hfinal' _ hpointer _)
    | cons hpointer' hresolve' h' =>
      rw [hpointer] at hpointer'
      obtain rfl := Scalar.text.inj (Value.scalar.inj (Option.some.inj hpointer'))
      rw [hresolve] at hresolve'
      obtain rfl := Except.ok.inj hresolve'
      obtain ⟨rfl, rfl⟩ := ih hfinal h'
      exact ⟨rfl, rfl⟩

/-- What comes after one of the pointers is looked up by fewer. -/
theorem after (h : s.Lookups root v ps w) (hp : p ∈ ps) (hresolve : s.resolve root p = .ok u) :
    ∃ later, later.length < ps.length ∧ s.Lookups root u later w := by
  induction h with
  | nil => cases hp
  | @cons v u' w q ps _ hresolve' h ih =>
    rcases List.mem_cons.mp hp with rfl | hp
    · rw [hresolve] at hresolve'
      obtain rfl := Except.ok.inj hresolve'
      exact ⟨ps, Nat.lt_succ_self _, h⟩
    · obtain ⟨later, hlt, hlater⟩ := ih hp
      exact ⟨later, hlt.trans (Nat.lt_succ_self _), hlater⟩

theorem exists_resolve (h : s.Lookups root v ps w) (hp : p ∈ ps) : ∃ u, s.resolve root p = .ok u := by
  induction h with
  | nil => cases hp
  | cons _ hresolve _ ih =>
    rcases List.mem_cons.mp hp with rfl | hp
    · exact ⟨_, hresolve⟩
    · exact ih hp

/-- No pointer is looked up twice on the way to where no lookup succeeds: what comes after the pointer would be as long
as a part of itself. -/
theorem nodup (h : s.Lookups root v ps w) (hfinal : s.Final root w) : ps.Nodup := by
  induction h with
  | nil => exact .nil
  | @cons v u w p ps _ hresolve h ih =>
    refine List.nodup_cons.mpr ⟨fun hp => ?_, ih hfinal⟩
    obtain ⟨later, hlt, hlater⟩ := h.after hp hresolve
    obtain ⟨rfl, -⟩ := h.unique hfinal hlater hfinal
    exact lt_irrefl _ hlt

end Lookups

/-! ## The pursuit -/

/-- References are followed from a value on with the pointers in mind that have come up, which looks up some more
pointers and has an answer. -/
inductive Pursuit (s : Store) (root : Value) : List String → Value → List String → Except Fault Value → Prop
  | arrives {seen : List String} {v : Value} (h : s.isReference v = false) : Pursuit s root seen v [] (.ok v)
  | returns {seen : List String} {v : Value} {p : String} (hpointer : s.field? v referenceKey = some (.text p))
      (hseen : p ∈ seen) : Pursuit s root seen v [] (.error (.violation (.circular p)))
  | fails {seen : List String} {v : Value} {p : String} {f : Fault}
      (hpointer : s.field? v referenceKey = some (.text p)) (hnew : p ∉ seen) (hresolve : s.resolve root p = .error f) :
      Pursuit s root seen v [p] (.error f)
  | passes {seen looked : List String} {v u : Value} {p : String} {answer : Except Fault Value}
      (hpointer : s.field? v referenceKey = some (.text p)) (hnew : p ∉ seen) (hresolve : s.resolve root p = .ok u)
      (h : Pursuit s root (p :: seen) u looked answer) : Pursuit s root seen v (p :: looked) answer

/-! ### One round of following references -/

theorem chainEnd_of_not_isReference (h : s.isReference v = false) : s.chainEnd root (fuel + 1) seen v = .ok v := by
  have hfield : s.field? v referenceKey = none := by simpa [isReference_eq_isSome] using h
  rw [chainEnd]
  cases hentries : s.entries? v with
  | none => rfl
  | some entries =>
    have hget : entries.get? referenceKey = none := by simpa [field?, hentries] using hfield
    simp [hget]

theorem chainEnd_of_pointer (hpointer : s.field? v referenceKey = some (.text p)) :
    s.chainEnd root (fuel + 1) seen v = if p ∈ seen then .error (.violation (.circular p))
      else match s.resolve root p with
        | .ok w => s.chainEnd root fuel (p :: seen) w
        | .error f => .error f := by
  obtain ⟨id, entries, hshape, hget⟩ := field?_eq_some.mp hpointer
  rw [chainEnd, entries?_eq_some.mpr ⟨id, hshape⟩]
  cases hresolve : s.resolve root p <;> simp [hget, shape, hresolve]

namespace Pursuit

/-- As many rounds as there are lookups, and a last one, follow references to the end. -/
theorem chainEnd_eq (h : s.Pursuit root seen v looked answer) (hfuel : looked.length < fuel) :
    s.chainEnd root fuel seen v = answer := by
  induction h generalizing fuel with
  | arrives h =>
    obtain ⟨fuel, rfl⟩ := Nat.exists_eq_succ_of_ne_zero (Nat.ne_of_gt hfuel)
    exact chainEnd_of_not_isReference h
  | returns hpointer hseen =>
    obtain ⟨fuel, rfl⟩ := Nat.exists_eq_succ_of_ne_zero (Nat.ne_of_gt hfuel)
    rw [chainEnd_of_pointer hpointer, if_pos hseen]
  | fails hpointer hnew hresolve =>
    obtain ⟨fuel, rfl⟩ := Nat.exists_eq_succ_of_ne_zero (Nat.ne_of_gt (Nat.zero_lt_of_lt hfuel))
    rw [chainEnd_of_pointer hpointer, if_neg hnew, hresolve]
  | passes hpointer hnew hresolve _ ih =>
    obtain ⟨fuel, rfl⟩ := Nat.exists_eq_succ_of_ne_zero (Nat.ne_of_gt (Nat.zero_lt_of_lt hfuel))
    rw [chainEnd_of_pointer hpointer, if_neg hnew, hresolve]
    exact ih (Nat.lt_of_succ_lt_succ hfuel)

/-- No pointer is looked up that has come up before. -/
theorem fresh (h : s.Pursuit root seen v looked answer) : looked.Nodup ∧ ∀ p ∈ looked, p ∉ seen := by
  induction h with
  | arrives | returns => simp
  | fails _ hnew => simpa using hnew
  | passes _ hnew _ _ ih =>
    obtain ⟨hnodup, hfresh⟩ := ih
    refine ⟨List.nodup_cons.mpr ⟨fun hp => hfresh _ hp List.mem_cons_self, hnodup⟩, ?_⟩
    exact List.forall_mem_cons.mpr ⟨hnew, fun q hq hseen => hfresh q hq (List.mem_cons_of_mem _ hseen)⟩

/-- Every pointer that is looked up stands in a node. -/
theorem exists_node (h : s.Pursuit root seen v looked answer) :
    ∀ p ∈ looked, ∃ i, s.field? (.node i) referenceKey = some (.text p) := by
  have hnode : ∀ {v : Value} {p : String}, s.field? v referenceKey = some (.text p) →
      ∃ i, s.field? (.node i) referenceKey = some (.text p) := by
    intro v p hpointer
    obtain ⟨id, entries, hshape, -⟩ := field?_eq_some.mp hpointer
    obtain ⟨rfl, -⟩ := shape_eq_object.mp hshape
    exact ⟨id, hpointer⟩
  induction h with
  | arrives | returns => simp
  | fails hpointer => exact List.forall_mem_singleton.mpr (hnode hpointer)
  | passes hpointer _ _ _ ih => exact List.forall_mem_cons.mpr ⟨hnode hpointer, ih⟩

/-- The answer of the pursuit is that of following references. -/
theorem dereference_eq (h : s.Pursuit root [] v looked answer) : s.dereference root v = answer := by
  have hle := length_le_of_pointers h.fresh.1 h.exists_node
  exact h.chainEnd_eq (by omega)

/-- Pointers that are looked up one after the other are the beginning of a pursuit. -/
theorem of_lookups (h : s.Lookups root v ps u) (hnodup : ps.Nodup) (hnew : ∀ p ∈ ps, p ∉ seen)
    (hrest : s.Pursuit root (ps.reverse ++ seen) u looked answer) : s.Pursuit root seen v (ps ++ looked) answer := by
  induction h generalizing seen with
  | nil => exact hrest
  | cons hpointer hresolve _ ih =>
    obtain ⟨hfirst, hnodup⟩ := List.nodup_cons.mp hnodup
    obtain ⟨hunseen, hnew⟩ := List.forall_mem_cons.mp hnew
    refine .passes hpointer hunseen hresolve (ih hnodup (fun q hq hmem => ?_) (by simpa using hrest))
    rcases List.mem_cons.mp hmem with rfl | hmem
    · exact hfirst hq
    · exact hnew q hq hmem

/-- A pursuit ends in one of three ways. -/
theorem outcome (h : s.Pursuit root seen v looked answer) :
    (∃ w, answer = .ok w ∧ s.Lookups root v looked w ∧ s.isReference w = false) ∨
    (∃ u r, answer = .error (.violation (.circular r)) ∧ s.Lookups root v looked u ∧
      s.field? u referenceKey = some (.text r) ∧ (r ∈ seen ∨ r ∈ looked)) ∨
    ∃ ps u q f, answer = .error f ∧ s.Lookups root v ps u ∧ s.field? u referenceKey = some (.text q) ∧
      s.resolve root q = .error f := by
  induction h with
  | arrives h => exact .inl ⟨_, rfl, .nil _, h⟩
  | returns hpointer hseen => exact .inr (.inl ⟨_, _, rfl, .nil _, hpointer, .inl hseen⟩)
  | fails hpointer _ hresolve => exact .inr (.inr ⟨[], _, _, _, rfl, .nil _, hpointer, hresolve⟩)
  | passes hpointer _ hresolve _ ih =>
    rcases ih with ⟨w, rfl, hlookups, hw⟩ | ⟨u, r, rfl, hlookups, hr, hmem⟩ | ⟨ps, u, q, f, rfl, hlookups, hq, hf⟩
    · exact .inl ⟨w, rfl, .cons hpointer hresolve hlookups, hw⟩
    · refine .inr (.inl ⟨u, r, rfl, .cons hpointer hresolve hlookups, hr, ?_⟩)
      simpa [or_assoc, or_left_comm] using hmem
    · exact .inr (.inr ⟨_, u, q, f, rfl, .cons hpointer hresolve hlookups, hq, hf⟩)

end Pursuit

/-! ## Every pursuit has an end -/

/-- What holds a tree with texts for pointers is no reference, or its pointer is a text. -/
theorem Holds.pointer_of_textReferences (h : s.Holds v t) (ht : t.TextReferences) : s.isReference v = false ∨
    ∃ p, s.field? v referenceKey = some (.text p) ∧ t.field? referenceKey = some (.text p) := by
  cases hfield : s.field? v referenceKey with
  | none => exact .inl (by rw [isReference_eq_isSome, hfield]; rfl)
  | some x =>
    right
    obtain ⟨id, values, hshape, hget⟩ := field?_eq_some.mp hfield
    obtain ⟨entries, rfl, hheld⟩ := h.object_of_shape hshape
    obtain ⟨y, hy, hholds⟩ := exists_tree_of_get? hheld hget
    obtain ⟨p, rfl⟩ := ht _ .refl y hy
    obtain rfl := holds_scalar.mp hholds
    exact ⟨p, rfl, hy⟩

/-- From a value of the document on, no more pointers are looked up than the document has that have not come up. -/
theorem exists_pursuit_inside (hroot : s.Holds root D) (hD : D.TextReferences) (seen : List String) (ht : t.Inside D)
    (hv : s.Holds v t) : ∃ looked answer, s.Pursuit root seen v looked answer ∧
      looked.length ≤ (D.pointers.toFinset \ seen.toFinset).card := by
  induction hcard : (D.pointers.toFinset \ seen.toFinset).card using Nat.strong_induction_on generalizing seen v t with
  | _ n ih =>
    rcases hv.pointer_of_textReferences (hD.of_inside ht) with hplain | ⟨p, hpointer, hp⟩
    · exact ⟨[], .ok v, .arrives hplain, Nat.zero_le n⟩
    by_cases hseen : p ∈ seen
    · exact ⟨[], _, .returns hpointer hseen, Nat.zero_le n⟩
    -- The measure is the set of the pointers that have not come up: looking `p` up takes it out of the set.
    have hleft : p ∈ D.pointers.toFinset \ seen.toFinset := by simpa using ⟨ht.mem_pointers hp, hseen⟩
    have hfewer : (D.pointers.toFinset \ (p :: seen).toFinset).card < n := by
      rw [List.toFinset_cons, Finset.sdiff_insert, ← hcard]
      exact Finset.card_erase_lt_of_mem hleft
    cases hresolve : s.resolve root p with
    | error f => exact ⟨[p], .error f, .fails hpointer hseen hresolve, Nat.one_le_of_lt hfewer⟩
    | ok u =>
      obtain ⟨t', ht', hu⟩ := hroot.exists_inside_of_resolve hresolve
      obtain ⟨looked, answer, hpursuit, hle⟩ := ih _ hfewer (p :: seen) ht' hu rfl
      exact ⟨p :: looked, answer, .passes hpointer hseen hresolve hpursuit, hle.trans_lt hfewer⟩

/-- From any other value on, there is one more. -/
theorem exists_pursuit (hroot : s.Holds root D) (hD : D.TextReferences) (hv : s.Holds v V) (hV : V.TextReferences) :
    ∃ looked answer, s.Pursuit root [] v looked answer ∧ looked.length ≤ D.pointers.toFinset.card + 1 := by
  rcases hv.pointer_of_textReferences hV with hplain | ⟨p, hpointer, -⟩
  · exact ⟨[], .ok v, .arrives hplain, Nat.zero_le _⟩
  cases hresolve : s.resolve root p with
  | error f => exact ⟨[p], .error f, .fails hpointer (List.not_mem_nil) hresolve, Nat.succ_le_succ (Nat.zero_le _)⟩
  | ok u =>
    obtain ⟨t, ht, hu⟩ := hroot.exists_inside_of_resolve hresolve
    obtain ⟨looked, answer, hpursuit, hle⟩ := exists_pursuit_inside hroot hD [p] ht hu
    have hle' : looked.length ≤ D.pointers.toFinset.card := hle.trans (Finset.card_le_card Finset.sdiff_subset)
    exact ⟨p :: looked, answer, .passes hpointer List.not_mem_nil hresolve hpursuit, Nat.succ_le_succ hle'⟩

/-- A pointer by itself goes round no circle. -/
theorem resolve_ne_circular : s.resolve root p ≠ .error (.violation (.circular r)) := by
  unfold resolve
  split
  · simp
  · split <;> simp

/-- **The pursuit of references ends.** It looks up one more pointer at most than there are different ones in the
document, and it has one of three answers. It answers the end of the lookups that is no reference if they come to one,
and that `r` is circular just if all lookups succeed and `r` is the first pointer to come up a second time. All other
answers are the fault with which the first lookup that does not succeed is refused. -/
theorem dereference_ends (hroot : s.Holds root D) (hD : D.TextReferences) (hv : s.Holds v V) (hV : V.TextReferences) :
    (∃ looked, s.Pursuit root [] v looked (s.dereference root v) ∧ looked.length ≤ D.pointers.toFinset.card + 1) ∧
    (∀ fuel, D.pointers.toFinset.card + 1 < fuel → s.chainEnd root fuel [] v = s.dereference root v) ∧
    (∀ w, s.dereference root v = .ok w ↔ ∃ ps, s.Lookups root v ps w ∧ s.isReference w = false) ∧
    (∀ r, s.dereference root v = .error (.violation (.circular r)) ↔ ∃ ps u, s.Lookups root v ps u ∧
      s.field? u referenceKey = some (.text r) ∧ ps.Nodup ∧ r ∈ ps) ∧
    ∀ f, (∀ r, f ≠ .violation (.circular r)) → (s.dereference root v = .error f ↔ ∃ ps u q, s.Lookups root v ps u ∧
      s.field? u referenceKey = some (.text q) ∧ s.resolve root q = .error f) := by
  obtain ⟨looked, answer, hpursuit, hle⟩ := exists_pursuit hroot hD hv hV
  have hanswer := hpursuit.dereference_eq
  obtain rfl := hanswer
  refine ⟨⟨looked, hpursuit, hle⟩, fun fuel hfuel => hpursuit.chainEnd_eq (hle.trans_lt hfuel),
    fun w => ⟨fun h => ?_, ?_⟩, fun r => ⟨fun h => ?_, ?_⟩, fun f hf => ⟨fun h => ?_, ?_⟩⟩
  · rcases hpursuit.outcome with ⟨w', h', hlookups, hw⟩ | ⟨u, r, h', -⟩ | ⟨ps, u, q, f, h', -⟩ <;> rw [h] at h'
    · obtain rfl := Except.ok.inj h'
      exact ⟨looked, hlookups, hw⟩
    · cases h'
    · cases h'
  · rintro ⟨ps, hlookups, hw⟩
    have hnodup := hlookups.nodup (final_of_not_isReference hw)
    exact (Pursuit.of_lookups hlookups hnodup (by simp) (.arrives hw)).dereference_eq
  · rcases hpursuit.outcome with ⟨w, h', -⟩ | ⟨u, r', h', hlookups, hr, hmem⟩ | ⟨ps, u, q, f, h', -, -, hresolve⟩ <;>
      rw [h] at h'
    · cases h'
    · obtain rfl : r = r' := by simpa using h'
      exact ⟨looked, u, hlookups, hr, hpursuit.fresh.1, by simpa using hmem⟩
    · exact absurd (Except.error.inj h' ▸ hresolve) resolve_ne_circular
  · rintro ⟨ps, u, hlookups, hr, hnodup, hmem⟩
    exact (Pursuit.of_lookups hlookups hnodup (by simp) (.returns hr (by simpa using hmem))).dereference_eq
  · rcases hpursuit.outcome with ⟨w, h', -⟩ | ⟨u, r, h', -⟩ | ⟨ps, u, q, f', h', hlookups, hq, hresolve⟩ <;>
      rw [h] at h'
    · cases h'
    · exact absurd (Except.error.inj h') (hf r)
    · obtain rfl := Except.error.inj h'
      exact ⟨ps, u, q, hlookups, hq, hresolve⟩
  · rintro ⟨ps, u, q, hlookups, hq, hresolve⟩
    have hnodup := hlookups.nodup (final_of_resolve hq hresolve)
    have hnew : q ∉ ps := by
      intro hmem
      obtain ⟨w, hw⟩ := hlookups.exists_resolve hmem
      rw [hresolve] at hw
      cases hw
    exact (Pursuit.of_lookups hlookups hnodup (by simp) (.fails hq (by simpa using hnew) hresolve)).dereference_eq

/-- Two references that refer to each other. -/
def entwined : Tree :=
  .ofFields [("left", .ofFields [(referenceKey, .text "#/right")]), ("right", .ofFields [(referenceKey, .text "#/left")])]

theorem dereference_ends_entwined :
    let start := Store.empty.load entwined
    let outside := start.2.load (.ofFields [(referenceKey, .text "#/right")])
    entwined.TextReferences ∧ outside.2.Holds start.1 entwined ∧
      outside.2.dereference start.1 outside.1 = .error (.violation (.circular "#/right")) := by
  intro start outside
  have hroot : outside.2.Holds start.1 entwined := (holds_load (by decide) _).extend (houses_load (by decide) _).toGrows
  have hv : outside.2.Holds outside.1 (.ofFields [(referenceKey, .text "#/right")]) := holds_load (by decide) _
  have hright : outside.2.resolve start.1 "#/right" = .ok (.node 1) :=
    resolve_eq_ok_iff_path.mpr ⟨["right"], _, by decide, .cons (.key "right") .nil, rfl, rfl⟩
  have hleft : outside.2.resolve start.1 "#/left" = .ok (.node 0) :=
    resolve_eq_ok_iff_path.mpr ⟨["left"], _, by decide, .cons (.key "left") .nil, rfl, rfl⟩
  have hlookups : outside.2.Lookups start.1 outside.1 ["#/right", "#/left"] (.node 0) :=
    .cons rfl hright (.cons rfl hleft (.nil _))
  have htexts : entwined.TextReferences := by
    simp [entwined, Tree.ofFields, referenceKey, Entries.get?]
  have houtside : (Tree.ofFields [(referenceKey, .text "#/right")]).TextReferences := by
    simp [Tree.ofFields, referenceKey, Entries.get?]
  obtain ⟨-, -, -, hcircular, -⟩ := dereference_ends hroot htexts hv houtside
  exact ⟨htexts, hroot, (hcircular "#/right").mpr ⟨_, _, hlookups, rfl, by decide, by decide⟩⟩

end Store

end DeviceApi
