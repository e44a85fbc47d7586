import DeviceApi.Proofs.Api.Spelling
import DeviceApi.Proofs.Document.Contained
import Mathlib.Data.Nat.Digits.Defs

/-!
# What pointers lead to

A pointer leads to a value of the document that is not nothing, or it is refused as a foreign or as an unresolvable
one. Which of these it is can be told from the tree of the document and from the steps of the pointer. There is one
way to break off beside them: a step into a list that is made of digits, but is no numeral.
-/

namespace DeviceApi

namespace Pointer

variable {step : String} {i : Nat} {m : Misfit}

/-- The step is the numeral of an index: decimal digits of any script, and not too many of them. -/
structure Numeral (step : String) (i : Nat) : Prop where
  nonempty : step.toList ≠ []
  length_le : step.toList.length ≤ maxIndexDigits
  digits : ∃ digits, List.Forall₂ (fun c d => Text.decimalValue? c = some d) step.toList digits ∧
    i = Nat.ofDigits 10 digits.reverse

/-- The step is made of digits, but of too many for a numeral, or one of them cannot stand in a numeral. -/
structure Unreadable (step : String) : Prop where
  nonempty : step.toList ≠ []
  isDigit : ∀ c ∈ step.toList, Text.isDigit c = true
  unfit : maxIndexDigits < step.toList.length ∨ ∃ c ∈ step.toList, Text.decimalValue? c = none

theorem isDigit_of_decimalValue? {c : Char} {d : Nat} (h : Text.decimalValue? c = some d) : Text.isDigit c = true := by
  obtain ⟨range, hrange, -⟩ := Option.map_eq_some_iff.mp h
  have hin := List.find?_some hrange
  rw [Text.isDigit, Bool.or_eq_true]
  exact .inl (List.any_eq_true.mpr ⟨range, List.mem_of_find?_eq_some hrange, hin⟩)

theorem mapM_decimalValue?_eq_some {cs : List Char} {digits : List Nat} :
    cs.mapM Text.decimalValue? = some digits ↔ List.Forall₂ (fun c d => Text.decimalValue? c = some d) cs digits := by
  induction cs generalizing digits with
  | nil => simp [eq_comm]
  | cons c cs ih =>
    simp only [List.mapM_cons, Option.bind_eq_bind, Option.bind_eq_some_iff, Option.pure_def, Option.some.injEq,
      List.forall₂_cons_left_iff, ih]
    constructor
    · rintro ⟨d, hd, digits, hdigits, rfl⟩
      exact ⟨d, digits, hd, hdigits, rfl⟩
    · rintro ⟨d, digits, hd, hdigits, rfl⟩
      exact ⟨d, hd, digits, hdigits, rfl⟩

theorem foldl_eq_ofDigits (digits : List Nat) :
    digits.foldl (fun n d => 10 * n + d) 0 = Nat.ofDigits 10 digits.reverse := by
  induction digits using List.reverseRecOn with
  | nil => rfl
  | append_singleton digits d ih =>
    rw [List.foldl_append, ih, List.reverse_append, List.reverse_singleton, List.singleton_append, Nat.ofDigits_cons]
    simp [Nat.add_comm]

theorem exists_mapM_decimalValue? {cs : List Char} (h : ∀ c ∈ cs, Text.decimalValue? c ≠ none) :
    ∃ digits, cs.mapM Text.decimalValue? = some digits := by
  choose! value hvalue using fun c hc => Option.ne_none_iff_exists'.mp (h c hc)
  exact ⟨cs.map value, mapM_decimalValue?_eq_some.mpr
    (List.forall₂_map_right_iff.mpr (List.forall₂_same.mpr hvalue))⟩

/-- What is taken for an index is made of digits. -/
theorem index?_of_digits (hne : step.toList ≠ []) (h : ∀ c ∈ step.toList, Text.isDigit c = true) :
    index? step = some (if maxIndexDigits < step.toList.length then .error .badContent
      else match step.toList.mapM Text.decimalValue? with
        | some digits => .ok (digits.foldl (fun n d => 10 * n + d) 0)
        | none => .error .badContent) := by
  have hall : step.toList.all Text.isDigit = true := List.all_eq_true.mpr h
  unfold index?
  dsimp only
  rw [if_neg (by simp [hne, hall])]
  split
  · rfl
  · cases step.toList.mapM Text.decimalValue? <;> rfl

theorem digits_of_index? {answer : Except Misfit Nat} (h : index? step = some answer) :
    step.toList ≠ [] ∧ ∀ c ∈ step.toList, Text.isDigit c = true := by
  unfold index? at h
  dsimp only at h
  split at h
  · cases h
  · next hnot => simpa using hnot

/-- The numerals are read as indices. -/
theorem index?_eq_ok : index? step = some (.ok i) ↔ Numeral step i := by
  constructor
  · intro h
    obtain ⟨hne, hall⟩ := digits_of_index? h
    rw [index?_of_digits hne hall, Option.some.injEq] at h
    split at h
    · cases h
    · next hshort =>
      split at h
      · next digits hdigits =>
        refine ⟨hne, not_lt.mp hshort, digits, mapM_decimalValue?_eq_some.mp hdigits, ?_⟩
        rw [← foldl_eq_ofDigits]
        exact (Except.ok.inj h).symm
      · cases h
  · rintro ⟨hne, hlength, digits, hdigits, rfl⟩
    have hall : ∀ c ∈ step.toList, Text.isDigit c = true := fun c hc =>
      (exists_mem_of_forall₂ hdigits hc).elim fun d hd => isDigit_of_decimalValue? hd.2
    rw [index?_of_digits hne hall, if_neg (not_lt.mpr hlength), mapM_decimalValue?_eq_some.mpr hdigits,
      ← foldl_eq_ofDigits]

/-- Digits that are no numeral are refused. -/
theorem index?_eq_error : index? step = some (.error m) ↔ m = .badContent ∧ Unreadable step := by
  constructor
  · intro h
    obtain ⟨hne, hall⟩ := digits_of_index? h
    rw [index?_of_digits hne hall, Option.some.injEq] at h
    split at h
    · next hlong => exact ⟨(Except.error.inj h).symm, hne, hall, .inl hlong⟩
    · split at h
      · cases h
      · next hnone =>
        refine ⟨(Except.error.inj h).symm, hne, hall, .inr ?_⟩
        by_contra hvalues
        obtain ⟨digits, hdigits⟩ := exists_mapM_decimalValue? fun c hc hvalue => hvalues ⟨c, hc, hvalue⟩
        rw [hnone] at hdigits
        cases hdigits
  · rintro ⟨rfl, hne, hall, hunfit⟩
    rw [index?_of_digits hne hall]
    split
    · rfl
    · next hshort =>
      obtain ⟨c, hc, hvalue⟩ := hunfit.resolve_left hshort
      split
      · next digits hdigits =>
        obtain ⟨d, -, hd⟩ := exists_mem_of_forall₂ (mapM_decimalValue?_eq_some.mp hdigits) hc
        rw [hvalue] at hd
        cases hd
      · rfl

theorem splitAtChar_ne_nil (separator : Char) (cs : List Char) : Text.splitAtChar separator cs ≠ [] := by
  cases cs with
  | nil => simp [Text.splitAtChar]
  | cons c rest =>
    rw [Text.splitAtChar]
    split
    · simp
    · split <;> simp

theorem ne_nil_of_steps? {pointer : String} {steps : List String} (h : steps? pointer = some steps) : steps ≠ [] := by
  unfold steps? at h
  split at h
  · obtain rfl := Option.some.inj h
    simpa using splitAtChar_ne_nil '/' _
  · cases h

theorem steps?_eq_none {pointer : String} : steps? pointer = none ↔ ¬ ['#', '/'] <+: pointer.toList := by
  unfold steps?
  split
  · next rest heq => simp [heq]
  · next hnot =>
    simp only [true_iff]
    rintro ⟨rest, heq⟩
    exact hnot rest heq.symm

end Pointer

/-! ## Steps and the places that they lead to -/

/-- A step of a pointer stands for a step into an object, or for a step into a list if it is a numeral. -/
inductive PathStep.Reads : PathStep → String → Prop
  | key (name : String) : Reads (.key name) name
  | index {name : String} {i : Nat} (h : Pointer.Numeral name i) : Reads (.index i) name

namespace Tree

variable {t u : Tree} {path : List PathStep}

theorem inside_of_child? {step : PathStep} (h : t.child? step = some u) : u.Inside t := by
  cases t with
  | object entries =>
    cases step with
    | key name => exact .entry (Entries.mem_of_get? h) .refl
    | index i => cases h
  | list items =>
    cases step with
    | key name => cases h
    | index i => exact .item (List.mem_of_getElem? h) .refl
  | _ => cases step <;> cases h

/-- What stands at a place of a tree is inside of it. -/
theorem inside_of_at? (h : t.at? path = some u) : u.Inside t := by
  induction path generalizing t with
  | nil =>
    obtain rfl := Option.some.inj h
    exact .refl
  | cons step rest ih =>
    obtain ⟨t', hstep, hrest⟩ := Option.bind_eq_some_iff.mp h
    exact (ih hrest).trans (inside_of_child? hstep)

end Tree

namespace Store

variable {s : Store} {root v w : Value} {t u D : Tree} {name pointer : String} {names : List String} {m : Misfit}
  {step : PathStep} {path : List PathStep}

/-! ## Steps in a store -/

theorem items?_eq_some {items : List Value} : s.items? v = some items ↔ ∃ id, s.shape v = .list id items := by
  unfold items?
  split
  · next id items' hshape => simp [hshape]
  · next hnot => simpa using fun id hshape => hnot id items hshape

/-- A step leads to what a step into an object or into a list leads to that it stands for. -/
theorem step_eq_some : s.step v name = .ok (some w) ↔ ∃ step, step.Reads name ∧ s.child? v step = some w := by
  constructor
  · intro h
    unfold Store.step at h
    split at h
    · next id items hshape =>
      split at h
      · cases h
      · next i hindex =>
        refine ⟨.index i, .index (Pointer.index?_eq_ok.mp hindex), ?_⟩
        rw [child?, items?_eq_some.mpr ⟨id, hshape⟩]
        exact Except.ok.inj h
      · cases h
    · next id entries hshape =>
      exact ⟨.key name, .key name, field?_eq_some.mpr ⟨id, entries, hshape, Except.ok.inj h⟩⟩
    · cases h
  · rintro ⟨step, hreads, hchild⟩
    cases hreads with
    | key =>
      obtain ⟨id, entries, hshape, hget⟩ := field?_eq_some.mp hchild
      rw [Store.step, hshape]
      exact congrArg Except.ok hget
    | index hnumeral =>
      obtain ⟨items, hitems, hget⟩ := Option.bind_eq_some_iff.mp hchild
      obtain ⟨id, hshape⟩ := items?_eq_some.mp hitems
      rw [Store.step, hshape]
      dsimp only
      rw [Pointer.index?_eq_ok.mpr hnumeral]
      exact congrArg Except.ok hget

/-- Only digits that are no numeral cannot be taken for a step, and only where there is a list. -/
theorem step_eq_error : s.step v name = .error m ↔
    m = .badContent ∧ Pointer.Unreadable name ∧ ∃ items, s.items? v = some items := by
  constructor
  · intro h
    unfold Store.step at h
    split at h
    · next id items hshape =>
      split at h
      · cases h
      · cases h
      · next hindex =>
        obtain ⟨hm, hunreadable⟩ := Pointer.index?_eq_error.mp (Except.error.inj h ▸ hindex)
        exact ⟨hm, hunreadable, items, items?_eq_some.mpr ⟨id, hshape⟩⟩
    · cases h
    · cases h
  · rintro ⟨rfl, hunreadable, items, hitems⟩
    obtain ⟨id, hshape⟩ := items?_eq_some.mp hitems
    rw [Store.step, hshape]
    dsimp only
    rw [Pointer.index?_eq_error.mpr ⟨rfl, hunreadable⟩]

theorem isNull_of_items? {items : List Value} (h : s.items? v = some items) : s.isNull v = false := by
  obtain ⟨id, hshape⟩ := items?_eq_some.mp h
  simp [isNull, hshape]

/-- Steps lead to what is at the end of a path that they stand for, unless that is nothing. -/
theorem follow_eq_some : s.follow v names = .ok (some w) ↔ ∃ path, List.Forall₂ PathStep.Reads path names ∧
    s.at? v path = some w ∧ (names ≠ [] → s.isNull w = false) := by
  induction names generalizing v with
  | nil => simp [follow, at?]
  | cons name rest ih =>
    rw [follow_cons]
    constructor
    · rintro ⟨u, hstep, hu, hfollow⟩
      obtain ⟨step, hreads, hchild⟩ := step_eq_some.mp hstep
      obtain ⟨path, hpath, hat, hnull⟩ := ih.mp hfollow
      refine ⟨step :: path, .cons hreads hpath, Option.bind_eq_some_iff.mpr ⟨u, hchild, hat⟩, fun _ => ?_⟩
      cases rest with
      | nil =>
        obtain rfl := List.forall₂_nil_right_iff.mp hpath
        obtain rfl := Option.some.inj hat
        exact hu
      | cons => exact hnull (List.cons_ne_nil _ _)
    · rintro ⟨path, hpath, hat, hnull⟩
      obtain ⟨step, later, hreads, hlater, rfl⟩ := List.forall₂_cons_right_iff.mp hpath
      obtain ⟨u, hchild, hend⟩ := Option.bind_eq_some_iff.mp hat
      have hu : s.isNull u = false := by
        cases later with
        | nil => exact Option.some.inj hend ▸ hnull (List.cons_ne_nil _ _)
        | cons next later =>
          obtain ⟨_, hnext, -⟩ := Option.bind_eq_some_iff.mp hend
          exact isNull_of_child? hnext
      have hfollow := ih.mpr ⟨later, hlater, hend, fun _ => hnull (List.cons_ne_nil _ _)⟩
      exact ⟨u, step_eq_some.mpr ⟨step, hreads, hchild⟩, hu, hfollow⟩

/-- Steps break off where they have come to a list, at one that is made of digits and is no numeral. -/
theorem follow_eq_error : s.follow v names = .error m ↔ m = .badContent ∧ ∃ before name rest path u items,
    names = before ++ name :: rest ∧ List.Forall₂ PathStep.Reads path before ∧ s.at? v path = some u ∧
      s.items? u = some items ∧ Pointer.Unreadable name := by
  induction names generalizing v with
  | nil => simp [follow]
  | cons name rest ih =>
    rw [follow]
    constructor
    · intro h
      split at h
      · next hstep =>
        obtain ⟨hm, hunreadable, items, hitems⟩ := step_eq_error.mp (Except.error.inj h ▸ hstep)
        exact ⟨hm, [], name, rest, [], v, items, rfl, .nil, rfl, hitems, hunreadable⟩
      · cases h
      · next w hstep =>
        obtain ⟨step, hreads, hchild⟩ := step_eq_some.mp hstep
        split at h
        · cases h
        · obtain ⟨hm, before, name', rest', path, u, items, rfl, hpath, hat, hitems, hunreadable⟩ := ih.mp h
          exact ⟨hm, name :: before, name', rest', step :: path, u, items, rfl, .cons hreads hpath,
            Option.bind_eq_some_iff.mpr ⟨w, hchild, hat⟩, hitems, hunreadable⟩
    · rintro ⟨rfl, before, name', rest', path, u, items, heq, hpath, hat, hitems, hunreadable⟩
      cases hpath with
      | nil =>
        obtain ⟨rfl, rfl⟩ := List.cons.inj heq
        obtain rfl := Option.some.inj hat
        rw [step_eq_error.mpr ⟨rfl, hunreadable, items, hitems⟩]
      | @cons step _ path before hreads hpath =>
        obtain ⟨rfl, rfl⟩ := List.cons.inj heq
        obtain ⟨w, hchild, hend⟩ := Option.bind_eq_some_iff.mp hat
        have hw : s.isNull w = false := by
          cases path with
          | nil => exact Option.some.inj hend ▸ isNull_of_items? hitems
          | cons next path =>
            obtain ⟨_, hnext, -⟩ := Option.bind_eq_some_iff.mp hend
            exact isNull_of_child? hnext
        rw [step_eq_some.mpr ⟨step, hreads, hchild⟩]
        dsimp only
        rw [if_neg (by simp [hw])]
        exact ih.mpr ⟨rfl, before, name', rest', path, u, items, rfl, hpath, hend, hitems, hunreadable⟩

/-! ## Steps in a tree -/

/-- A store has values at no other places than those at which there are trees. -/
theorem Holds.exists_tree_of_child? (h : s.Holds v t) (hw : s.child? v step = some w) :
    ∃ u, t.child? step = some u ∧ s.Holds w u := by
  cases step with
  | key name =>
    obtain ⟨id, entries, hshape, hget⟩ := field?_eq_some.mp hw
    obtain ⟨trees, rfl, hheld⟩ := h.object_of_shape hshape
    exact exists_tree_of_get? hheld hget
  | index i =>
    obtain ⟨items, hitems, hget⟩ := Option.bind_eq_some_iff.mp hw
    obtain ⟨id, hshape⟩ := items?_eq_some.mp hitems
    obtain ⟨rfl, hcell⟩ := shape_eq_list.mp hshape
    obtain ⟨trees, rfl, hheld⟩ := h.list_of_cell hcell
    obtain ⟨hi, rfl⟩ := List.getElem?_eq_some_iff.mp hget
    have hi' : i < trees.length := hheld.length_eq ▸ hi
    exact ⟨trees[i], List.getElem?_eq_getElem hi', hheld.get hi hi'⟩

theorem Holds.exists_tree_of_at? (h : s.Holds v t) (hw : s.at? v path = some w) : ∃ u, t.at? path = some u ∧ s.Holds w u := by
  induction path generalizing v t with
  | nil =>
    obtain rfl := Option.some.inj hw
    exact ⟨t, rfl, h⟩
  | cons step rest ih =>
    obtain ⟨v', hstep, hrest⟩ := Option.bind_eq_some_iff.mp hw
    obtain ⟨t', ht', hheld⟩ := h.exists_tree_of_child? hstep
    obtain ⟨u, hu, hholds⟩ := ih hheld hrest
    exact ⟨u, Option.bind_eq_some_iff.mpr ⟨t', ht', hu⟩, hholds⟩

/-! ## Pointers -/

/-- A pointer leads to what is at the end of the path that its steps stand for. -/
theorem resolve_eq_ok_iff_path : s.resolve root pointer = .ok w ↔ ∃ names path, Pointer.steps? pointer = some names ∧
    List.Forall₂ PathStep.Reads path names ∧ s.at? root path = some w ∧ s.isNull w = false := by
  rw [resolve_eq_ok]
  refine exists_congr fun names => ?_
  rw [exists_and_left]
  refine and_congr_right fun hsteps => ?_
  have hne := Pointer.ne_nil_of_steps? hsteps
  simp only [follow_eq_some, ne_eq, hne, not_false_eq_true, forall_const]

/-- What a pointer leads to stands in the document. -/
theorem Holds.exists_inside_of_resolve (h : s.Holds root D) (hw : s.resolve root pointer = .ok w) :
    ∃ t, t.Inside D ∧ s.Holds w t := by
  obtain ⟨names, path, -, -, hat, -⟩ := resolve_eq_ok_iff_path.mp hw
  obtain ⟨t, ht, hheld⟩ := h.exists_tree_of_at? hat
  exact ⟨t, Tree.inside_of_at? ht, hheld⟩

end Store

/-- The steps of a pointer come to a list of the document with one that is made of digits and is no numeral. -/
def Tree.BreaksOff (D : Tree) (pointer : String) : Prop :=
  ∃ before name rest path items, Pointer.steps? pointer = some (before ++ name :: rest) ∧
    List.Forall₂ PathStep.Reads path before ∧ D.at? path = some (.list items) ∧ Pointer.Unreadable name

namespace Store

variable {s : Store} {root : Value} {D : Tree} {pointer : String} {m : Misfit}

theorem resolve_eq_misfit (hroot : s.Holds root D) :
    s.resolve root pointer = .error (.misfit m) ↔ m = .badContent ∧ D.BreaksOff pointer := by
  unfold resolve Tree.BreaksOff
  cases hsteps : Pointer.steps? pointer with
  | none => simp
  | some names =>
    have hfollow : s.follow root names = .error m ↔ m = .badContent ∧ ∃ before name rest path items,
        some names = some (before ++ name :: rest) ∧ List.Forall₂ PathStep.Reads path before ∧
          D.at? path = some (.list items) ∧ Pointer.Unreadable name := by
      rw [follow_eq_error]
      refine and_congr_right fun _ => ⟨?_, ?_⟩
      · rintro ⟨before, name, rest, path, u, items, rfl, hpath, hat, hitems, hunreadable⟩
        obtain ⟨t, ht, hheld⟩ := hroot.exists_tree_of_at? hat
        obtain ⟨id, hshape⟩ := items?_eq_some.mp hitems
        obtain ⟨rfl, hcell⟩ := shape_eq_list.mp hshape
        obtain ⟨trees, rfl, -⟩ := hheld.list_of_cell hcell
        exact ⟨before, name, rest, path, trees, rfl, hpath, ht, hunreadable⟩
      · rintro ⟨before, name, rest, path, trees, heq, hpath, ht, hunreadable⟩
        obtain ⟨u, hat, hheld⟩ := hroot.exists_at? ht
        obtain ⟨id, values, rfl, hcell, -⟩ := holds_list.mp hheld
        exact ⟨before, name, rest, path, .node id, values, Option.some.inj heq, hpath, hat,
          items?_eq_some.mpr ⟨id, shape_eq_list.mpr ⟨rfl, hcell⟩⟩, hunreadable⟩
    rw [← hfollow]
    dsimp only
    cases s.follow root names with
    | error n => simp
    | ok found => cases found <;> simp

/-- **What pointers lead to.** A pointer leads to a value just if its steps stand for a path of the document to something
that is not nothing, and then it leads to the value at the end of that path. Every other pointer is refused, as a foreign
one if it does not begin as those into the same document do, and as an unresolvable one if it does. The exception are the
pointers that come to a list with digits that are no numeral. -/
theorem resolve_outcomes (hroot : s.Holds root D) (pointer : String) :
    (∀ w, s.resolve root pointer = .ok w ↔ ∃ names path t, Pointer.steps? pointer = some names ∧
      List.Forall₂ PathStep.Reads path names ∧ D.at? path = some t ∧ t.isNull = false ∧
      s.at? root path = some w ∧ s.Holds w t) ∧
    (D.BreaksOff pointer → s.resolve root pointer = .error (.misfit .badContent)) ∧
    (¬ D.BreaksOff pointer → (∃ w, s.resolve root pointer = .ok w) ∨ s.resolve root pointer = .error (.violation
      (if ['#', '/'] <+: pointer.toList then .unresolvable pointer else .foreignReference pointer))) := by
  refine ⟨fun w => ?_, fun hbreaks => (resolve_eq_misfit hroot).mpr ⟨rfl, hbreaks⟩, fun hnot => ?_⟩
  · rw [resolve_eq_ok_iff_path]
    constructor
    · rintro ⟨names, path, hsteps, hpath, hat, hnull⟩
      obtain ⟨t, ht, hheld⟩ := hroot.exists_tree_of_at? hat
      exact ⟨names, path, t, hsteps, hpath, ht, hheld.isNull_eq ▸ hnull, hat, hheld⟩
    · rintro ⟨names, path, t, hsteps, hpath, -, hnull, hat, hheld⟩
      exact ⟨names, path, hsteps, hpath, hat, hheld.isNull_eq.trans hnull⟩
  · cases hanswer : s.resolve root pointer with
    | ok w => exact .inl ⟨w, rfl⟩
    | error f =>
      refine .inr (congrArg Except.error ?_)
      unfold resolve at hanswer
      split at hanswer
      · next hnone =>
        rw [if_neg (Pointer.steps?_eq_none.mp hnone)]
        exact (Except.error.inj hanswer).symm
      · next names hsteps =>
        have hlocal : ['#', '/'] <+: pointer.toList := by
          by_contra hforeign
          rw [Pointer.steps?_eq_none.mpr hforeign] at hsteps
          cases hsteps
        rw [if_pos hlocal]
        split at hanswer
        · cases hanswer
        · exact (Except.error.inj hanswer).symm
        · next m hfollow =>
          have hmisfit : s.resolve root pointer = .error (.misfit m) := by
            unfold resolve
            rw [hsteps]
            dsimp only
            rw [hfollow]
          exact absurd ((resolve_eq_misfit hroot).mp hmisfit).2 hnot

/-- A document with a list. -/
def listed : Tree := .ofFields [("list", .list [.int 1, .text "two"])]

theorem breaksOff_listed : listed.BreaksOff "#/list/\u00b2" := by
  have hdigit : ∀ c ∈ "\u00b2".toList, Text.isDigit c = true := by
    intro c hc
    obtain rfl : c = '\u00b2' := by simpa using hc
    decide
  have hunreadable : Pointer.Unreadable "\u00b2" := ⟨by decide, hdigit, .inr ⟨'\u00b2', by decide, by decide⟩⟩
  exact ⟨["list"], "\u00b2", [], [.key "list"], _, rfl, .cons (.key "list") .nil, rfl, hunreadable⟩

theorem resolve_outcomes_listed :
    let start := Store.empty.load listed
    start.2.Holds start.1 listed ∧ (∃ w, start.2.resolve start.1 "#/list/%31" = .ok w ∧ start.2.Holds w (.text "two")) ∧
      start.2.resolve start.1 "#/list/\u00b2" = .error (.misfit .badContent) := by
  intro start
  have hroot : start.2.Holds start.1 listed := holds_load (by decide) _
  have hnumeral : Pointer.Numeral "1" 1 := ⟨by decide, by decide, [1], .cons (by decide) .nil, rfl⟩
  obtain ⟨hleads, -⟩ := resolve_outcomes hroot "#/list/%31"
  obtain ⟨-, hbreaks, -⟩ := resolve_outcomes hroot "#/list/\u00b2"
  obtain ⟨w, hat, hheld⟩ : ∃ w, start.2.at? start.1 [.key "list", .index 1] = some w ∧ start.2.Holds w (.text "two") :=
    hroot.exists_at? rfl
  refine ⟨hroot, ⟨w, (hleads w).mpr ⟨["list", "1"], _, .text "two", by decide,
    .cons (.key "list") (.cons (.index hnumeral) .nil), rfl, rfl, hat, hheld⟩, hheld⟩, hbreaks breaksOff_listed⟩

/-- So not every pointer that leads nowhere is refused for that. -/
theorem resolve_breaks_off : ¬ ∀ (D : Tree) (pointer : String), D.IsJson →
    let start := Store.empty.load D
    (∃ w, start.2.resolve start.1 pointer = .ok w ∧ start.2.isNull w = false) ∨
      ∃ v : Violation, start.2.resolve start.1 pointer = .error (.violation v) := by
  intro h
  have hbreaks : (Store.empty.load listed).2.resolve (Store.empty.load listed).1 "#/list/\u00b2" =
      .error (.misfit .badContent) := (resolve_eq_misfit (holds_load (by decide) _)).mpr ⟨rfl, breaksOff_listed⟩
  rcases h listed "#/list/\u00b2" (by decide) with ⟨w, hw, -⟩ | ⟨v, hv⟩
  · rw [hbreaks] at hw
    cases hw
  · rw [hbreaks] at hv
    cases hv

end Store

end DeviceApi
