import DeviceApi.Proofs.Document.Gates
import DeviceApi.Schema.Table

/-!
# Where pointers lead

A pointer into a document leads somewhere if its steps do. Steps from a value depend on the nodes
below the value only, so they lead to the same value as long as these stay.
-/

namespace DeviceApi

namespace Text

/-- Splitting a text gives at least one piece. -/
theorem exists_splitAtChar (separator : Char) (cs : List Char) :
    ∃ piece more, splitAtChar separator cs = piece :: more := by
  induction cs with
  | nil => exact ⟨[], [], rfl⟩
  | cons c rest ih =>
    obtain ⟨piece, more, h⟩ := ih
    rw [splitAtChar, h]
    dsimp only
    split
    · exact ⟨_, _, rfl⟩
    · exact ⟨_, _, rfl⟩

/-- The separator after a piece without one ends the piece. -/
theorem splitAtChar_append {separator : Char} {cs rest : List Char} (h : separator ∉ cs) :
    splitAtChar separator (cs ++ separator :: rest) = cs :: splitAtChar separator rest := by
  induction cs with
  | nil =>
    obtain ⟨piece, more, hrest⟩ := exists_splitAtChar separator rest
    rw [List.nil_append, splitAtChar, hrest]
    simp
  | cons c cs ih =>
    simp only [List.mem_cons, not_or] at h
    rw [List.cons_append, splitAtChar, ih h.2]
    simp [Ne.symm h.1]

end Text

/-- The steps of a pointer to a named schema. -/
theorem Pointer.steps?_pointerTo (name : String) : Pointer.steps? (pointerTo name) =
    some ("components" :: "schemas" :: (Text.splitAtChar '/' name.toList).map Pointer.decodeStep) := by
  have hlist : (pointerTo name).toList =
      '#' :: '/' :: ("components".toList ++ '/' :: ("schemas".toList ++ '/' :: name.toList)) := by
    rw [pointerTo, schemaPointerStart, String.toList_append]
    rfl
  unfold Pointer.steps?
  rw [hlist]
  simp only
  rw [Text.splitAtChar_append (by decide), Text.splitAtChar_append (by decide), List.map_cons,
    List.map_cons]
  rfl

namespace Tree

/-- The tree one step below another. -/
def step? (t : Tree) (name : String) : Option Tree :=
  match t with
  | .list items =>
    match Pointer.index? name with
    | some (.ok i) => items[i]?
    | _ => none
  | .object entries => Entries.get? name entries
  | _ => none

/-- Whether a tree is nothing. -/
def isNull : Tree → Bool
  | .scalar .null => true
  | _ => false

/-- Whether steps lead to something in a tree. -/
def leads : Tree → List String → Bool
  | _, [] => true
  | t, name :: rest =>
    match t.step? name with
    | none => false
    | some u => !u.isNull && u.leads rest

end Tree

namespace Store

variable {s s' : Store} {v w : Value} {t : Tree} {name : String} {steps : List String} {i id : Nat}
  {entries : Entries Value}

/-- The steps lead from the value to another one. -/
def Leads (s : Store) (v : Value) (steps : List String) : Prop :=
  ∃ w, s.follow v steps = .ok (some w)

@[simp] theorem leads_nil : s.Leads v [] := ⟨v, rfl⟩

theorem leads_cons : s.Leads v (name :: steps) ↔
    ∃ w, s.step v name = .ok (some w) ∧ s.isNull w = false ∧ s.Leads w steps := by
  unfold Leads
  rw [follow]
  split
  · simp [*]
  · simp [*]
  · next w hstep => cases hnull : s.isNull w <;> simp [hstep, hnull]

/-- A pointer leads somewhere if its steps do. -/
theorem exists_resolve_iff {root : Value} {pointer : String} :
    (∃ w, s.resolve root pointer = .ok w) ↔
      ∃ steps, Pointer.steps? pointer = some steps ∧ s.Leads root steps := by
  unfold resolve Leads
  split
  · next hsteps => simp [hsteps]
  · next steps hsteps =>
    split
    · next w hfollow => simp [hsteps, hfollow]
    · next hfollow => simp [hsteps, hfollow]
    · next m hfollow => simp [hsteps, hfollow]

theorem step_object (hcell : s.cells[id]? = some (.object entries)) :
    s.step (.node id) name = .ok (entries.get? name) := by
  rw [step, shape_node hcell]

theorem leads_object (hcell : s.cells[id]? = some (.object entries)) :
    s.Leads (.node id) (name :: steps) ↔
      ∃ w, entries.get? name = some w ∧ s.isNull w = false ∧ s.Leads w steps := by
  rw [leads_cons, step_object hcell]
  simp

theorem isNull_node {cell : Cell} (hcell : s.cells[id]? = some cell) : s.isNull (.node id) = false := by
  unfold isNull shape
  cases cell <;> simp [hcell]

theorem isNull_eq_of_shape_eq (h : s'.shape v = s.shape v) : s'.isNull v = s.isNull v := by
  rw [isNull, isNull, h]

/-! ## Trees -/

theorem Holds.isNull_eq (h : s.Holds v t) : s.isNull v = t.isNull := by
  cases t with
  | scalar a =>
    obtain rfl := holds_scalar.mp h
    cases a <;> rfl
  | enclosing isObject => simp at h
  | list items =>
    obtain ⟨id, values, rfl, hcell, -⟩ := holds_list.mp h
    exact isNull_node hcell
  | pair key value =>
    obtain ⟨id, k, w, rfl, hcell, -⟩ := holds_pair.mp h
    exact isNull_node hcell
  | set members =>
    obtain ⟨id, rfl, hcell⟩ := holds_set.mp h
    exact isNull_node hcell
  | object entries =>
    obtain ⟨id, values, rfl, hcell, -⟩ := holds_object.mp h
    exact isNull_node hcell

/-- A step from a value leads to a value just where it leads to a tree. -/
theorem Holds.step_cases (h : s.Holds v t) (name : String) :
    ((∀ w, s.step v name ≠ .ok (some w)) ∧ t.step? name = none) ∨
      ∃ w u, s.step v name = .ok (some w) ∧ t.step? name = some u ∧ s.Holds w u := by
  cases t with
  | scalar a =>
    obtain rfl := holds_scalar.mp h
    exact .inl ⟨by simp [step, shape], rfl⟩
  | enclosing isObject => simp at h
  | pair key value =>
    obtain ⟨id, k, w, rfl, hcell, -⟩ := holds_pair.mp h
    exact .inl ⟨by simp [step, shape, hcell], rfl⟩
  | set members =>
    obtain ⟨id, rfl, hcell⟩ := holds_set.mp h
    exact .inl ⟨by simp [step, shape, hcell], rfl⟩
  | object entries =>
    obtain ⟨id, values, rfl, hcell, hheld⟩ := holds_object.mp h
    rw [step_object hcell, Tree.step?]
    rcases get?_of_holds (.text name) hheld with ⟨hnone, hnone'⟩ | ⟨w, u, hw, hu, hwu⟩
    · exact .inl ⟨by simp [hnone], hnone'⟩
    · exact .inr ⟨w, u, congrArg Except.ok hw, hu, hwu⟩
  | list items =>
    obtain ⟨id, values, rfl, hcell, hheld⟩ := holds_list.mp h
    have hshape : s.shape (.node id) = .list id values := shape_eq_list.mpr ⟨rfl, hcell⟩
    rw [step, hshape, Tree.step?]
    dsimp only
    split
    · exact .inl ⟨by simp, by simp [*]⟩
    · next i hindex =>
      rw [hindex]
      by_cases hi : i < values.length
      · have hi' : i < items.length := hheld.length_eq ▸ hi
        exact .inr ⟨values[i], items[i], congrArg Except.ok (List.getElem?_eq_getElem hi),
          List.getElem?_eq_getElem hi', hheld.get hi hi'⟩
      · have hi' : ¬ i < items.length := hheld.length_eq ▸ hi
        exact .inl ⟨by simp [hi], by simp [hi']⟩
    · exact .inl ⟨by simp, by simp [*]⟩

/-- Steps from a value lead somewhere if they do so in the tree that it holds. -/
theorem Holds.leads_iff (h : s.Holds v t) : s.Leads v steps ↔ t.leads steps = true := by
  induction steps generalizing v t with
  | nil => simp [Tree.leads]
  | cons name rest ih =>
    rw [leads_cons, Tree.leads]
    rcases h.step_cases name with ⟨hnone, hnone'⟩ | ⟨w, u, hw, hu, hheld⟩
    · simp [hnone, hnone']
    · rw [hw, hu]
      simp [ih hheld, hheld.isNull_eq]

end Store

/-! ## Gates -/

namespace View.Gated

variable {root : Nat} {gates : Set Gate} {s s' : Store} {K : Set Nat} {v w : Value} {name : String}
  {steps : List String}

/-- A step from a value that may stand anywhere leads to such a value. -/
theorem free_step (h : View.Gated root gates ⟨s, K⟩) (hpassage : Passage root gates)
    (hv : View.Free root gates ⟨s, K⟩ v) (hstep : s.step v name = .ok (some w)) :
    View.Free root gates ⟨s, K⟩ w := by
  unfold Store.step at hstep
  split at hstep
  · next id items hshape =>
    obtain ⟨rfl, hcell⟩ := Store.shape_eq_list.mp hshape
    split at hstep
    · simp at hstep
    · next n _ =>
      have hmem : w ∈ items := List.mem_of_getElem? (Except.ok.inj hstep)
      exact h.free_of_free hpassage hv hcell (List.mem_map_of_mem hmem (f := fun item => (none, item)))
    · simp at hstep
  · next id entries hshape =>
    obtain ⟨rfl, hcell⟩ := Store.shape_eq_object.mp hshape
    exact h.free_of_free hpassage hv hcell
      (Cell.mem_places_object.mpr ⟨_, rfl, Entries.mem_of_get? (Except.ok.inj hstep)⟩)
  · simp at hstep

section

variable (h : View.Gated root gates ⟨s, K⟩) (hpassage : Passage root gates)
  (hagree : ∀ i ∈ K, (∀ g ∈ gates, i ≠ g.node) → s'.cells[i]? = s.cells[i]?)
include hagree

/-- When gates only are changed, such a value stays what it is. -/
theorem shape_eq_of_agree (hv : View.Free root gates ⟨s, K⟩ v) : s'.shape v = s.shape v := by
  cases v with
  | scalar a => rfl
  | node i => simp only [Store.shape, hagree i (hv i rfl).1 (hv i rfl).2.2]

include h hpassage

/-- When gates only are changed, steps from such a value lead on as before. -/
theorem leads_iff_of_agree (hv : View.Free root gates ⟨s, K⟩ v) :
    s'.Leads v steps ↔ s.Leads v steps := by
  induction steps generalizing v with
  | nil => simp
  | cons name rest ih =>
    have hstep : s'.step v name = s.step v name := by
      rw [Store.step, Store.step, shape_eq_of_agree hagree hv]
    rw [Store.leads_cons, Store.leads_cons, hstep]
    refine exists_congr fun w => and_congr_right fun hw => ?_
    have hfree := h.free_step hpassage hv hw
    rw [Store.isNull_eq_of_shape_eq (shape_eq_of_agree hagree hfree)]
    exact and_congr_right fun _ => ih hfree

end

end View.Gated

end DeviceApi
