import DeviceApi.Proofs.Document.Holds
import DeviceApi.Proofs.Document.Entries

/-!
# Frames of changes to a store

Adding nodes keeps every tree that is held. Changing nodes keeps the trees in which they do not
lie, and loading a tree makes nodes that nothing else leads to.
-/

namespace DeviceApi

mutual

/-- A tree of lists and of objects whose keys are texts that do not repeat, as JSON text denotes
it. The scalars may be any, also such as JSON does not have. -/
def Tree.IsJson : Tree → Prop
  | .scalar _ => True
  | .list items => Tree.AreJson items
  | .object entries => Entries.TextKeyed entries ∧ Tree.EntriesAreJson entries
  | .pair .. | .set .. | .enclosing .. => False

/-- All items of a list are such trees. -/
def Tree.AreJson : List Tree → Prop
  | [] => True
  | t :: ts => t.IsJson ∧ Tree.AreJson ts

/-- The values of all entries of an object are such trees. -/
def Tree.EntriesAreJson : List (Scalar × Tree) → Prop
  | [] => True
  | (_, t) :: rest => t.IsJson ∧ Tree.EntriesAreJson rest

end

@[simp] theorem Tree.areJson_iff {items : List Tree} :
    Tree.AreJson items ↔ ∀ t ∈ items, t.IsJson := by
  induction items with
  | nil => simp [Tree.AreJson]
  | cons t ts ih => simp [Tree.AreJson, ih]

@[simp] theorem Tree.entriesAreJson_iff {entries : List (Scalar × Tree)} :
    Tree.EntriesAreJson entries ↔ ∀ e ∈ entries, e.2.IsJson := by
  induction entries with
  | nil => simp [Tree.EntriesAreJson]
  | cons e rest ih => simp [Tree.EntriesAreJson, ih]

mutual

/-- Going through a tree tells whether it is one as JSON text denotes it. -/
def Tree.decideIsJson : (t : Tree) → Decidable t.IsJson
  | .scalar _ => .isTrue trivial
  | .list items => Tree.decideAreJson items
  | .object entries => @instDecidableAnd _ _ inferInstance (Tree.decideEntriesAreJson entries)
  | .pair .. | .set .. | .enclosing .. => .isFalse id

def Tree.decideAreJson : (items : List Tree) → Decidable (Tree.AreJson items)
  | [] => .isTrue trivial
  | t :: ts => @instDecidableAnd _ _ (Tree.decideIsJson t) (Tree.decideAreJson ts)

def Tree.decideEntriesAreJson :
    (entries : List (Scalar × Tree)) → Decidable (Tree.EntriesAreJson entries)
  | [] => .isTrue trivial
  | (_, t) :: rest => @instDecidableAnd _ _ (Tree.decideIsJson t) (Tree.decideEntriesAreJson rest)

end

instance : DecidablePred Tree.IsJson := Tree.decideIsJson

/-- The trees that a tree is made of. -/
def Tree.parts : Tree → List Tree
  | .list items => items
  | .pair key value => [key, value]
  | .object entries => entries.map Prod.snd
  | _ => []

theorem Tree.sizeOf_part_lt {t u : Tree} (h : u ∈ t.parts) : sizeOf u < sizeOf t := by
  cases t with
  | list items => exact Tree.sizeOf_item_lt h
  | pair key value =>
    rcases List.mem_pair.mp h with rfl | rfl
    · exact Tree.sizeOf_key_lt _ _
    · exact Tree.sizeOf_value_lt _ _
  | object entries =>
    obtain ⟨e, he, rfl⟩ := List.mem_map.mp h
    exact Tree.sizeOf_entry_lt he
  | _ => simp [Tree.parts] at h

/-- The parts of a tree as JSON text denotes it are such trees. -/
theorem Tree.IsJson.part {t u : Tree} (h : t.IsJson) (hu : u ∈ t.parts) : u.IsJson := by
  cases t with
  | list items => exact Tree.areJson_iff.mp h u hu
  | object entries =>
    obtain ⟨e, he, rfl⟩ := List.mem_map.mp hu
    exact Tree.entriesAreJson_iff.mp h.2 e he
  | _ => simp [Tree.IsJson, Tree.parts] at h hu

namespace Store

variable {s s' s'' : Store} {v w : Value} {t : Tree} {id i : Nat} {cell : Cell}

@[simp] theorem cells_set : (s.set id cell).cells[i]? =
    if i = id ∧ id < s.cells.size then some cell else s.cells[i]? := by
  unfold set
  rw [Array.getElem?_setIfInBounds]
  split <;> split <;> grind

@[simp] theorem size_set : (s.set id cell).cells.size = s.cells.size := by
  simp [set]

@[simp] theorem size_add : (s.add cell).2.cells.size = s.cells.size + 1 := by
  simp [add]

@[simp] theorem cells_add : (s.add cell).2.cells[i]? =
    if i = s.cells.size then some cell else s.cells[i]? := by
  unfold add
  rw [Array.getElem?_push]

theorem lt_size_of_cell (h : s.cells[id]? = some cell) : id < s.cells.size :=
  (Array.getElem?_eq_some_iff.mp h).1

/-- Nodes may have been added, and the older ones are as they were. -/
structure Grows (s s' : Store) : Prop where
  size_le : s.cells.size ≤ s'.cells.size
  agree : ∀ i : Nat, i < s.cells.size → s'.cells[i]? = s.cells[i]?

theorem Grows.refl (s : Store) : Grows s s := ⟨le_rfl, fun _ _ => rfl⟩

theorem Grows.trans (h : Grows s s') (h' : Grows s' s'') : Grows s s'' where
  size_le := h.size_le.trans h'.size_le
  agree i hi := (h'.agree i (hi.trans_le h.size_le)).trans (h.agree i hi)

/-- A node is what it was when nodes are added and another one is changed. -/
theorem Grows.cells_set (h : Grows s s') {id i : Nat} {cell : Cell} (hi : i < s.cells.size) (hne : i ≠ id) :
    (s'.set id cell).cells[i]? = s.cells[i]? := by
  rw [Store.cells_set, if_neg fun heq => hne heq.1, h.agree i hi]

theorem Grows.add (s : Store) (cell : Cell) : Grows s (s.add cell).2 where
  size_le := by simp
  agree i hi := by rw [cells_add, if_neg (by omega)]

/-! ## Nodes below a value -/

@[simp] theorem not_reaches_scalar {x : Scalar} : ¬ s.Reaches (.scalar x) id := by
  intro h
  cases h

/-- What lies below a part of a node lies below the node. -/
theorem Reaches.trans (h : s.Reaches v id) (h' : s.Reaches (.node id) i) : s.Reaches v i := by
  induction h with
  | here => exact h'
  | part hcell hpart _ ih => exact .part hcell hpart (ih h')

/-- Below a node that has just been added lies the node itself and what lies below its parts. -/
theorem eq_or_of_reaches_add (h : (s.add cell).2.Reaches (s.add cell).1 i) :
    i = s.cells.size ∨ ∃ w ∈ cell.parts, (s.add cell).2.Reaches w i := by
  rw [show (s.add cell).1 = .node s.cells.size from rfl] at h
  cases h with
  | here => exact .inl rfl
  | part hcell hpart hreach =>
    rw [cells_add, if_pos rfl, Option.some.injEq] at hcell
    exact .inr ⟨_, hcell ▸ hpart, hreach⟩

/-- A store that agrees on the nodes below a value has no further nodes below it. -/
theorem Reaches.of_agree (hagree : ∀ id, s.Reaches v id → s'.cells[id]? = s.cells[id]?)
    (h : s'.Reaches v id) : s.Reaches v id := by
  induction h with
  | here id => exact .here id
  | part hcell hpart _ ih =>
    rw [hagree _ (.here _)] at hcell
    exact .part hcell hpart (ih fun id hid => hagree id (.part hcell hpart hid))

/-- The parts of a node that holds a tree hold the parts of the tree. -/
theorem Holds.exists_part (h : s.Holds (.node id) t) (hcell : s.cells[id]? = some cell)
    (hpart : w ∈ cell.parts) : ∃ u ∈ t.parts, s.Holds w u := by
  cases t with
  | scalar x => simp at h
  | list items =>
    obtain ⟨_, values, heq, hcell', hitems⟩ := holds_list.mp h
    obtain rfl : id = _ := by simpa using heq
    obtain rfl : cell = .list values := by simpa [hcell] using hcell'
    exact exists_mem_of_forall₂ hitems hpart
  | pair key value =>
    obtain ⟨_, k, x, heq, hcell', hk, hx⟩ := holds_pair.mp h
    obtain rfl : id = _ := by simpa using heq
    obtain rfl : cell = .pair k x := by simpa [hcell] using hcell'
    rcases List.mem_pair.mp hpart with rfl | rfl
    · exact ⟨key, by simp [Tree.parts], hk⟩
    · exact ⟨value, by simp [Tree.parts], hx⟩
  | set members =>
    obtain ⟨_, heq, hcell'⟩ := holds_set.mp h
    obtain rfl : id = _ := by simpa using heq
    obtain rfl : cell = .set members := by simpa [hcell] using hcell'
    simp [Cell.parts] at hpart
  | object entries =>
    obtain ⟨_, values, heq, hcell', hentries⟩ := holds_object.mp h
    obtain rfl : id = _ := by simpa using heq
    obtain rfl : cell = .object values := by simpa [hcell] using hcell'
    obtain ⟨e, he, rfl⟩ := List.mem_map.mp hpart
    obtain ⟨u, hu, -, hheld⟩ := exists_mem_of_forall₂ hentries he
    exact ⟨u.2, List.mem_map_of_mem hu, hheld⟩
  | enclosing isObject => simp at h

theorem Holds.of_part (h : s.Holds (.node id) t) (hcell : s.cells[id]? = some cell)
    (hpart : w ∈ cell.parts) : ∃ u, s.Holds w u ∧ sizeOf u < sizeOf t := by
  obtain ⟨u, hu, hheld⟩ := h.exists_part hcell hpart
  exact ⟨u, hheld, Tree.sizeOf_part_lt hu⟩

/-- Every node below a value that holds a tree holds a part of that tree. -/
theorem Holds.of_reaches (h : s.Holds v t) (hreach : s.Reaches v id) :
    ∃ t', s.Holds (.node id) t' ∧ sizeOf t' ≤ sizeOf t := by
  induction hreach generalizing t with
  | here id => exact ⟨t, h, le_rfl⟩
  | part hcell hpart _ ih =>
    obtain ⟨u, hu, hlt⟩ := h.of_part hcell hpart
    obtain ⟨t', ht', hle⟩ := ih hu
    exact ⟨t', ht', by omega⟩

/-- Nodes below a value that holds a tree exist. -/
theorem Holds.reaches_lt (h : s.Holds v t) (hreach : s.Reaches v id) : id < s.cells.size := by
  obtain ⟨_, h', _⟩ := h.of_reaches hreach
  exact h'.lt_size

/-- A node that holds a tree does not lie below its own parts. -/
theorem Holds.not_reaches_of_part (h : s.Holds (.node id) t) (hcell : s.cells[id]? = some cell)
    (hpart : w ∈ cell.parts) : ¬ s.Reaches w id := by
  intro hreach
  obtain ⟨u, hu, hlt⟩ := h.of_part hcell hpart
  obtain ⟨t', ht', hle⟩ := hu.of_reaches hreach
  rw [ht'.unique h] at hle
  omega

theorem holdsEntry_zip {values : Entries Value} {us : List Tree}
    (h : List.Forall₂ s.Holds values.values us) :
    List.Forall₂ s.HoldsEntry values (values.keys.zip us) := by
  induction values generalizing us with
  | nil => exact .nil
  | cons e rest ih =>
    obtain ⟨u, us, hu, hrest, rfl⟩ := List.forall₂_cons_left_iff.mp h
    exact .cons ⟨rfl, hu⟩ (ih hrest)

/-- A node holds a tree as soon as its parts do. -/
theorem exists_holds_of_parts (hcell : s.cells[id]? = some cell)
    (hparts : ∀ w ∈ cell.parts, ∃ u, s.Holds w u) : ∃ t, s.Holds (.node id) t := by
  have hall : ∀ values : List Value, (∀ w ∈ values, ∃ u, s.Holds w u) →
      ∃ us, List.Forall₂ s.Holds values us := by
    intro values hvalues
    induction values with
    | nil => exact ⟨[], .nil⟩
    | cons w rest ih =>
      obtain ⟨u, hu⟩ := hvalues w List.mem_cons_self
      obtain ⟨us, hus⟩ := ih fun w hw => hvalues w (List.mem_cons_of_mem _ hw)
      exact ⟨u :: us, .cons hu hus⟩
  cases cell with
  | list items =>
    obtain ⟨us, hus⟩ := hall items hparts
    exact ⟨.list us, holds_list.mpr ⟨id, items, rfl, hcell, hus⟩⟩
  | pair key value =>
    obtain ⟨uk, hk⟩ := hparts key (by simp [Cell.parts])
    obtain ⟨uv, hv⟩ := hparts value (by simp [Cell.parts])
    exact ⟨.pair uk uv, holds_pair.mpr ⟨id, key, value, rfl, hcell, hk, hv⟩⟩
  | set members => exact ⟨.set members, holds_set.mpr ⟨id, rfl, hcell⟩⟩
  | object entries =>
    obtain ⟨us, hus⟩ := hall entries.values hparts
    exact ⟨_, holds_object.mpr ⟨id, entries, rfl, hcell, holdsEntry_zip hus⟩⟩

/-- What is held stays held when nodes are added. -/
theorem Holds.extend (h : s.Holds v t) (hgrows : Grows s s') : s'.Holds v t :=
  h.frame fun i hi => hgrows.agree i (h.reaches_lt hi)

/-- What is held stays held if every node either keeps its content or holds the same tree for another
reason. What lies below the node may be taken to be held still. -/
theorem Holds.of_nodes (hnode : ∀ (i : Nat) (t : Tree), s.Holds (.node i) t →
      (∀ w u, sizeOf u < sizeOf t → s.Holds w u → s'.Holds w u) →
      s'.cells[i]? = s.cells[i]? ∨ s'.Holds (.node i) t)
    (h : s.Holds v t) : s'.Holds v t := by
  induction hsize : sizeOf t using Nat.strong_induction_on generalizing v t with
  | _ n ih =>
    have hbelow : ∀ w u, sizeOf u < sizeOf t → s.Holds w u → s'.Holds w u := fun w u hlt hw =>
      ih (sizeOf u) (hsize ▸ hlt) hw rfl
    cases v with
    | scalar a =>
      cases t with
      | scalar b => simpa using h
      | enclosing => simp at h
      | list | pair | set | object => simp [holds_list, holds_pair, holds_set, holds_object] at h
    | node i =>
      rcases hnode i t h hbelow with hsame | hheld
      · cases t with
        | scalar a => simp at h
        | enclosing isObject => simp at h
        | list items =>
          obtain ⟨id, values, heq, hcell, hitems⟩ := holds_list.mp h
          obtain rfl := Value.node.inj heq
          exact holds_list.mpr ⟨i, values, rfl, hsame.trans hcell,
            forall₂_imp_of_mem (fun w _ u hu hw => hbelow w u (Tree.sizeOf_item_lt hu) hw) hitems⟩
        | pair key value =>
          obtain ⟨id, k, w, heq, hcell, hk, hw⟩ := holds_pair.mp h
          obtain rfl := Value.node.inj heq
          exact holds_pair.mpr ⟨i, k, w, rfl, hsame.trans hcell, hbelow k key (Tree.sizeOf_key_lt _ _) hk,
            hbelow w value (Tree.sizeOf_value_lt _ _) hw⟩
        | set members =>
          obtain ⟨id, heq, hcell⟩ := holds_set.mp h
          obtain rfl := Value.node.inj heq
          exact holds_set.mpr ⟨i, rfl, hsame.trans hcell⟩
        | object entries =>
          obtain ⟨id, values, heq, hcell, hentries⟩ := holds_object.mp h
          obtain rfl := Value.node.inj heq
          exact holds_object.mpr ⟨i, values, rfl, hsame.trans hcell,
            forall₂_imp_of_mem (fun e _ u hu he => ⟨he.1, hbelow e.2 u.2 (Tree.sizeOf_entry_lt hu) he.2⟩) hentries⟩
      · exact hheld

/-- What is held stays held when one node is changed that holds afterwards what it held before. -/
theorem Holds.replace {u : Tree} (h : s.Holds v t) (hagree : ∀ i : Nat, i ≠ id → s'.cells[i]? = s.cells[i]?)
    (hold : s.Holds (.node id) u) (hnew : s'.Holds (.node id) u) : s'.Holds v t := by
  refine Holds.of_nodes (fun i t ht _ => ?_) h
  by_cases hi : i = id
  · subst hi
    exact .inr (ht.unique hold ▸ hnew)
  · exact .inl (hagree i hi)

/-- The node does not lie below the value, and all nodes that do exist. -/
structure Apart (s : Store) (id : Nat) (v : Value) : Prop where
  not_reaches : ¬ s.Reaches v id
  lt_size : ∀ i, s.Reaches v i → i < s.cells.size

theorem Holds.apart (h : s.Holds v t) (hnot : ¬ s.Reaches v id) : s.Apart id v :=
  ⟨hnot, fun _ => h.reaches_lt⟩

/-- What lies apart from a node does so as well when nodes are added. -/
theorem Apart.grow (h : s.Apart id v) (hgrows : Grows s s') : s'.Apart id v := by
  have hback : ∀ {i}, s'.Reaches v i → s.Reaches v i := fun hi =>
    hi.of_agree fun j hj => hgrows.agree j (h.lt_size j hj)
  exact ⟨fun hreach => h.not_reaches (hback hreach), fun i hi =>
    (h.lt_size i (hback hi)).trans_le hgrows.size_le⟩

/-- What is held apart from a node stays held whatever becomes of the node. -/
theorem Holds.set (h : s.Holds v t) (hnot : ¬ s.Reaches v id) : (s.set id cell).Holds v t := by
  refine h.frame fun i hi => ?_
  rw [cells_set, if_neg]
  rintro ⟨rfl, -⟩
  exact hnot hi

@[simp] theorem set_set {cell' : Cell} : (s.set id cell).set id cell' = s.set id cell' := by
  simp [set]

/-- What has just been added may as well be added with the content that it is then given. -/
theorem add_set {cell' : Cell} : (s.add cell).2.set s.cells.size cell' = (s.add cell').2 := by
  have hcells : (s.cells.push cell).setIfInBounds s.cells.size cell' = s.cells.push cell' := by
    refine Array.ext_getElem? fun i => ?_
    rw [Array.getElem?_setIfInBounds, Array.getElem?_push, Array.getElem?_push]
    split <;> grind
  rw [set, add, add, hcells]

theorem set_self (h : s.cells[id]? = some cell) : s.set id cell = s := by
  obtain ⟨hlt, rfl⟩ := Array.getElem?_eq_some_iff.mp h
  have hcells : s.cells.setIfInBounds id s.cells[id] = s.cells := by
    refine Array.ext_getElem? fun i => ?_
    rw [Array.getElem?_setIfInBounds]
    split
    · next heq => simp [← heq, hlt]
    · rfl
  rw [Store.set, hcells]

/-- Changing a node leaves alone what lies apart from it. -/
theorem Apart.agree_set (h : s.Apart id v) {cell : Cell} (i : Nat) (hi : s.Reaches v i) :
    (s.set id cell).cells[i]? = s.cells[i]? := by
  rw [cells_set, if_neg]
  rintro ⟨rfl, -⟩
  exact h.not_reaches hi

theorem Apart.set (h : s.Apart id v) : (s.set id cell).Apart id v := by
  have hback : ∀ {i}, (s.set id cell).Reaches v i → s.Reaches v i := fun hi =>
    hi.of_agree h.agree_set
  exact ⟨fun hreach => h.not_reaches (hback hreach), fun i hi => by simpa using h.lt_size i (hback hi)⟩

theorem Apart.shapeKey_set (h : s.Apart id v) : (s.set id cell).shapeKey v = s.shapeKey v :=
  shapeKey_eq_of_agree h.agree_set size_set

theorem Apart.isReference_set (h : s.Apart id v) :
    (s.set id cell).isReference v = s.isReference v :=
  isReference_eq_of_agree h.agree_set

/-! ## Loading -/

/-- What loading does to a store: older nodes stay as they are, and the answers hold trees of
which no older node is a part. -/
structure Loads (s s' : Store) (values : List Value) (trees : List Tree) : Prop
    extends Grows s s' where
  fresh : ∀ v ∈ values, ∀ id, s'.Reaches v id → s.cells.size ≤ id
  holds : List.Forall₂ (fun v t => ∃ u, s'.Holds v u ∧ (t.IsJson → u = t)) values trees

theorem Loads.nil : Loads s s [] [] where
  toGrows := .refl s
  fresh := by simp
  holds := .nil

theorem Loads.cons {values : List Value} {trees : List Tree} (h : Loads s s' [v] [t])
    (h' : Loads s' s'' values trees) : Loads s s'' (v :: values) (t :: trees) := by
  obtain ⟨⟨u, hu, hjson⟩, _⟩ := List.forall₂_cons.mp h.holds
  have hkept : ∀ id, s'.Reaches v id → s''.cells[id]? = s'.cells[id]? :=
    fun id hid => h'.agree id (hu.reaches_lt hid)
  refine ⟨h.toGrows.trans h'.toGrows, fun w hw id hid => ?_, ?_⟩
  · rcases List.mem_cons.mp hw with rfl | hmem
    · exact h.fresh w (by simp) id (hid.of_agree hkept)
    · exact h.size_le.trans (h'.fresh w hmem id hid)
  · exact .cons ⟨u, hu.frame hkept, hjson⟩ h'.holds

theorem Loads.exists_holds {values : List Value} {trees : List Tree} (h : Loads s s' values trees)
    (hv : v ∈ values) : ∃ u, s'.Holds v u := by
  obtain ⟨k, hk, rfl⟩ := List.getElem_of_mem hv
  obtain ⟨u, hu, _⟩ := h.holds.get hk (h.holds.length_eq ▸ hk)
  exact ⟨u, hu⟩

/-- A node that is added over loaded parts is loaded as well. -/
theorem Loads.add {values : List Value} {trees : List Tree} (h : Loads s s' values trees)
    (hparts : ∀ w ∈ cell.parts, w ∈ values)
    (hholds : ∃ u, (s'.add cell).2.Holds (s'.add cell).1 u ∧ (t.IsJson → u = t)) :
    Loads s (s'.add cell).2 [(s'.add cell).1] [t] := by
  refine ⟨h.toGrows.trans (.add s' cell), fun v hv id hid => ?_, .cons hholds .nil⟩
  obtain rfl := List.mem_singleton.mp hv
  cases hid with
  | here => exact h.size_le
  | part hcell hpart hbelow =>
    rw [cells_add, if_pos rfl, Option.some.injEq] at hcell
    subst hcell
    obtain ⟨u, hu⟩ := h.exists_holds (hparts _ hpart)
    have hkept : ∀ i, s'.Reaches _ i → (s'.add cell).2.cells[i]? = s'.cells[i]? :=
      fun i hi => (Grows.add s' cell).agree i (hu.reaches_lt hi)
    exact h.fresh _ (hparts _ hpart) id (hbelow.of_agree hkept)

/-- The trees that a list of loaded values holds, together. -/
theorem Loads.holds_all {values : List Value} {trees : List Tree} (h : Loads s s' values trees) :
    ∃ us, List.Forall₂ s'.Holds values us ∧ ((∀ t ∈ trees, t.IsJson) → us = trees) := by
  have hall := h.holds
  clear h
  induction hall with
  | nil => exact ⟨[], .nil, fun _ => rfl⟩
  | cons hv _ ih =>
    obtain ⟨u, hu, hjson⟩ := hv
    obtain ⟨us, hus, hjsons⟩ := ih
    refine ⟨u :: us, .cons hu hus, fun hall => ?_⟩
    rw [hjson (hall _ List.mem_cons_self), hjsons fun t ht => hall t (List.mem_cons_of_mem _ ht)]

/-- Loading a tree adds nodes for it and nothing else. -/
theorem loads_load (t : Tree) (s : Store) : Loads s (s.load t).2 [(s.load t).1] [t] := by
  induction t using Tree.inductionOn generalizing s with
  | scalar x =>
    exact ⟨.refl s, by simp [load], .cons ⟨.scalar x, by simp [load]⟩ .nil⟩
  | list items ih =>
    have hitems : Loads s (s.loadItems items).2 (s.loadItems items).1 items := by
      induction items generalizing s with
      | nil => exact .nil
      | cons t ts ihs =>
        exact (ih t List.mem_cons_self s).cons
          (ihs (fun t ht => ih t (List.mem_cons_of_mem _ ht)) _)
    obtain ⟨us, hus, hjson⟩ := hitems.holds_all
    refine hitems.add (fun w hw => hw) ⟨.list us, ?_, fun h => ?_⟩
    · refine holds_list.mpr ⟨_, _, rfl, by rw [cells_add, if_pos rfl], ?_⟩
      exact forall₂_imp_of_mem (fun w hw u _ hwu => hwu.extend (.add _ _)) hus
    · rw [hjson (Tree.areJson_iff.mp h)]
  | pair key value ihk ihv =>
    have hparts := (ihk s).cons (ihv (s.load key).2)
    obtain ⟨us, hus, _⟩ := hparts.holds_all
    obtain ⟨uk, rest, hk, hrest, rfl⟩ := List.forall₂_cons_left_iff.mp hus
    obtain ⟨uv, rest, hv, hnil, rfl⟩ := List.forall₂_cons_left_iff.mp hrest
    refine hparts.add (fun w hw => hw) ⟨.pair uk uv, ?_, fun h => absurd h (by simp [Tree.IsJson])⟩
    exact holds_pair.mpr ⟨_, _, _, rfl, by rw [cells_add, if_pos rfl], hk.extend (.add _ _),
      hv.extend (.add _ _)⟩
  | set members =>
    refine Loads.nil.add (by simp [Cell.parts]) ⟨.set members, ?_, fun _ => rfl⟩
    exact holds_set.mpr ⟨_, rfl, by rw [cells_add, if_pos rfl]⟩
  | object entries ih =>
    have hentries : Loads s (s.loadEntries entries).2 (s.loadEntries entries).1.values
        (entries.map Prod.snd) ∧ (s.loadEntries entries).1.keys = entries.map Prod.fst := by
      induction entries generalizing s with
      | nil => exact ⟨.nil, rfl⟩
      | cons e rest ihs =>
        obtain ⟨key, t⟩ := e
        obtain ⟨hrest, hkeys⟩ := ihs (fun e he => ih e (List.mem_cons_of_mem _ he)) (s.load t).2
        exact ⟨(ih (key, t) List.mem_cons_self s).cons hrest, congrArg (key :: ·) hkeys⟩
    obtain ⟨hloads, hkeys⟩ := hentries
    obtain ⟨us, hus, hjson⟩ := hloads.holds_all
    refine hloads.add (fun w hw => hw) ⟨.object ((s.loadEntries entries).1.keys.zip us), ?_, fun h => ?_⟩
    · refine holds_object.mpr ⟨_, _, rfl, by rw [cells_add, if_pos rfl], ?_⟩
      exact forall₂_imp_of_mem (fun w hw e _ hwe => ⟨hwe.1, hwe.2.extend (.add _ _)⟩)
        (holdsEntry_zip hus)
    · have hall : ∀ t ∈ entries.map Prod.snd, t.IsJson := by
        intro t ht
        obtain ⟨e, he, rfl⟩ := List.mem_map.mp ht
        exact Tree.entriesAreJson_iff.mp h.2 e he
      rw [hjson hall, hkeys, List.zip_map', List.map_id']
  | enclosing isObject =>
    exact ⟨.refl s, by simp [load], .cons ⟨.scalar .null, by simp [load, Tree.IsJson]⟩ .nil⟩

/-- A tree as JSON text denotes it is held by what it is loaded as. -/
theorem holds_load (h : t.IsJson) (s : Store) : (s.load t).2.Holds (s.load t).1 t := by
  obtain ⟨⟨u, hu, hjson⟩, -⟩ := List.forall₂_cons.mp (loads_load t s).holds
  exact hjson h ▸ hu

/-- All objects have text keys that do not repeat. -/
def TextKeyed (s : Store) : Prop :=
  ∀ (i : Nat) (entries : Entries Value), s.cells[i]? = some (.object entries) → entries.TextKeyed

theorem TextKeyed.add (h : s.TextKeyed) (hcell : ∀ entries, cell = .object entries → entries.TextKeyed) :
    (s.add cell).2.TextKeyed := by
  intro i entries hobject
  rw [cells_add] at hobject
  split at hobject
  · exact hcell entries (Option.some.inj hobject)
  · exact h i entries hobject

theorem TextKeyed.set {entries : Entries Value} (h : s.TextKeyed) (hentries : entries.TextKeyed) :
    (s.set id (.object entries)).TextKeyed := by
  intro i entries' hobject
  rw [cells_set] at hobject
  split at hobject
  · obtain rfl : entries = entries' := by simpa using hobject
    exact hentries
  · exact h i entries' hobject

/-- Loading a tree as JSON text denotes it keeps text keys. -/
theorem TextKeyed.load (h : s.TextKeyed) (ht : t.IsJson) : (s.load t).2.TextKeyed := by
  induction t using Tree.inductionOn generalizing s with
  | scalar x => exact h
  | list items ih =>
    have hitems : (s.loadItems items).2.TextKeyed := by
      have hall := Tree.areJson_iff.mp ht
      clear ht
      induction items generalizing s with
      | nil => exact h
      | cons t ts ihs =>
        exact ihs (fun t ht => ih t (List.mem_cons_of_mem _ ht))
          (ih t List.mem_cons_self h (hall t List.mem_cons_self))
          fun t ht => hall t (List.mem_cons_of_mem _ ht)
    exact hitems.add (by simp)
  | pair key value _ _ => exact absurd ht (by simp [Tree.IsJson])
  | set members => exact absurd ht (by simp [Tree.IsJson])
  | object entries ih =>
    obtain ⟨hkeyed, hvalues⟩ := ht
    have hentries : (s.loadEntries entries).2.TextKeyed ∧
        (s.loadEntries entries).1.keys = Entries.keys entries := by
      have hall := Tree.entriesAreJson_iff.mp hvalues
      clear hkeyed hvalues
      induction entries generalizing s with
      | nil => exact ⟨h, rfl⟩
      | cons e rest ihs =>
        obtain ⟨hrest, hkeys⟩ := ihs (fun e he => ih e (List.mem_cons_of_mem _ he))
          (ih e List.mem_cons_self h (hall e List.mem_cons_self))
          fun e he => hall e (List.mem_cons_of_mem _ he)
        exact ⟨hrest, congrArg (e.1 :: ·) hkeys⟩
    refine hentries.1.add fun values hvalues => ?_
    obtain rfl : (s.loadEntries entries).1 = values := by simpa using hvalues
    exact ⟨fun key hkey => hkeyed.exists_text key (hentries.2 ▸ hkey), hentries.2 ▸ hkeyed.nodup⟩
  | enclosing isObject => exact absurd ht (by simp [Tree.IsJson])

end Store

end DeviceApi
