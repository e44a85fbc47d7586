import DeviceApi.Api.Reference
import DeviceApi.Schema.ShapeKey
import Mathlib.Data.Finset.Card
import Mathlib.Data.Finset.Range

/-!
# Trees held by a store

A value of a store holds a tree when the nodes below it spell that tree out. Nodes may be shared,
but none lies inside of itself. The tree that is read off a store is the one that it holds, and it
depends on no other nodes than those below the value.
-/

namespace DeviceApi

section Size

variable {t : Tree}

theorem Tree.sizeOf_item_lt {items : List Tree} (h : t ∈ items) :
    sizeOf t < sizeOf (Tree.list items) := by
  have := List.sizeOf_lt_of_mem h
  rw [Tree.list.sizeOf_spec]
  omega

theorem Tree.sizeOf_key_lt (key value : Tree) : sizeOf key < sizeOf (Tree.pair key value) := by
  rw [Tree.pair.sizeOf_spec]
  omega

theorem Tree.sizeOf_value_lt (key value : Tree) : sizeOf value < sizeOf (Tree.pair key value) := by
  rw [Tree.pair.sizeOf_spec]
  omega

theorem Tree.sizeOf_entry_lt {entries : List (Scalar × Tree)} {e : Scalar × Tree} (h : e ∈ entries) :
    sizeOf e.2 < sizeOf (Tree.object entries) := by
  have hmem := List.sizeOf_lt_of_mem h
  have hpair : sizeOf e = 1 + sizeOf e.1 + sizeOf e.2 := by cases e; rfl
  rw [Tree.object.sizeOf_spec]
  omega

end Size

/-- Induction on a tree with one hypothesis for all items or entries. -/
theorem Tree.inductionOn {P : Tree → Prop} (t : Tree) (scalar : ∀ s, P (.scalar s))
    (list : ∀ items, (∀ t ∈ items, P t) → P (.list items))
    (pair : ∀ key value, P key → P value → P (.pair key value))
    (set : ∀ members, P (.set members))
    (object : ∀ entries : List (Scalar × Tree), (∀ e ∈ entries, P e.2) → P (.object entries))
    (enclosing : ∀ isObject, P (.enclosing isObject)) : P t :=
  match t with
  | .scalar s => scalar s
  | .list items =>
    list items fun t _ => inductionOn t scalar list pair set object enclosing
  | .pair key value =>
    pair key value (inductionOn key scalar list pair set object enclosing)
      (inductionOn value scalar list pair set object enclosing)
  | .set members => set members
  | .object entries =>
    object entries fun e _ => inductionOn e.2 scalar list pair set object enclosing
  | .enclosing isObject => enclosing isObject
termination_by sizeOf t
decreasing_by
  · exact Tree.sizeOf_item_lt ‹t ∈ items›
  · exact sizeOf_key_lt key value
  · exact sizeOf_value_lt key value
  · exact Tree.sizeOf_entry_lt ‹e ∈ entries›

/-- Whether a tree is a reference. -/
def Tree.isReference : Tree → Bool
  | .object entries => Entries.has entries referenceKey
  | _ => false

/-- The values that a cell is made of. -/
def Cell.parts : Cell → List Value
  | .list items => items
  | .pair key value => [key, value]
  | .set _ => []
  | .object entries => entries.values

/-- Two lists related to a third one are equal if the relation determines their items. -/
theorem forall₂_right_unique_of_mem {α β : Type} {R : α → β → Prop} {as : List α}
    {bs cs : List β} (hR : ∀ b ∈ bs, ∀ a c, R a b → R a c → b = c) (h : List.Forall₂ R as bs)
    (h' : List.Forall₂ R as cs) : bs = cs := by
  induction h generalizing cs with
  | nil => exact (List.forall₂_nil_left_iff.mp h').symm
  | cons hab _ ih =>
    obtain ⟨c, rest, hac, hrest, rfl⟩ := List.forall₂_cons_left_iff.mp h'
    rw [hR _ List.mem_cons_self _ _ hab hac, ih (fun b hb => hR b (List.mem_cons_of_mem _ hb)) hrest]

/-- A relation between lists may be replaced by one that follows from it for their items. -/
theorem forall₂_imp_of_mem {α β : Type} {R S : α → β → Prop} {as : List α} {bs : List β}
    (hRS : ∀ a ∈ as, ∀ b ∈ bs, R a b → S a b) (h : List.Forall₂ R as bs) :
    List.Forall₂ S as bs := by
  induction h with
  | nil => exact .nil
  | cons hab _ ih =>
    exact .cons (hRS _ List.mem_cons_self _ List.mem_cons_self hab)
      (ih fun a ha b hb => hRS a (List.mem_cons_of_mem _ ha) b (List.mem_cons_of_mem _ hb))

/-- An item of the first of two related lists is related to one of the second. -/
theorem exists_mem_of_forall₂ {α β : Type} {R : α → β → Prop} {as : List α} {bs : List β} {a : α}
    (h : List.Forall₂ R as bs) (ha : a ∈ as) : ∃ b ∈ bs, R a b := by
  obtain ⟨k, hk, rfl⟩ := List.getElem_of_mem ha
  have hk' : k < bs.length := h.length_eq ▸ hk
  exact ⟨bs[k], List.getElem_mem hk', h.get hk hk'⟩

/-- An item of the second of two related lists is related to one of the first. -/
theorem exists_mem_of_forall₂_right {α β : Type} {R : α → β → Prop} {as : List α} {bs : List β} {b : β}
    (h : List.Forall₂ R as bs) (hb : b ∈ bs) : ∃ a ∈ as, R a b :=
  exists_mem_of_forall₂ h.flip hb

/-- A traversal that succeeds for every item answers the list of the answers. -/
theorem mapM_eq_ok_of_forall₂ {ε α β : Type} {f : α → Except ε β} {as : List α} {bs : List β}
    (h : List.Forall₂ (fun a b => f a = .ok b) as bs) : as.mapM f = .ok bs := by
  induction h with
  | nil => rfl
  | cons hab _ ih =>
    rw [List.mapM_cons, hab, ih]
    rfl

/-- Going through a list answers item by item. -/
theorem forall₂_of_mapM_eq_ok {ε α β : Type} {f : α → Except ε β} {as : List α} {bs : List β}
    (h : as.mapM f = .ok bs) : List.Forall₂ (fun a b => f a = .ok b) as bs := by
  induction as generalizing bs with
  | nil =>
    obtain rfl : [] = bs := by simpa [pure, Except.pure] using h
    exact .nil
  | cons a as ih =>
    rw [List.mapM_cons] at h
    cases ha : f a with
    | error e => simp [ha, bind, Except.bind] at h
    | ok b =>
      cases has : as.mapM f with
      | error e => simp [ha, has, bind, Except.bind] at h
      | ok rest =>
        obtain rfl : b :: rest = bs := by simpa [ha, has, bind, Except.bind, pure, Except.pure] using h
        exact .cons ha (ih has)

/-- Going through a list depends only on what is done with its members. -/
theorem mapM_congr_of_mem {ε α β : Type} {f g : α → Except ε β} {as : List α}
    (h : ∀ a ∈ as, f a = g a) : as.mapM f = as.mapM g := by
  induction as with
  | nil => rfl
  | cons a as ih =>
    rw [List.mapM_cons, List.mapM_cons, h a List.mem_cons_self,
      ih fun b hb => h b (List.mem_cons_of_mem _ hb)]

namespace Store

variable {s s' : Store} {v w : Value} {t t' : Tree}

mutual

/-- The nodes below a value spell out a tree. -/
def Holds (s : Store) (v : Value) : Tree → Prop
  | .scalar x => v = .scalar x
  | .list items => ∃ id values, v = .node id ∧ s.cells[id]? = some (.list values) ∧
      HoldsItems s values items
  | .pair key value => ∃ id k w, v = .node id ∧ s.cells[id]? = some (.pair k w) ∧
      Holds s k key ∧ Holds s w value
  | .set members => ∃ id, v = .node id ∧ s.cells[id]? = some (.set members)
  | .object entries => ∃ id values, v = .node id ∧ s.cells[id]? = some (.object values) ∧
      HoldsEntries s values entries
  | .enclosing _ => False

/-- The items of a list spell out trees. -/
def HoldsItems (s : Store) (values : List Value) : List Tree → Prop
  | [] => values = []
  | t :: ts => ∃ v vs, values = v :: vs ∧ Holds s v t ∧ HoldsItems s vs ts

/-- The entries of an object spell out trees under the same keys. -/
def HoldsEntries (s : Store) (values : Entries Value) : List (Scalar × Tree) → Prop
  | [] => values = []
  | (key, t) :: ts => ∃ v vs, values = (key, v) :: vs ∧ Holds s v t ∧ HoldsEntries s vs ts

end

theorem holdsItems_iff {values : List Value} {items : List Tree} :
    s.HoldsItems values items ↔ List.Forall₂ s.Holds values items := by
  induction items generalizing values with
  | nil => exact List.forall₂_nil_right_iff.symm
  | cons t ts ih =>
    constructor
    · rintro ⟨v, vs, rfl, hv, hvs⟩
      exact .cons hv (ih.mp hvs)
    · rintro (_ | ⟨hv, hvs⟩)
      exact ⟨_, _, rfl, hv, ih.mpr hvs⟩

/-- An entry of an object spells out a tree under the same key. -/
def HoldsEntry (s : Store) (value : Scalar × Value) (entry : Scalar × Tree) : Prop :=
  value.1 = entry.1 ∧ s.Holds value.2 entry.2

theorem holdsEntries_iff {values : Entries Value} {entries : List (Scalar × Tree)} :
    s.HoldsEntries values entries ↔ List.Forall₂ s.HoldsEntry values entries := by
  induction entries generalizing values with
  | nil => exact List.forall₂_nil_right_iff.symm
  | cons entry rest ih =>
    obtain ⟨key, t⟩ := entry
    constructor
    · rintro ⟨v, vs, rfl, hv, hvs⟩
      exact .cons ⟨rfl, hv⟩ (ih.mp hvs)
    · rintro (_ | ⟨⟨hkey, hv⟩, hvs⟩)
      obtain rfl : _ = key := hkey
      exact ⟨_, _, rfl, hv, ih.mpr hvs⟩

@[simp] theorem holds_scalar {x : Scalar} : s.Holds v (.scalar x) ↔ v = .scalar x := Iff.rfl

theorem holds_list {items : List Tree} : s.Holds v (.list items) ↔
    ∃ id values, v = .node id ∧ s.cells[id]? = some (.list values) ∧
      List.Forall₂ s.Holds values items := by
  simp only [← holdsItems_iff]
  rfl

theorem holds_pair {key value : Tree} : s.Holds v (.pair key value) ↔
    ∃ id k w, v = .node id ∧ s.cells[id]? = some (.pair k w) ∧ s.Holds k key ∧ s.Holds w value := Iff.rfl

theorem holds_set {members : List Scalar} : s.Holds v (.set members) ↔
    ∃ id, v = .node id ∧ s.cells[id]? = some (.set members) := Iff.rfl

theorem holds_object {entries : List (Scalar × Tree)} : s.Holds v (.object entries) ↔
    ∃ id values, v = .node id ∧ s.cells[id]? = some (.object values) ∧
      List.Forall₂ s.HoldsEntry values entries := by
  simp only [← holdsEntries_iff]
  rfl

@[simp] theorem not_holds_enclosing {isObject : Bool} : ¬ s.Holds v (.enclosing isObject) := id

/-- A value holds one tree at most. -/
theorem Holds.unique (h : s.Holds v t) (h' : s.Holds v t') : t = t' := by
  induction t using Tree.inductionOn generalizing v t' with
  | scalar x =>
    obtain rfl := holds_scalar.mp h
    cases t' with
    | scalar y => simpa using h'
    | _ => simp [Holds] at h'
  | list items ih =>
    obtain ⟨id, values, rfl, hcell, hitems⟩ := holds_list.mp h
    cases t' with
    | list items' =>
      obtain ⟨id', values', heq, hcell', hitems'⟩ := holds_list.mp h'
      obtain rfl : id = id' := by simpa using heq
      obtain rfl : values = values' := by simpa [hcell] using hcell'
      rw [forall₂_right_unique_of_mem (R := s.Holds) (fun t ht _ _ hv hv' => ih t ht hv hv') hitems
        hitems']
    | _ => simp [Holds, hcell] at h'
  | pair key value ihk ihv =>
    obtain ⟨id, k, w, rfl, hcell, hk, hw⟩ := holds_pair.mp h
    cases t' with
    | pair key' value' =>
      obtain ⟨id', k', w', heq, hcell', hk', hw'⟩ := holds_pair.mp h'
      obtain rfl : id = id' := by simpa using heq
      obtain ⟨rfl, rfl⟩ : k = k' ∧ w = w' := by simpa [hcell] using hcell'
      rw [ihk hk hk', ihv hw hw']
    | _ => simp [Holds, hcell] at h'
  | set members =>
    obtain ⟨id, rfl, hcell⟩ := holds_set.mp h
    cases t' with
    | set members' =>
      obtain ⟨id', heq, hcell'⟩ := holds_set.mp h'
      obtain rfl : id = id' := by simpa using heq
      obtain rfl : members = members' := by simpa [hcell] using hcell'
      rfl
    | _ => simp [Holds, hcell] at h'
  | object entries ih =>
    obtain ⟨id, values, rfl, hcell, hentries⟩ := holds_object.mp h
    cases t' with
    | object entries' =>
      obtain ⟨id', values', heq, hcell', hentries'⟩ := holds_object.mp h'
      obtain rfl : id = id' := by simpa using heq
      obtain rfl : values = values' := by simpa [hcell] using hcell'
      rw [forall₂_right_unique_of_mem (R := s.HoldsEntry) (fun e he _ _ hv hv' =>
        Prod.ext (hv.1.symm.trans hv'.1) (ih e he hv.2 hv'.2)) hentries hentries']
    | _ => simp [Holds, hcell] at h'
  | enclosing isObject => simp at h

theorem shape_eq_object {id : Nat} {entries : Entries Value} :
    s.shape v = .object id entries ↔ v = .node id ∧ s.cells[id]? = some (.object entries) := by
  unfold shape
  cases v with
  | scalar x => simp
  | node i =>
    cases hcell : s.cells[i]? with
    | none => grind
    | some cell => cases cell <;> grind

theorem shape_node {id : Nat} {entries : Entries Value}
    (hcell : s.cells[id]? = some (.object entries)) : s.shape (.node id) = .object id entries :=
  shape_eq_object.mpr ⟨rfl, hcell⟩

theorem shape_eq_pair {key value : Value} :
    s.shape v = .pair key value ↔ ∃ id, v = .node id ∧ s.cells[id]? = some (.pair key value) := by
  cases v with
  | scalar x => simp [shape]
  | node id =>
    simp only [shape]
    cases hcell : s.cells[id]? with
    | none => simp [hcell]
    | some cell => cases cell <;> simp [hcell]

theorem isText_iff {text : String} : s.isText v text = true ↔ v = .text text := by
  unfold isText
  cases v with
  | scalar a => cases a <;> simp [shape]
  | node id =>
    simp only [shape]
    cases s.cells[id]? with
    | none => simp
    | some cell => cases cell <;> simp

theorem eq_text_of_key {text : String} (h : s.key v = .ok (.text text)) : v = .text text := by
  cases v with
  | scalar a => simpa [key, shape] using h
  | node id =>
    simp only [key, shape] at h
    cases hcell : s.cells[id]? with
    | none => simp [hcell] at h
    | some cell => cases cell <;> simp [hcell] at h

theorem getD_eq_text {w : Option Value} {text : String} :
    w.getD .null = .text text ↔ w = some (.text text) := by
  cases w <;> simp

theorem getD_eq_node {w : Option Value} {id : Nat} :
    w.getD .null = .node id ↔ w = some (.node id) := by
  cases w <;> simp

theorem entries?_eq_some {entries : Entries Value} : s.entries? v = some entries ↔ ∃ id, s.shape v = .object id entries := by
  unfold entries?
  split
  · next id entries' hshape => simp [hshape]
  · next hnot =>
    constructor
    · simp
    · rintro ⟨id, hshape⟩
      exact absurd hshape (hnot id entries)

theorem shape_eq_list {id : Nat} {items : List Value} :
    s.shape v = .list id items ↔ v = .node id ∧ s.cells[id]? = some (.list items) := by
  unfold shape
  cases v with
  | scalar x => simp
  | node i =>
    cases hcell : s.cells[i]? with
    | none => grind
    | some cell => cases cell <;> grind

/-- An object holds an object with the same keys. -/
theorem Holds.object_of_shape {id : Nat} {values : Entries Value} (h : s.Holds v t)
    (hshape : s.shape v = .object id values) :
    ∃ entries, t = .object entries ∧ List.Forall₂ s.HoldsEntry values entries := by
  obtain ⟨rfl, hcell⟩ := shape_eq_object.mp hshape
  cases t with
  | object entries =>
    obtain ⟨id', values', heq, hcell', hentries⟩ := holds_object.mp h
    obtain rfl : id = id' := by simpa using heq
    obtain rfl : values = values' := by simpa [hcell] using hcell'
    exact ⟨entries, rfl, hentries⟩
  | _ => simp [Holds, hcell] at h

/-- A list holds a list. -/
theorem Holds.list_of_cell {id : Nat} {values : List Value} (h : s.Holds (.node id) t)
    (hcell : s.cells[id]? = some (.list values)) :
    ∃ items, t = .list items ∧ List.Forall₂ s.Holds values items := by
  cases t with
  | list items =>
    obtain ⟨id', values', heq, hcell', hitems⟩ := holds_list.mp h
    obtain rfl : id = id' := by simpa using heq
    obtain rfl : values = values' := by simpa [hcell] using hcell'
    exact ⟨items, rfl, hitems⟩
  | _ => simp [Holds, hcell] at h

/-- What holds an object is an object with the same keys. -/
theorem Holds.shape_object {entries : List (Scalar × Tree)} (h : s.Holds v (.object entries)) :
    ∃ id values, s.shape v = .object id values ∧ List.Forall₂ s.HoldsEntry values entries := by
  obtain ⟨id, values, rfl, hcell, hentries⟩ := holds_object.mp h
  exact ⟨id, values, shape_eq_object.mpr ⟨rfl, hcell⟩, hentries⟩

/-- What holds no object has no entries. -/
theorem Holds.entries?_eq_none (h : s.Holds v t) (hnot : ∀ entries, t ≠ .object entries) :
    s.entries? v = none := by
  unfold entries?
  split
  · next id values hshape =>
    obtain ⟨entries, rfl, -⟩ := h.object_of_shape hshape
    exact absurd rfl (hnot entries)
  · rfl

/-- Entries that spell out trees have the keys of those trees. -/
theorem keys_eq_of_holds {values : Entries Value} {entries : List (Scalar × Tree)}
    (h : List.Forall₂ s.HoldsEntry values entries) : values.keys = Entries.keys entries := by
  induction h with
  | nil => rfl
  | cons he _ ih =>
    simp only [Entries.keys, List.map_cons, List.cons.injEq]
    exact ⟨he.1, ih⟩

/-- A key leads to a value just where it leads to a tree, and the value holds that tree. -/
theorem get?_of_holds {values : Entries Value} {entries : List (Scalar × Tree)} (key : Scalar)
    (h : List.Forall₂ s.HoldsEntry values entries) :
    (values.get? key = none ∧ Entries.get? key entries = none) ∨
      ∃ v t, values.get? key = some v ∧ Entries.get? key entries = some t ∧ s.Holds v t := by
  induction h with
  | nil => exact .inl ⟨rfl, rfl⟩
  | @cons value entry _ _ he _ ih =>
    obtain ⟨k, v⟩ := value
    obtain ⟨k', t⟩ := entry
    obtain ⟨rfl, hheld⟩ : k = k' ∧ s.Holds v t := he
    unfold Entries.get?
    split
    · exact .inr ⟨v, t, rfl, rfl, hheld⟩
    · exact ih

section

variable {values : Entries Value} {entries : List (Scalar × Tree)} {key : Scalar}
  (h : List.Forall₂ s.HoldsEntry values entries)
include h

/-- A value under a key holds the tree that is under it. -/
theorem exists_tree_of_get? (hv : values.get? key = some v) :
    ∃ t, Entries.get? key entries = some t ∧ s.Holds v t := by
  rcases get?_of_holds key h with ⟨hnone, -⟩ | ⟨w, t, hw, ht, hheld⟩
  · simp [hv] at hnone
  · obtain rfl : v = w := by simpa [hv] using hw
    exact ⟨t, ht, hheld⟩

/-- A tree under a key is held by the value that is under it. -/
theorem exists_value_of_get? (ht : Entries.get? key entries = some t) :
    ∃ v, values.get? key = some v ∧ s.Holds v t := by
  rcases get?_of_holds key h with ⟨-, hnone⟩ | ⟨v, u, hv, hu, hheld⟩
  · simp [ht] at hnone
  · obtain rfl : t = u := by simpa [ht] using hu
    exact ⟨v, hv, hheld⟩

end

/-- The value under a key holds the tree under that key. -/
theorem Holds.field {id : Nat} {values : Entries Value} {key : String} (h : s.Holds (.node id) t)
    (hcell : s.cells[id]? = some (.object values)) (hget : values.get? key = some v) :
    ∃ u, t.field? key = some u ∧ s.Holds v u := by
  obtain ⟨entries, rfl, hentries⟩ := h.object_of_shape (shape_node hcell)
  exact exists_tree_of_get? hentries hget

/-- A reference is told by the tree that it holds. -/
theorem Holds.isReference_eq (h : s.Holds v t) : s.isReference v = t.isReference := by
  cases t with
  | object entries =>
    obtain ⟨id, values, hshape, hheld⟩ := h.shape_object
    rw [isReference, show s.entries? v = some values by simp [entries?, hshape]]
    rcases get?_of_holds referenceKey hheld with ⟨hnone, hnone'⟩ | ⟨v, t, hsome, hsome', -⟩
    · simp [Tree.isReference, Entries.has, hnone, hnone']
    · simp [Tree.isReference, Entries.has, hsome, hsome']
  | _ => simp [isReference, h.entries?_eq_none (by simp), Tree.isReference]

/-! ## Nodes below a value -/

/-- The node is the value itself or lies below it. -/
inductive Reaches (s : Store) : Value → Nat → Prop
  | here (id : Nat) : Reaches s (.node id) id
  | part {id id' : Nat} {cell : Cell} {w : Value} (hcell : s.cells[id]? = some cell)
      (hpart : w ∈ cell.parts) (h : Reaches s w id') : Reaches s (.node id) id'

theorem shape_eq_of_agree (hagree : ∀ id, s.Reaches v id → s'.cells[id]? = s.cells[id]?) :
    s'.shape v = s.shape v := by
  cases v with
  | scalar x => rfl
  | node id => simp only [shape, hagree id (.here id)]

/-- The tree that is read off a value depends only on the nodes below it. -/
theorem treeInside_eq_of_agree {depth : Nat} {around : List Nat}
    (hagree : ∀ id, s.Reaches v id → s'.cells[id]? = s.cells[id]?) :
    s'.treeInside depth around v = s.treeInside depth around v := by
  induction depth generalizing v around with
  | zero => rfl
  | succ depth ih =>
    have hpart : ∀ {id : Nat} {cell : Cell}, v = .node id → s.cells[id]? = some cell →
        ∀ w ∈ cell.parts, ∀ around,
          s'.treeInside depth around w = s.treeInside depth around w := by
      rintro id cell rfl hcell w hw around
      exact ih fun i hi => hagree i (.part hcell hw hi)
    unfold treeInside
    rw [shape_eq_of_agree hagree]
    cases hshape : s.shape v with
    | scalar x => rfl
    | list id items =>
      obtain ⟨rfl, hcell⟩ := shape_eq_list.mp hshape
      have hitems : ∀ around, items.map (s'.treeInside depth around) =
          items.map (s.treeInside depth around) := fun around =>
        List.map_congr_left fun w hw => hpart rfl hcell w hw around
      simp only [hitems]
    | pair key value =>
      obtain ⟨id, rfl, hcell⟩ := shape_eq_pair.mp hshape
      simp only [hpart rfl hcell key (by simp [Cell.parts]),
        hpart rfl hcell value (by simp [Cell.parts])]
    | set members => rfl
    | object id entries =>
      obtain ⟨rfl, hcell⟩ := shape_eq_object.mp hshape
      have hentries : ∀ around,
          (entries.map fun entry => (entry.1, s'.treeInside depth around entry.2)) =
            entries.map fun entry => (entry.1, s.treeInside depth around entry.2) := fun around =>
        List.map_congr_left fun e he => by
          rw [hpart rfl hcell e.2 (List.mem_map_of_mem he) around]
      simp only [hentries]

theorem tree_eq_of_agree (hagree : ∀ id, s.Reaches v id → s'.cells[id]? = s.cells[id]?)
    (hsize : s'.cells.size = s.cells.size) : s'.tree v = s.tree v := by
  unfold tree
  rw [hsize, treeInside_eq_of_agree hagree]

/-- What an entry of a schema becomes in the tree of the schema. -/
def entryTree (s : Store) (depth : Nat) (entry : Scalar × Value) : Except Misfit (Scalar × Tree) := do
  match entry.1, s.shape entry.2 with
  | .text "properties", .object _ properties =>
    let schemas ← properties.mapM fun p => do return (p.1, ← s.schemaTree depth p.2)
    return (entry.1, .object schemas)
  | .text "items", .object .. => return (entry.1, ← s.schemaTree depth entry.2)
  | _, _ => return (entry.1, s.tree entry.2)

theorem schemaTree_object {depth id : Nat} {entries : List (Scalar × Value)}
    (h : s.shape v = .object id entries) :
    s.schemaTree (depth + 1) v = Tree.object <$> entries.mapM (s.entryTree depth) := by
  rw [schemaTree, h]
  rfl

theorem schemaTree_eq_of_agree {depth : Nat}
    (hagree : ∀ id, s.Reaches v id → s'.cells[id]? = s.cells[id]?)
    (hsize : s'.cells.size = s.cells.size) : s'.schemaTree depth v = s.schemaTree depth v := by
  induction depth generalizing v with
  | zero => rfl
  | succ depth ih =>
    have hshape' := shape_eq_of_agree hagree
    cases hshape : s.shape v with
    | object id entries =>
      obtain ⟨rfl, hcell⟩ := shape_eq_object.mp hshape
      rw [schemaTree_object (hshape'.trans hshape), schemaTree_object hshape]
      refine congrArg (Tree.object <$> ·) (mapM_congr_of_mem fun e he => ?_)
      have hbelow : ∀ i, s.Reaches e.2 i → s'.cells[i]? = s.cells[i]? := fun i hi =>
        hagree i (.part hcell (List.mem_map_of_mem he) hi)
      unfold entryTree
      simp only [shape_eq_of_agree hbelow, tree_eq_of_agree hbelow hsize, ih hbelow]
      split
      · next pid properties _ hproperties =>
        obtain ⟨hnode, hcell'⟩ := shape_eq_object.mp hproperties
        have hschemas : properties.mapM (fun p => do return (p.1, ← s'.schemaTree depth p.2)) =
            properties.mapM fun p => do return (p.1, ← s.schemaTree depth p.2) :=
          mapM_congr_of_mem fun p hp => by
            simp only [ih fun i hi => hbelow i (hnode ▸ .part hcell' (List.mem_map_of_mem hp) hi)]
        rw [hschemas]
      · rfl
      · rfl
    | _ =>
      rw [schemaTree, schemaTree, hshape', hshape]
      exact congrArg Except.ok (tree_eq_of_agree hagree hsize)

/-- The shape key of a value depends only on the nodes below it. -/
theorem shapeKey_eq_of_agree (hagree : ∀ id, s.Reaches v id → s'.cells[id]? = s.cells[id]?)
    (hsize : s'.cells.size = s.cells.size) : s'.shapeKey v = s.shapeKey v := by
  unfold shapeKey
  rw [hsize, schemaTree_eq_of_agree hagree hsize]

theorem isReference_eq_of_agree (hagree : ∀ id, s.Reaches v id → s'.cells[id]? = s.cells[id]?) :
    s'.isReference v = s.isReference v := by
  unfold isReference entries?
  rw [shape_eq_of_agree hagree]

/-- What a value holds depends only on the nodes below it. -/
theorem Holds.frame (h : s.Holds v t)
    (hframe : ∀ id, s.Reaches v id → s'.cells[id]? = s.cells[id]?) : s'.Holds v t := by
  induction t using Tree.inductionOn generalizing v with
  | scalar x => simpa using h
  | list items ih =>
    obtain ⟨id, values, rfl, hcell, hitems⟩ := holds_list.mp h
    refine holds_list.mpr ⟨id, values, rfl, (hframe id (.here id)).trans hcell, ?_⟩
    refine forall₂_imp_of_mem (fun w hw t ht hheld => ih t ht hheld ?_) hitems
    exact fun id' hreach => hframe id' (.part hcell hw hreach)
  | pair key value ihk ihv =>
    obtain ⟨id, k, w, rfl, hcell, hk, hw⟩ := holds_pair.mp h
    refine holds_pair.mpr ⟨id, k, w, rfl, (hframe id (.here id)).trans hcell, ?_, ?_⟩
    · exact ihk hk fun id' hreach => hframe id' (.part hcell (by simp [Cell.parts]) hreach)
    · exact ihv hw fun id' hreach => hframe id' (.part hcell (by simp [Cell.parts]) hreach)
  | set members =>
    obtain ⟨id, rfl, hcell⟩ := holds_set.mp h
    exact holds_set.mpr ⟨id, rfl, (hframe id (.here id)).trans hcell⟩
  | object entries ih =>
    obtain ⟨id, values, rfl, hcell, hentries⟩ := holds_object.mp h
    refine holds_object.mpr ⟨id, values, rfl, (hframe id (.here id)).trans hcell, ?_⟩
    refine forall₂_imp_of_mem (fun e he t ht hheld => ⟨hheld.1, ih t ht hheld.2 ?_⟩) hentries
    exact fun id' hreach => hframe id' (.part hcell (List.mem_map_of_mem he) hreach)
  | enclosing isObject => simp at h

/-! ## Reading a tree -/

/-- Nodes that lie strictly above a place in which a tree is held. -/
def Above (s : Store) (t : Tree) (id : Nat) : Prop :=
  ∃ t', s.Holds (.node id) t' ∧ sizeOf t < sizeOf t'

theorem Above.mono {id : Nat} (h : s.Above t id) (hsize : sizeOf t' ≤ sizeOf t) :
    s.Above t' id := by
  obtain ⟨u, hu, hlt⟩ := h
  exact ⟨u, hu, by omega⟩

/-- A node that holds a tree lies above the parts of the tree, and it is none of the nodes above
itself. -/
theorem not_above_self {id : Nat} (h : s.Holds (.node id) t) : ¬ s.Above t id := by
  rintro ⟨t', h', hlt⟩
  rw [h.unique h'] at hlt
  exact lt_irrefl _ hlt

theorem Holds.lt_size {id : Nat} (h : s.Holds (.node id) t) : id < s.cells.size := by
  have hcell : ∃ cell, s.cells[id]? = some cell := by
    cases t with
    | scalar => cases h
    | list | object =>
      obtain ⟨_, _, ⟨⟩, hcell, -⟩ := h
      exact ⟨_, hcell⟩
    | pair =>
      obtain ⟨_, _, _, ⟨⟩, hcell, -⟩ := h
      exact ⟨_, hcell⟩
    | set =>
      obtain ⟨_, ⟨⟩, hcell⟩ := h
      exact ⟨_, hcell⟩
    | enclosing => cases h
  obtain ⟨cell, hcell⟩ := hcell
  exact (Array.getElem?_eq_some_iff.mp hcell).1

/-- The nodes above a place are fewer than all nodes, the more so with the place itself. -/
theorem card_above_le {used : Finset Nat} (hused : ∀ id ∈ used, s.Above t id) :
    used.card ≤ s.cells.size := by
  have hsub : used ⊆ Finset.range s.cells.size := by
    intro id hid
    obtain ⟨t', h', _⟩ := hused id hid
    exact Finset.mem_range.mpr h'.lt_size
  simpa using Finset.card_le_card hsub

/-- Going into a node uses up one of the nodes that are left for the places below. -/
theorem above_insert {id : Nat} {used : Finset Nat} (h : s.Holds (.node id) t)
    (hused : ∀ i ∈ used, s.Above t i) (hlt : sizeOf t' < sizeOf t) :
    (∀ i ∈ insert id used, s.Above t' i) ∧ (insert id used).card = used.card + 1 := by
  refine ⟨fun i hi => ?_, Finset.card_insert_of_notMem fun hid => not_above_self h (hused id hid)⟩
  rcases Finset.mem_insert.mp hi with rfl | hmem
  · exact ⟨t, h, hlt⟩
  · exact (hused i hmem).mono hlt.le

/-- The bound on the depth is never met inside of a tree that is held, since every path in it
meets each node once. -/
theorem Holds.treeInside_eq {depth : Nat} {around : List Nat} {used : Finset Nat}
    (h : s.Holds v t) (hused : ∀ id ∈ used, s.Above t id) (haround : ∀ id ∈ around, id ∈ used)
    (hdepth : s.cells.size < depth + used.card) : s.treeInside depth around v = t := by
  induction t using Tree.inductionOn generalizing v depth around used with
  | scalar x =>
    obtain rfl := holds_scalar.mp h
    cases depth with
    | zero => exact absurd hdepth (by have := card_above_le hused; omega)
    | succ depth => simp [treeInside, shape]
  | list items ih =>
    obtain ⟨id, values, rfl, hcell, hitems⟩ := holds_list.mp h
    cases depth with
    | zero => exact absurd hdepth (by have := card_above_le hused; omega)
    | succ depth =>
      have hout : around.contains id = false := by
        by_contra hc
        exact not_above_self h (hused id (haround id (by simpa using hc)))
      simp only [treeInside, shape, hcell, hout, Bool.false_eq_true, if_false, Tree.list.injEq]
      rw [← List.forall₂_eq_eq_eq, List.forall₂_map_left_iff]
      refine forall₂_imp_of_mem (fun w _ t ht hw => ?_) hitems
      obtain ⟨habove, hcard⟩ := above_insert h hused (Tree.sizeOf_item_lt ht)
      refine ih t ht hw habove (fun i hi => ?_) (by omega)
      rcases List.mem_cons.mp hi with rfl | hmem
      · exact Finset.mem_insert_self _ _
      · exact Finset.mem_insert_of_mem (haround i hmem)
  | pair key value ihk ihv =>
    obtain ⟨id, k, w, rfl, hcell, hk, hw⟩ := holds_pair.mp h
    cases depth with
    | zero => exact absurd hdepth (by have := card_above_le hused; omega)
    | succ depth =>
      have hinsert (i : Nat) (hi : i ∈ around) : i ∈ insert id used :=
        Finset.mem_insert_of_mem (haround i hi)
      obtain ⟨habovek, hcard⟩ := above_insert h hused (Tree.sizeOf_key_lt key value)
      obtain ⟨habovev, _⟩ := above_insert h hused (Tree.sizeOf_value_lt key value)
      simp only [treeInside, shape, hcell]
      rw [ihk hk habovek hinsert (by omega), ihv hw habovev hinsert (by omega)]
  | set members =>
    obtain ⟨id, rfl, hcell⟩ := holds_set.mp h
    cases depth with
    | zero => exact absurd hdepth (by have := card_above_le hused; omega)
    | succ depth => simp [treeInside, shape, hcell]
  | object entries ih =>
    obtain ⟨id, values, rfl, hcell, hentries⟩ := holds_object.mp h
    cases depth with
    | zero => exact absurd hdepth (by have := card_above_le hused; omega)
    | succ depth =>
      have hout : around.contains id = false := by
        by_contra hc
        exact not_above_self h (hused id (haround id (by simpa using hc)))
      simp only [treeInside, shape, hcell, hout, Bool.false_eq_true, if_false, Tree.object.injEq]
      rw [← List.forall₂_eq_eq_eq, List.forall₂_map_left_iff]
      refine forall₂_imp_of_mem (fun w _ e he hw => ?_) hentries
      obtain ⟨habove, hcard⟩ := above_insert h hused (Tree.sizeOf_entry_lt he)
      refine Prod.ext hw.1 (ih e he hw.2 habove (fun i hi => ?_) (by omega))
      rcases List.mem_cons.mp hi with rfl | hmem
      · exact Finset.mem_insert_self _ _
      · exact Finset.mem_insert_of_mem (haround i hmem)
  | enclosing isObject => simp at h

/-- The tree that is read off a store is the one that it holds. -/
theorem Holds.tree_eq (h : s.Holds v t) : s.tree v = t :=
  have hused : ∀ id ∈ (∅ : Finset Nat), s.Above t id := by simp
  h.treeInside_eq hused (by simp) (by simp; omega)

/-- The tree of a schema is read off in full as well. -/
theorem Holds.schemaTree_eq {depth : Nat} {used : Finset Nat} (h : s.Holds v t)
    (hused : ∀ id ∈ used, s.Above t id) (hdepth : s.cells.size < depth + used.card) :
    s.schemaTree depth v = .ok t := by
  induction depth generalizing v t used with
  | zero => exact absurd hdepth (by have := card_above_le hused; omega)
  | succ depth ih =>
    have hbelow {w : Value} {u : Tree} {id : Nat} (hw : s.Holds w u) (hv : s.Holds (.node id) t)
        (hlt : sizeOf u < sizeOf t) : s.schemaTree depth w = .ok u := by
      obtain ⟨habove, hcard⟩ := above_insert hv hused hlt
      exact ih hw habove (by omega)
    cases t with
    | object entries =>
      obtain ⟨id, values, rfl, hcell, hentries⟩ := holds_object.mp h
      have hentry : List.Forall₂ (fun w e => s.entryTree depth w = .ok e) values entries := by
        refine forall₂_imp_of_mem (fun w _ e he hw => ?_) hentries
        have hlt : sizeOf e.2 < sizeOf (Tree.object entries) := Tree.sizeOf_entry_lt he
        unfold entryTree
        split
        · next pid properties _ hshape =>
          obtain ⟨schemas, hschemas, hheld⟩ := hw.2.object_of_shape hshape
          have hrest : properties.mapM (fun p => do return (p.1, ← s.schemaTree depth p.2)) =
              Except.ok schemas := by
            refine mapM_eq_ok_of_forall₂ (forall₂_imp_of_mem (fun p _ q hq hp => ?_) hheld)
            rw [hbelow hp.2 h ((Tree.sizeOf_entry_lt hq).trans (hschemas ▸ hlt)), hp.1]
            rfl
          rw [hrest, hw.1]
          exact congrArg Except.ok (Prod.ext rfl hschemas.symm)
        · rw [hbelow hw.2 h hlt, hw.1]
          rfl
        · rw [hw.2.tree_eq, hw.1]
          rfl
      have hshape : s.shape (.node id) = .object id values := by simp [shape, hcell]
      rw [schemaTree_object hshape, mapM_eq_ok_of_forall₂ hentry]
      rfl
    | enclosing isObject => simp at h
    | _ =>
      rw [schemaTree]
      split
      · next hshape => obtain ⟨_, heq, _⟩ := h.object_of_shape hshape; simp at heq
      · rw [h.tree_eq]

/-- The shape key of a schema is that of the tree that it holds. -/
theorem Holds.shapeKey_eq (h : s.Holds v t) : s.shapeKey v = t.shapeKey := by
  have hused : ∀ id ∈ (∅ : Finset Nat), s.Above t id := by simp
  have htree : s.schemaTree (s.cells.size + 1) v = .ok t := h.schemaTree_eq hused (by simp)
  rw [Store.shapeKey, htree]
  rfl

end Store

end DeviceApi
