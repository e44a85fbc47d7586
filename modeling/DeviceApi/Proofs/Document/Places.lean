import DeviceApi.Proofs.Document.Frames
import Mathlib.Data.List.Pairwise

/-!
# Places of nodes

A node stands at a place of another one: under a key of an object, or in a list. Loading a tree
gives each node one place at most, and the node of the whole tree none.
-/

namespace DeviceApi

/-- The values that a cell is made of, each with its key if it has one. -/
def Cell.places : Cell → List (Option Scalar × Value)
  | .list items => items.map fun item => (none, item)
  | .pair key value => [(none, key), (none, value)]
  | .set _ => []
  | .object entries => entries.map fun e => (some e.1, e.2)

/-- The parts of a cell are what stands at its places. -/
theorem Cell.map_snd_places (cell : Cell) : cell.places.map Prod.snd = cell.parts := by
  cases cell <;> simp [places, parts, Entries.values]

theorem Cell.mem_places_object {entries : Entries Value} {key : Option Scalar} {v : Value} :
    (key, v) ∈ (Cell.object entries).places ↔ ∃ k, key = some k ∧ (k, v) ∈ entries := by
  simp only [places, List.mem_map, Prod.mk.injEq, Prod.exists]
  constructor
  · rintro ⟨k, w, hmem, rfl, rfl⟩
    exact ⟨k, rfl, hmem⟩
  · rintro ⟨k, rfl, hmem⟩
    exact ⟨k, v, hmem, rfl, rfl⟩

namespace Store

variable {s s' s'' : Store} {v w : Value} {t : Tree} {values : List Value} {cell : Cell}
  {id i j x : Nat} {key key' : Option Scalar}

/-- The node `x` stands in the node `i`, under the key if there is one. -/
def Stands (s : Store) (i : Nat) (key : Option Scalar) (x : Nat) : Prop :=
  ∃ cell, s.cells[i]? = some cell ∧ (key, Value.node x) ∈ cell.places

theorem stands_object {entries : Entries Value} (hcell : s.cells[i]? = some (.object entries)) :
    s.Stands i key x ↔ ∃ k, key = some k ∧ (k, .node x) ∈ entries := by
  constructor
  · rintro ⟨cell, hcell', hplace⟩
    obtain rfl : cell = .object entries := by simpa [hcell] using hcell'.symm
    exact Cell.mem_places_object.mp hplace
  · intro h
    exact ⟨_, hcell, Cell.mem_places_object.mpr h⟩

theorem Stands.of_cell_eq (h : s.Stands i key x) (heq : s'.cells[i]? = s.cells[i]?) :
    s'.Stands i key x := by
  obtain ⟨cell, hcell, hplace⟩ := h
  exact ⟨cell, heq.trans hcell, hplace⟩

theorem Stands.lt_size (h : s.Stands i key x) : i < s.cells.size := by
  obtain ⟨cell, hcell, -⟩ := h
  exact lt_size_of_cell hcell

/-- What a visit of a value meets are scalars and what stands in the value without a key. -/
theorem place_of_mem_elements {items : List Value} (h : s.elements v = .ok items) (hw : w ∈ items) :
    (∃ a, w = .scalar a) ∨
      ∃ i cell, v = .node i ∧ s.cells[i]? = some cell ∧ (none, w) ∈ cell.places := by
  cases v with
  | scalar a =>
    cases a <;> simp only [elements, shape, Except.ok.injEq, reduceCtorEq] at h <;>
      subst h <;> simp only [List.mem_map] at hw <;> grind
  | node i =>
    unfold elements shape at h
    cases hcell : s.cells[i]? with
    | none => simp [hcell] at h
    | some cell =>
      cases cell with
      | list items' =>
        obtain rfl : items' = items := by simpa [hcell] using h
        exact .inr ⟨i, _, rfl, hcell, List.mem_map_of_mem hw⟩
      | pair key value =>
        obtain rfl : [key, value] = items := by simpa [hcell] using h
        refine .inr ⟨i, _, rfl, hcell, ?_⟩
        rcases List.mem_pair.mp hw with rfl | rfl <;> simp [Cell.places]
      | set members =>
        obtain rfl : members.map .scalar = items := by simpa [hcell] using h
        obtain ⟨a, -, rfl⟩ := List.mem_map.mp hw
        exact .inl ⟨a, rfl⟩
      | object entries =>
        obtain rfl : entries.keys.map .scalar = items := by simpa [hcell] using h
        obtain ⟨a, -, rfl⟩ := List.mem_map.mp hw
        exact .inl ⟨a, rfl⟩

/-- A pair is visited as its key and its value. -/
theorem exists_elements_of_pair {key : Scalar} (h : s.pair v = .ok (key, w)) :
    ∃ k, s.elements v = .ok [k, w] := by
  unfold pair at h
  cases hitems : s.elements v with
  | error m => simp [hitems, bind, Except.bind] at h
  | ok items =>
    rw [hitems] at h
    match items, h with
    | [k, w'], h =>
      cases hkey : s.key k with
      | error m => simp [hkey, bind, Except.bind] at h
      | ok key' =>
        obtain ⟨-, rfl⟩ : key' = key ∧ w' = w := by
          simpa [hkey, bind, Except.bind, pure, Except.pure] using h
        exact ⟨k, rfl⟩

/-- Between the stores nodes have been added for the values. Each of the new nodes stands at one
place at most, and none of the values does. -/
structure Plants (s s' : Store) (values : List Value) : Prop extends Grows s s' where
  value_new : ∀ x, .node x ∈ values → s.cells.size ≤ x ∧ x < s'.cells.size
  nodup : values.Pairwise fun v w => ∀ x, v = .node x → w ≠ .node x
  inside : ∀ i key x, s.cells.size ≤ i → s'.Stands i key x → s.cells.size ≤ x ∧ x < i
  unplaced : ∀ i key x, s.cells.size ≤ i → s'.Stands i key x → .node x ∉ values
  unique : ∀ i j key key' x, s.cells.size ≤ i → s.cells.size ≤ j → s'.Stands i key x →
    s'.Stands j key' x → i = j ∧ key = key'

namespace Plants

theorem nil : Plants s s [] where
  toGrows := .refl s
  value_new := by simp
  nodup := .nil
  inside i _ _ hi h := absurd h.lt_size (by omega)
  unplaced i _ _ hi h := absurd h.lt_size (by omega)
  unique i _ _ _ _ hi _ h := absurd h.lt_size (by omega)

theorem scalar {a : Scalar} : Plants s s [.scalar a] where
  toGrows := .refl s
  value_new := by simp
  nodup := by simp
  inside i _ _ hi h := absurd h.lt_size (by omega)
  unplaced i _ _ hi h := absurd h.lt_size (by omega)
  unique i _ _ _ _ hi _ h := absurd h.lt_size (by omega)

/-- What stands in a node of the first part of the additions stood there before the second. -/
theorem stands_left (h' : Plants s' s'' values) (hi : i < s'.cells.size)
    (h : s''.Stands i key x) : s'.Stands i key x :=
  h.of_cell_eq (h'.agree i hi).symm

theorem cons (h : Plants s s' [v]) (h' : Plants s' s'' values) : Plants s s'' (v :: values) where
  toGrows := h.toGrows.trans h'.toGrows
  value_new x hx := by
    have hle := h.size_le
    have hle' := h'.size_le
    rcases List.mem_cons.mp hx with heq | hmem
    · have hnew := h.value_new x (by simp [heq])
      omega
    · have hnew := h'.value_new x hmem
      omega
  nodup := by
    refine List.pairwise_cons.mpr ⟨?_, h'.nodup⟩
    rintro w hw x rfl rfl
    have hold := h.value_new x (by simp)
    have hnew := h'.value_new x hw
    omega
  inside i key x hi hstands := by
    have hle := h.size_le
    by_cases hlt : i < s'.cells.size
    · exact h.inside i key x hi (h'.stands_left hlt hstands)
    · have hinside := h'.inside i key x (by omega) hstands
      omega
  unplaced i key x hi hstands hx := by
    by_cases hlt : i < s'.cells.size
    · have hold := h'.stands_left hlt hstands
      have hinside := h.inside i key x hi hold
      rcases List.mem_cons.mp hx with heq | hmem
      · exact h.unplaced i key x hi hold (by simp [heq])
      · have hnew := h'.value_new x hmem
        omega
    · have hinside := h'.inside i key x (by omega) hstands
      rcases List.mem_cons.mp hx with heq | hmem
      · have hnew := h.value_new x (by simp [heq])
        omega
      · exact h'.unplaced i key x (by omega) hstands hmem
  unique i j key key' x hi hj hstands hstands' := by
    by_cases hlt : i < s'.cells.size
    · have hold := h'.stands_left hlt hstands
      have hinside := h.inside i key x hi hold
      by_cases hlt' : j < s'.cells.size
      · exact h.unique i j key key' x hi hj hold (h'.stands_left hlt' hstands')
      · have hinside' := h'.inside j key' x (by omega) hstands'
        omega
    · have hinside := h'.inside i key x (by omega) hstands
      by_cases hlt' : j < s'.cells.size
      · have hinside' := h.inside j key' x hj (h'.stands_left hlt' hstands')
        omega
      · exact h'.unique i j key key' x (by omega) (by omega) hstands hstands'

/-- A node whose parts are what has been added is added over them. -/
theorem add (h : Plants s s' values) (hparts : cell.parts = values) :
    Plants s (s'.add cell).2 [(s'.add cell).1] := by
  have hold : ∀ i key x, i < s'.cells.size → (s'.add cell).2.Stands i key x →
      s'.Stands i key x := fun i key x hi hstands =>
    hstands.of_cell_eq (by rw [cells_add, if_neg (by omega)])
  have hnew : ∀ key x, (s'.add cell).2.Stands s'.cells.size key x →
      (key, .node x) ∈ cell.places := by
    rintro key x ⟨cell', hcell', hplace⟩
    rw [cells_add, if_pos rfl, Option.some.injEq] at hcell'
    exact hcell' ▸ hplace
  have hvalue : ∀ key x, (key, .node x) ∈ cell.places → .node x ∈ values := by
    intro key x hplace
    rw [← hparts, ← Cell.map_snd_places]
    exact List.mem_map_of_mem hplace
  have hlast : ∀ i key x, (s'.add cell).2.Stands i key x → i ≤ s'.cells.size := by
    intro i key x hstands
    have := hstands.lt_size
    rw [size_add] at this
    omega
  refine ⟨h.toGrows.trans (.add s' cell), fun x hx => ?_, by simp,
    fun i key x hi hstands => ?_, fun i key x hi hstands hx => ?_,
    fun i j key key' x hi hj hstands hstands' => ?_⟩
  · obtain rfl : x = s'.cells.size := by simpa [Store.add] using hx
    exact ⟨h.size_le, by simp⟩
  · rcases (hlast i key x hstands).lt_or_eq with hlt | rfl
    · exact h.inside i key x hi (hold i key x hlt hstands)
    · exact h.value_new x (hvalue key x (hnew key x hstands))
  · obtain rfl : x = s'.cells.size := by simpa [Store.add] using hx
    rcases (hlast i key _ hstands).lt_or_eq with hlt | rfl
    · have := h.inside i key _ hi (hold i key _ hlt hstands)
      omega
    · have := h.value_new _ (hvalue key _ (hnew key _ hstands))
      omega
  · rcases (hlast i key x hstands).lt_or_eq with hlt | rfl <;>
      rcases (hlast j key' x hstands').lt_or_eq with hlt' | rfl
    · exact h.unique i j key key' x hi hj (hold i key x hlt hstands) (hold j key' x hlt' hstands')
    · exact absurd (hvalue key' x (hnew key' x hstands'))
        (h.unplaced i key x hi (hold i key x hlt hstands))
    · exact absurd (hvalue key x (hnew key x hstands))
        (h.unplaced j key' x hj (hold j key' x hlt' hstands'))
    · refine ⟨rfl, ?_⟩
      have hnodup := h.nodup
      rw [← hparts, ← Cell.map_snd_places, List.pairwise_map] at hnodup
      have : Std.Symm fun p q : Option Scalar × Value => ∀ x, p.2 = .node x → q.2 ≠ .node x :=
        ⟨fun p q hpq x hq hp => hpq x hp hq⟩
      by_contra hne
      exact hnodup.forall (hnew key x hstands) (hnew key' x hstands')
        (fun heq => hne (congrArg Prod.fst heq)) x rfl rfl

end Plants

/-- Loading a tree plants it. -/
theorem plants_load (t : Tree) (s : Store) : Plants s (s.load t).2 [(s.load t).1] := by
  induction t using Tree.inductionOn generalizing s with
  | scalar x => exact .scalar
  | list items ih =>
    have hitems : Plants s (s.loadItems items).2 (s.loadItems items).1 := by
      induction items generalizing s with
      | nil => exact .nil
      | cons t ts ihs =>
        exact (ih t List.mem_cons_self s).cons
          (ihs (fun t ht => ih t (List.mem_cons_of_mem _ ht)) _)
    exact hitems.add rfl
  | pair key value ihk ihv => exact ((ihk s).cons (ihv (s.load key).2)).add rfl
  | set members => exact Plants.nil.add rfl
  | object entries ih =>
    have hentries : Plants s (s.loadEntries entries).2 (s.loadEntries entries).1.values := by
      induction entries generalizing s with
      | nil => exact .nil
      | cons e rest ihs =>
        exact (ih e List.mem_cons_self s).cons
          (ihs (fun e he => ih e (List.mem_cons_of_mem _ he)) _)
    exact hentries.add rfl
  | enclosing isObject => exact .scalar

/-- Every node stands at one place at most, and the root at none. -/
structure Tidy (s : Store) (root : Nat) : Prop where
  root_lt : root < s.cells.size
  inside : ∀ i key x, s.Stands i key x → x < s.cells.size ∧ x ≠ root
  unique : ∀ i j key key' x, s.Stands i key x → s.Stands j key' x → i = j ∧ key = key'

/-- A document that has just been loaded is tidy. -/
theorem tidy_load {t : Tree} {root : Nat} (h : (Store.empty.load t).1 = .node root) :
    (Store.empty.load t).2.Tidy root := by
  have hplants := plants_load t Store.empty
  rw [h] at hplants
  have hroot := hplants.value_new root (by simp)
  refine ⟨hroot.2, fun i key x hstands => ?_, fun i j key key' x hstands hstands' => ?_⟩
  · have hinside := hplants.inside i key x (Nat.zero_le i) hstands
    refine ⟨hinside.2.trans hstands.lt_size, fun heq => ?_⟩
    exact hplants.unplaced i key x (Nat.zero_le i) hstands (by simp [heq])
  · exact hplants.unique i j key key' x (Nat.zero_le i) (Nat.zero_le j) hstands hstands'

/-! ## Places below a value -/

theorem exists_stands_of_part {cell : Cell} (hcell : s.cells[i]? = some cell) (hpart : .node x ∈ cell.parts) :
    ∃ key, s.Stands i key x := by
  rw [← Cell.map_snd_places] at hpart
  obtain ⟨⟨key, w⟩, hplace, rfl⟩ := List.mem_map.mp hpart
  exact ⟨key, cell, hcell, hplace⟩

theorem Stands.reaches (h : s.Stands i key x) : s.Reaches (.node i) x := by
  obtain ⟨cell, hcell, hplace⟩ := h
  exact .part hcell (Cell.map_snd_places cell ▸ List.mem_map_of_mem hplace) (.here x)

/-- Induction from a value down to the nodes below it. -/
theorem Reaches.stands_induct {P : Nat → Prop} (h : s.Reaches v j) (hinit : ∀ x, v = .node x → P x)
    (hstep : ∀ i key x, s.Reaches v i → s.Stands i key x → P i → P x) : P j := by
  induction h with
  | here id => exact hinit id rfl
  | @part id j cell w hcell hpart hbelow ih =>
    refine ih ?_ fun i key x hi => hstep i key x (.part hcell hpart hi)
    rintro x rfl
    obtain ⟨key, hx⟩ := exists_stands_of_part hcell hpart
    exact hstep id key x (.here id) hx (hinit id rfl)

/-- A node below a value is the value itself or stands in another node below it. -/
theorem Reaches.eq_or_stands (h : s.Reaches v j) :
    v = .node j ∨ ∃ i key, s.Reaches v i ∧ s.Stands i key j := by
  refine h.stands_induct (P := fun j => v = .node j ∨ ∃ i key, s.Reaches v i ∧ s.Stands i key j)
    (fun _ hx => .inl hx) fun i key _ hi hx _ => .inr ⟨i, key, hi, hx⟩

/-- Below the value every node stands at one place, and the value at none. -/
structure Unfolds (s : Store) (v : Value) : Prop where
  unplaced : ∀ i key x, s.Reaches v i → s.Stands i key x → v ≠ .node x
  unique : ∀ i j key key' x, s.Reaches v i → s.Reaches v j → s.Stands i key x → s.Stands j key' x →
    i = j ∧ key = key'

/-- Of two nodes above a third one is above the other. -/
theorem Unfolds.reaches_or_reaches {x' : Nat} (h : s.Unfolds v) (hx : s.Reaches v x)
    (hx' : s.Reaches v x') (hj : s.Reaches (.node x) j) :
    s.Reaches (.node x') j → s.Reaches (.node x) x' ∨ s.Reaches (.node x') x := by
  refine hj.stands_induct (P := fun j => s.Reaches (.node x') j →
    s.Reaches (.node x) x' ∨ s.Reaches (.node x') x) (fun y hy hj' => ?_) fun i key y hi hy ih hj' => ?_
  · obtain rfl : x = y := by simpa using hy
    exact .inr hj'
  · rcases hj'.eq_or_stands with heq | ⟨i', key', hi', hy'⟩
    · obtain rfl : x' = y := by simpa using heq
      exact .inl (hi.trans hy.reaches)
    · obtain ⟨rfl, -⟩ := h.unique _ _ _ _ y (hx.trans hi) (hx'.trans hi') hy hy'
      exact ih hi'

/-- Different places in one node have no nodes in common. -/
theorem Unfolds.key_eq {t : Tree} {x' : Nat} (h : s.Unfolds v) (hv : s.Holds v t) (hi : s.Reaches v i)
    (hx : s.Stands i key x) (hx' : s.Stands i key' x') (hj : s.Reaches (.node x) j)
    (hj' : s.Reaches (.node x') j) : key = key' := by
  have hcycle : ∀ {k y}, s.Stands i k y → ¬ s.Reaches (.node y) i := by
    rintro k y ⟨cell, hcell, hplace⟩ hreach
    obtain ⟨u, hu, -⟩ := hv.of_reaches hi
    exact hu.not_reaches_of_part hcell (Cell.map_snd_places cell ▸ List.mem_map_of_mem hplace) hreach
  rcases h.reaches_or_reaches (hi.trans hx.reaches) (hi.trans hx'.reaches) hj hj' with hbelow | hbelow
  · rcases hbelow.eq_or_stands with heq | ⟨p, k, hp, hpx⟩
    · obtain rfl : x = x' := by simpa using heq
      exact (h.unique _ _ _ _ _ hi hi hx hx').2
    · obtain ⟨rfl, -⟩ := h.unique _ _ _ _ _ ((hi.trans hx.reaches).trans hp) hi hpx hx'
      exact absurd hp (hcycle hx)
  · rcases hbelow.eq_or_stands with heq | ⟨p, k, hp, hpx⟩
    · obtain rfl : x' = x := by simpa using heq
      exact (h.unique _ _ _ _ _ hi hi hx hx').2
    · obtain ⟨rfl, -⟩ := h.unique _ _ _ _ _ ((hi.trans hx'.reaches).trans hp) hi hpx hx
      exact absurd hp (hcycle hx')

/-- A value that has just been loaded unfolds. -/
theorem unfolds_load (t : Tree) (s : Store) : (s.load t).2.Unfolds (s.load t).1 := by
  have hplants := plants_load t s
  have hfresh : ∀ i, (s.load t).2.Reaches (s.load t).1 i → s.cells.size ≤ i :=
    (loads_load t s).fresh _ List.mem_cons_self
  refine ⟨fun i key x hi hx heq => hplants.unplaced i key x (hfresh i hi) hx (by simp [heq]),
    fun i j key key' x hi hj => hplants.unique i j key key' x (hfresh i hi) (hfresh j hj)⟩

end Store

end DeviceApi
