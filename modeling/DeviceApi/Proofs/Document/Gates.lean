import DeviceApi.Api.Role
import DeviceApi.Proofs.Document.Places
import Mathlib.Data.Set.Insert

/-!
# Gates

A gate is a node that stands under one key of one node and nowhere else. The gates of a document
are the nodes on the way from its root to the table of schemas, and on demand those on the way to
its operations. As long as what is put anywhere is neither the root nor a gate, every path to a gate
is the one that it had in the beginning.
-/

namespace DeviceApi

/-- A node with the only place at which it may stand. -/
structure Gate where
  owner : Nat
  key : String
  node : Nat

/-- A store with the nodes that may be part of the document. -/
structure View where
  store : Store
  known : Set Nat

/-- The keys on the way to the paths and to the table of a document. -/
def wayKeys : List String := ["paths", "components", "schemas"]

/-- The keys under which gates stand, the paths aside. -/
def gateKeys : List String := wayKeys ++ Method.all.map Method.text

/-- The node holds the paths, and gates stand in it. They do so under any keys. -/
def Crowded (root : Nat) (gates : Set Gate) (id : Nat) : Prop :=
  ⟨root, "paths", id⟩ ∈ gates ∧ ∃ g ∈ gates, g.owner = id

/-- Each gate stands in the root or in another gate. -/
structure Passage (root : Nat) (gates : Set Gate) : Prop where
  owner : ∀ g ∈ gates, g.owner = root ∨ ∃ g' ∈ gates, g'.node = g.owner
  key : ∀ g ∈ gates, g.key ∈ gateKeys ∨ ⟨root, "paths", g.owner⟩ ∈ gates

/-- Outside of the paths, a gate stands under one of a few keys. -/
theorem Passage.ne_key {root id : Nat} {gates : Set Gate} {k : String} (h : Passage root gates)
    (hid : ¬ Crowded root gates id) (hk : k ∉ gateKeys) : ∀ g ∈ gates, g.owner = id → k ≠ g.key := by
  rintro g hg rfl rfl
  exact (h.key g hg).elim hk fun hpaths => hid ⟨hpaths, g, hg, rfl⟩

/-- The value is a scalar or a known node. -/
def View.Linked (view : View) (v : Value) : Prop := ∀ x, v = .node x → x ∈ view.known

/-- The value may be put anywhere: it is a scalar, or a known node other than the root and the
gates. -/
def View.Free (root : Nat) (gates : Set Gate) (view : View) (v : Value) : Prop :=
  ∀ x, v = .node x → x ∈ view.known ∧ x ≠ root ∧ ∀ g ∈ gates, x ≠ g.node

/-- Something may be put into the value, if it is a node: it is a known node other than the root, no
gate stands in it, and it does not lie on the way to the table. -/
def View.Writable (root : Nat) (gates : Set Gate) (view : View) (v : Value) : Prop :=
  ∀ x, v = .node x → x ∈ view.known ∧ x ≠ root ∧
    ∀ g ∈ gates, g.owner ≠ x ∧ (g.node = x → g.key ∉ wayKeys)

/-- Among the known nodes the root stands nowhere, and a gate at its own place only. -/
structure View.Gated (root : Nat) (gates : Set Gate) (view : View) : Prop where
  lt : ∀ i ∈ view.known, i < view.store.cells.size
  root_known : root ∈ view.known
  gate_known : ∀ g ∈ gates, g.node ∈ view.known
  known_of_stands : ∀ i key x, i ∈ view.known → view.store.Stands i key x →
    x ∈ view.known ∧ x ≠ root
  only : ∀ g ∈ gates, ∀ i key, i ∈ view.known → view.store.Stands i key g.node →
    i = g.owner ∧ key = some (.text g.key)
  stands : ∀ g ∈ gates, ∃ entries : Entries Value,
    view.store.cells[g.owner]? = some (.object entries) ∧
      entries.get? (.text g.key) = some (.node g.node)

namespace View

variable {root : Nat} {gates : Set Gate} {view : View} {s s' : Store} {K K' : Set Nat}
  {v w : Value} {cell : Cell} {i x : Nat} {key : Option Scalar} {entries entries' : Entries Value}

theorem Free.linked (h : view.Free root gates v) : view.Linked v := fun x hx => (h x hx).1

@[simp] theorem linked_scalar {a : Scalar} : view.Linked (.scalar a) := by simp [Linked]

@[simp] theorem free_scalar {a : Scalar} : view.Free root gates (.scalar a) := by simp [Free]

theorem Linked.mono (h : View.Linked ⟨s, K⟩ v) (hsub : K ⊆ K') : View.Linked ⟨s', K'⟩ v :=
  fun x hx => hsub (h x hx)

theorem Free.mono (h : View.Free root gates ⟨s, K⟩ v) (hsub : K ⊆ K') :
    View.Free root gates ⟨s', K'⟩ v := fun x hx => ⟨hsub (h x hx).1, (h x hx).2⟩

/-- A gate does not stand in a free node. -/
theorem Free.not_owner (h : view.Free root gates (.node i)) (hpassage : Passage root gates) :
    ∀ g ∈ gates, g.owner ≠ i := by
  rintro g hg rfl
  obtain ⟨-, hroot, hgate⟩ := h _ rfl
  rcases hpassage.owner g hg with heq | ⟨g', hg', heq⟩
  · exact hroot heq
  · exact hgate g' hg' heq.symm

/-- What may be put anywhere may be written to as well. -/
theorem Free.writable (h : view.Free root gates v) (hpassage : Passage root gates) :
    view.Writable root gates v := by
  rintro x rfl
  obtain ⟨hknown, hroot, hgate⟩ := h x rfl
  exact ⟨hknown, hroot, fun g hg => ⟨h.not_owner hpassage g hg, fun heq => absurd heq.symm (hgate g hg)⟩⟩

theorem Writable.linked (h : view.Writable root gates v) : view.Linked v := fun x hx => (h x hx).1

theorem Writable.mono (h : View.Writable root gates ⟨s, K⟩ v) (hsub : K ⊆ K') :
    View.Writable root gates ⟨s', K'⟩ v := fun x hx => ⟨hsub (h x hx).1, (h x hx).2⟩

namespace Gated

/-- What stands at the place of a known node is known. -/
theorem linked_of_place (h : view.Gated root gates) (hi : i ∈ view.known)
    (hcell : view.store.cells[i]? = some cell) (hplace : (key, v) ∈ cell.places) :
    view.Linked v := by
  rintro x rfl
  exact (h.known_of_stands i key x hi ⟨cell, hcell, hplace⟩).1

/-- What stands at a place that is not the one of a gate is free. -/
theorem free_of_place (h : view.Gated root gates) (hi : i ∈ view.known)
    (hcell : view.store.cells[i]? = some cell) (hplace : (key, v) ∈ cell.places)
    (hkey : ∀ g ∈ gates, g.owner = i → key ≠ some (.text g.key)) : view.Free root gates v := by
  rintro x rfl
  have hstands : view.store.Stands i key x := ⟨cell, hcell, hplace⟩
  obtain ⟨hknown, hroot⟩ := h.known_of_stands i key x hi hstands
  refine ⟨hknown, hroot, ?_⟩
  rintro g hg rfl
  obtain ⟨howner, hkey'⟩ := h.only g hg i key hi hstands
  exact hkey g hg howner.symm hkey'

/-- What stands in a node that owns no gate is free. -/
theorem free_of_not_owner (h : view.Gated root gates) (hi : i ∈ view.known)
    (hnot : ∀ g ∈ gates, g.owner ≠ i) (hcell : view.store.cells[i]? = some cell)
    (hplace : (key, v) ∈ cell.places) : view.Free root gates v :=
  h.free_of_place hi hcell hplace fun g hg howner => absurd howner (hnot g hg)

/-- What stands in a free node is free. -/
theorem free_of_free (h : view.Gated root gates) (hpassage : Passage root gates)
    (hfree : view.Free root gates (.node i)) (hcell : view.store.cells[i]? = some cell)
    (hplace : (key, v) ∈ cell.places) : view.Free root gates v :=
  h.free_of_not_owner (hfree i rfl).1 (hfree.not_owner hpassage) hcell hplace

/-- What lies below a free value is free. -/
theorem free_of_reaches (h : view.Gated root gates) (hpassage : Passage root gates)
    (hfree : view.Free root gates v) (hreach : view.store.Reaches v i) :
    view.Free root gates (.node i) := by
  induction hreach with
  | here id => exact hfree
  | part hcell hpart _ ih =>
    rw [← Cell.map_snd_places] at hpart
    obtain ⟨⟨key, w⟩, hplace, rfl⟩ := List.mem_map.mp hpart
    exact ih (h.free_of_free hpassage hfree hcell hplace)

/-- Fewer gates are gates still. -/
theorem of_subset {gates' : Set Gate} (h : view.Gated root gates) (hsub : gates' ⊆ gates) :
    view.Gated root gates' where
  lt := h.lt
  root_known := h.root_known
  gate_known g hg := h.gate_known g (hsub hg)
  known_of_stands := h.known_of_stands
  only g hg := h.only g (hsub hg)
  stands g hg := h.stands g (hsub hg)

/-- Known nodes may be given other entries, so long as those are free and the gates stay. -/
theorem set (h : View.Gated root gates ⟨s, K⟩) (hcell : s.cells[i]? = some (.object entries))
    (hentries : ∀ e ∈ entries', e ∈ entries ∨ View.Free root gates ⟨s, K⟩ e.2)
    (hstands : ∀ g ∈ gates, g.owner = i →
      entries'.get? (.text g.key) = entries.get? (.text g.key)) :
    View.Gated root gates ⟨s.set i (.object entries'), K⟩ := by
  have hlt : i < s.cells.size := Store.lt_size_of_cell hcell
  have hself : (s.set i (.object entries')).cells[i]? = some (.object entries') := by
    rw [Store.cells_set, if_pos ⟨rfl, hlt⟩]
  have hother : ∀ j, j ≠ i → (s.set i (.object entries')).cells[j]? = s.cells[j]? := by
    intro j hj
    rw [Store.cells_set, if_neg fun hji => hj hji.1]
  -- A node stands where it stood before, or it is free.
  have hplaces : ∀ j key x, (s.set i (.object entries')).Stands j key x →
      s.Stands j key x ∨ View.Free root gates ⟨s, K⟩ (.node x) := by
    intro j key x hstands
    by_cases hj : j = i
    · subst hj
      obtain ⟨k, rfl, hmem⟩ := (Store.stands_object hself).mp hstands
      exact (hentries _ hmem).imp_left fun hold =>
        (Store.stands_object hcell).mpr ⟨k, rfl, hold⟩
    · exact .inl (hstands.of_cell_eq (hother j hj).symm)
  refine ⟨fun j hj => by simpa using h.lt j hj, h.root_known, h.gate_known, fun j key x hj hx => ?_,
    fun g hg j key hj hx => ?_, fun g hg => ?_⟩
  · rcases hplaces j key x hx with hold | hfree
    · exact h.known_of_stands j key x hj hold
    · exact ⟨(hfree x rfl).1, (hfree x rfl).2.1⟩
  · rcases hplaces j key g.node hx with hold | hfree
    · exact h.only g hg j key hj hold
    · exact absurd rfl ((hfree g.node rfl).2.2 g hg)
  · obtain ⟨entries₀, hcell₀, hget₀⟩ := h.stands g hg
    by_cases howner : g.owner = i
    · subst howner
      obtain rfl : entries₀ = entries := by simpa [hcell] using hcell₀.symm
      exact ⟨entries', hself, (hstands g hg rfl).trans hget₀⟩
    · exact ⟨entries₀, (hother g.owner howner).trans hcell₀, hget₀⟩

/-- Putting a free value under a key keeps the gates, unless a gate stands there. -/
theorem put {k : String} (h : View.Gated root gates ⟨s, K⟩)
    (hcell : s.cells[i]? = some (.object entries)) (hv : View.Free root gates ⟨s, K⟩ v)
    (hkey : ∀ g ∈ gates, g.owner = i → k ≠ g.key) :
    View.Gated root gates ⟨s.set i (.object (entries.put (.text k) v)), K⟩ := by
  refine h.set hcell (fun e he => ?_) fun g hg howner => ?_
  · rcases Entries.mem_put he with hold | ⟨-, heq⟩
    · exact .inl hold
    · exact .inr (heq ▸ hv)
  · rw [Entries.get?_put, if_neg (hkey g hg howner)]

/-- Nodes that are added need not become known. -/
theorem grow (h : View.Gated root gates ⟨s, K⟩) (hgrows : s.Grows s') :
    View.Gated root gates ⟨s', K⟩ where
  lt i hi := (h.lt i hi).trans_le hgrows.size_le
  root_known := h.root_known
  gate_known := h.gate_known
  known_of_stands i key x hi hx :=
    h.known_of_stands i key x hi (hx.of_cell_eq (hgrows.agree i (h.lt i hi)).symm)
  only g hg i key hi hx := h.only g hg i key hi (hx.of_cell_eq (hgrows.agree i (h.lt i hi)).symm)
  stands g hg := by
    obtain ⟨entries, hcell, hget⟩ := h.stands g hg
    exact ⟨entries, (hgrows.agree _ (Store.lt_size_of_cell hcell)).trans hcell, hget⟩

/-- A node that is added over free values becomes known, and is free. -/
theorem add (h : View.Gated root gates ⟨s, K⟩)
    (hfree : ∀ p ∈ cell.places, View.Free root gates ⟨s, K⟩ p.2) :
    View.Gated root gates ⟨(s.add cell).2, insert s.cells.size K⟩ ∧
      View.Free root gates ⟨(s.add cell).2, insert s.cells.size K⟩ (s.add cell).1 := by
  have hgrows := Store.Grows.add s cell
  have hstands : ∀ i key x, i ∈ insert s.cells.size K → (s.add cell).2.Stands i key x →
      (i ∈ K ∧ s.Stands i key x) ∨ View.Free root gates ⟨s, K⟩ (.node x) := by
    rintro i key x (rfl | hi) ⟨cell', hcell', hplace⟩
    · rw [Store.cells_add, if_pos rfl, Option.some.injEq] at hcell'
      exact .inr (hfree _ (hcell' ▸ hplace))
    · exact .inl ⟨hi, cell', (hgrows.agree i (h.lt i hi)).symm.trans hcell', hplace⟩
  have hgrow : View.Gated root gates ⟨(s.add cell).2, K⟩ := h.grow hgrows
  refine ⟨⟨?_, .inr h.root_known, fun g hg => .inr (h.gate_known g hg), fun i key x hi hx => ?_, fun g hg i key hi hx => ?_,
    hgrow.stands⟩, ?_⟩
  · rintro i (rfl | hi)
    · simp
    · exact hgrow.lt i hi
  · rcases hstands i key x hi hx with ⟨hi', hx'⟩ | hx'
    · obtain ⟨hknown, hroot⟩ := h.known_of_stands i key x hi' hx'
      exact ⟨.inr hknown, hroot⟩
    · exact ⟨.inr (hx' x rfl).1, (hx' x rfl).2.1⟩
  · rcases hstands i key _ hi hx with ⟨hi', hx'⟩ | hx'
    · exact h.only g hg i key hi' hx'
    · exact absurd rfl ((hx' _ rfl).2.2 g hg)
  · intro x hx
    obtain rfl : s.cells.size = x := by simpa [Store.add] using hx
    refine ⟨.inl rfl, fun heq => ?_, fun g hg heq => ?_⟩
    · have hlt : root < s.cells.size := h.lt root h.root_known
      omega
    · have hlt : g.node < s.cells.size := h.lt g.node (h.gate_known g hg)
      omega

/-- The nodes of a tree that is loaded become known, and the tree is free. -/
theorem load (h : View.Gated root gates ⟨s, K⟩) (t : Tree) :
    View.Gated root gates ⟨(s.load t).2, K ∪ {i | (s.load t).2.Reaches (s.load t).1 i}⟩ ∧
      View.Free root gates ⟨(s.load t).2, K ∪ {i | (s.load t).2.Reaches (s.load t).1 i}⟩
        (s.load t).1 := by
  have hloads := Store.loads_load t s
  obtain ⟨⟨u, hu, -⟩, -⟩ := List.forall₂_cons.mp hloads.holds
  have hnew : ∀ i, (s.load t).2.Reaches (s.load t).1 i →
      i ≠ root ∧ ∀ g ∈ gates, i ≠ g.node := by
    intro i hi
    have hle : s.cells.size ≤ i := hloads.fresh _ (List.mem_singleton_self _) i hi
    refine ⟨fun heq => ?_, fun g hg heq => ?_⟩
    · have hlt : root < s.cells.size := h.lt root h.root_known
      omega
    · have hlt : g.node < s.cells.size := h.lt g.node (h.gate_known g hg)
      omega
  have hgrow : View.Gated root gates ⟨(s.load t).2, K⟩ := h.grow hloads.toGrows
  have hstands : ∀ {i key x}, (s.load t).2.Reaches (s.load t).1 i → (s.load t).2.Stands i key x →
      (s.load t).2.Reaches (s.load t).1 x := fun hi hx => hi.trans hx.reaches
  refine ⟨⟨?_, .inl h.root_known, fun g hg => .inl (h.gate_known g hg), ?_, ?_, hgrow.stands⟩, ?_⟩
  · rintro i (hi | hi)
    · exact hgrow.lt i hi
    · exact hu.reaches_lt hi
  · rintro i key x (hi | hi) hx
    · obtain ⟨hknown, hroot⟩ := hgrow.known_of_stands i key x hi hx
      exact ⟨.inl hknown, hroot⟩
    · exact ⟨.inr (hstands hi hx), (hnew x (hstands hi hx)).1⟩
  · rintro g hg i key (hi | hi) hx
    · exact hgrow.only g hg i key hi hx
    · exact absurd rfl ((hnew _ (hstands hi hx)).2 g hg)
  · rintro x hx
    have hreach : (s.load t).2.Reaches (s.load t).1 x := hx ▸ .here x
    exact ⟨.inr hreach, hnew x hreach⟩

/-- In a tidy store any nodes with their places are gates. -/
theorem of_tidy (h : s.Tidy root)
    (hstands : ∀ g ∈ gates, ∃ entries : Entries Value,
      s.cells[g.owner]? = some (.object entries) ∧
        entries.get? (.text g.key) = some (.node g.node)) :
    View.Gated root gates ⟨s, {i | i < s.cells.size}⟩ := by
  have hplace : ∀ g ∈ gates, s.Stands g.owner (some (.text g.key)) g.node := by
    intro g hg
    obtain ⟨entries, hcell, hget⟩ := hstands g hg
    exact (Store.stands_object hcell).mpr ⟨_, rfl, Entries.mem_of_get? hget⟩
  refine ⟨fun i hi => hi, h.root_lt, fun g hg => (h.inside _ _ _ (hplace g hg)).1,
    fun i key x _ hx => h.inside i key x hx, fun g hg i key _ hx => ?_, hstands⟩
  exact h.unique _ _ _ _ _ hx (hplace g hg)

/-! ## Reading -/

/-- The entries of a known object are linked. -/
theorem linked_entry {id : Nat} {e : Scalar × Value} (h : view.Gated root gates)
    (hv : view.Linked v) (hshape : view.store.shape v = .object id entries) (he : e ∈ entries) :
    view.Linked e.2 := by
  obtain ⟨rfl, hcell⟩ := Store.shape_eq_object.mp hshape
  exact h.linked_of_place (hv id rfl) hcell (Cell.mem_places_object.mpr ⟨e.1, rfl, he⟩)

/-- The value under a key of a known object, or nothing, is linked. -/
theorem linked_field {id : Nat} {k : String} (h : view.Gated root gates)
    (hv : view.Linked v) (hshape : view.store.shape v = .object id entries) :
    view.Linked ((entries.get? (.text k)).getD .null) := by
  cases hget : entries.get? (.text k) with
  | none => simp
  | some w => exact h.linked_entry hv hshape (Entries.mem_of_get? hget)

/-- The value under a key where no gate stands, or nothing, is free. -/
theorem free_field {id : Nat} {k : String} (h : view.Gated root gates) (hv : view.Linked v)
    (hshape : view.store.shape v = .object id entries)
    (hkey : ∀ g ∈ gates, g.owner = id → k ≠ g.key) :
    view.Free root gates ((entries.get? (.text k)).getD .null) := by
  obtain ⟨rfl, hcell⟩ := Store.shape_eq_object.mp hshape
  cases hget : entries.get? (.text k) with
  | none => simp
  | some w =>
    refine h.free_of_place (hv id rfl) hcell
      (Cell.mem_places_object.mpr ⟨_, rfl, Entries.mem_of_get? hget⟩) fun g hg howner heq => ?_
    exact hkey g hg howner (by simpa using heq)

/-- The value under a key of a free object, or nothing, is free. -/
theorem free_field_of_free {id : Nat} {k : String} (h : view.Gated root gates)
    (hpassage : Passage root gates) (hv : view.Free root gates v)
    (hshape : view.store.shape v = .object id entries) :
    view.Free root gates ((entries.get? (.text k)).getD .null) := by
  obtain ⟨rfl, -⟩ := Store.shape_eq_object.mp hshape
  exact h.free_field hv.linked hshape fun g hg howner => absurd howner (hv.not_owner hpassage g hg)

/-- The paths stand under their own key only. -/
theorem not_crowded_field {id : Nat} {k : String} (h : view.Gated root gates) (hv : view.Linked v)
    (hshape : view.store.shape v = .object id entries) (hk : k ≠ "paths") {x : Nat}
    (hx : (entries.get? (.text k)).getD .null = .node x) : ¬ Crowded root gates x := by
  rintro ⟨hpaths, -⟩
  obtain ⟨rfl, hcell⟩ := Store.shape_eq_object.mp hshape
  have hstands : view.store.Stands id (some (.text k)) x := (Store.stands_object hcell).mpr
    ⟨_, rfl, Entries.mem_of_get? (Store.getD_eq_node.mp hx)⟩
  exact hk (by simpa using (h.only _ hpaths id _ (hv id rfl) hstands).2)

/-- What a visit of a known value meets is free, as no gate stands there. -/
theorem free_elements {items : List Value} (h : view.Gated root gates) (hv : view.Linked v)
    (helements : view.store.elements v = .ok items) (hw : w ∈ items) : view.Free root gates w := by
  rcases Store.place_of_mem_elements helements hw with ⟨a, rfl⟩ | ⟨i, cell, rfl, hcell, hplace⟩
  · simp
  · exact h.free_of_place (hv i rfl) hcell hplace (by simp)

theorem linked_step {name : String} (h : view.Gated root gates) (hv : view.Linked v)
    (hstep : view.store.step v name = .ok (some w)) : view.Linked w := by
  unfold Store.step at hstep
  split at hstep
  · next id items hshape =>
    obtain ⟨rfl, hcell⟩ := Store.shape_eq_list.mp hshape
    split at hstep
    · simp at hstep
    · next n _ =>
      have hmem : w ∈ items := List.mem_of_getElem? (Except.ok.inj hstep)
      exact h.linked_of_place (hv id rfl) hcell (List.mem_map_of_mem hmem (f := fun item => (none, item)))
    · simp at hstep
  · next id entries hshape =>
    exact h.linked_entry hv hshape (Entries.mem_of_get? (Except.ok.inj hstep))
  · simp at hstep

theorem linked_follow {steps : List String} (h : view.Gated root gates) (hv : view.Linked v)
    (hfollow : view.store.follow v steps = .ok (some w)) : view.Linked w := by
  induction steps generalizing v with
  | nil =>
    obtain rfl : v = w := by simpa [Store.follow] using hfollow
    exact hv
  | cons name rest ih =>
    rw [Store.follow] at hfollow
    split at hfollow
    · simp at hfollow
    · simp at hfollow
    · next w' hstep =>
      split at hfollow
      · simp at hfollow
      · exact ih (h.linked_step hv hstep) hfollow

/-- What a pointer leads to is linked. -/
theorem linked_resolve {pointer : String} (h : view.Gated root gates)
    (hresolve : view.store.resolve (.node root) pointer = .ok w) : view.Linked w := by
  have hroot : view.Linked (.node root) := by
    intro x hx
    obtain rfl : root = x := by simpa using hx
    exact h.root_known
  unfold Store.resolve at hresolve
  split at hresolve
  · simp at hresolve
  · split at hresolve
    · next v hfollow =>
      obtain rfl := Except.ok.inj hresolve
      exact h.linked_follow hroot hfollow
    · simp at hresolve
    · simp at hresolve

/-- What a value refers to is linked. -/
theorem linked_dereference (h : view.Gated root gates) (hv : view.Linked v)
    (hw : view.store.dereference (.node root) v = .ok w) : view.Linked w := by
  have hchain : ∀ fuel seen v, view.Linked v →
      view.store.chainEnd (.node root) fuel seen v = .ok w → view.Linked w := by
    intro fuel
    induction fuel with
    | zero =>
      intro seen v hv hw
      obtain rfl : v = w := by simpa [Store.chainEnd] using hw
      exact hv
    | succ fuel ih =>
      intro seen v hv hw
      rw [Store.chainEnd] at hw
      split at hw
      · obtain rfl := Except.ok.inj hw
        exact hv
      · split at hw
        · obtain rfl := Except.ok.inj hw
          exact hv
        · split at hw
          · split at hw
            · simp at hw
            · split at hw
              · next u hresolve => exact ih _ _ (h.linked_resolve hresolve) hw
              · simp at hw
          · simp at hw
          · simp at hw
          · simp at hw
  exact hchain _ _ v hv hw

end Gated

end View

/-! ## Documents without cycles

A document that can be written out has no node inside of itself. This is kept by adding nodes over
known ones and by every write that does not put a node inside of itself.
-/

namespace Store

variable {s : Store} {v w : Value} {t : Tree} {i : Nat} {entries entries' : Entries Value}

/-- Changing the entries of an object leaves every value with a tree, if what is new in the object
has one and the object does not lie below it. -/
theorem exists_holds_set (hcell : s.cells[i]? = some (.object entries))
    (hentries : ∀ e ∈ entries', e ∈ entries ∨ (∃ u, s.Holds e.2 u) ∧ ¬ s.Reaches e.2 i)
    (hv : s.Holds v t) : ∃ t', (s.set i (.object entries')).Holds v t' := by
  induction hsize : sizeOf t using Nat.strong_induction_on generalizing v t with
  | _ n ih =>
    cases v with
    | scalar a => exact ⟨.scalar a, by simp⟩
    | node j =>
      by_cases hj : j = i
      · subst hj
        have hself : (s.set j (.object entries')).cells[j]? = some (.object entries') := by
          rw [cells_set, if_pos ⟨rfl, lt_size_of_cell hcell⟩]
        refine exists_holds_of_parts hself fun w hw => ?_
        obtain ⟨e, he, rfl⟩ := List.mem_map.mp hw
        rcases hentries e he with hold | ⟨⟨u, hu⟩, hnot⟩
        · have hpart : e.2 ∈ (Cell.object entries).parts := List.mem_map_of_mem hold
          obtain ⟨u, hu, -⟩ := hv.of_part hcell hpart
          exact ⟨u, hu.set (hv.not_reaches_of_part hcell hpart)⟩
        · exact ⟨u, hu.set hnot⟩
      · have hlt : j < s.cells.size := hv.lt_size
        have hother : (s.set i (.object entries')).cells[j]? = some s.cells[j] := by
          rw [cells_set, if_neg fun h => hj h.1, Array.getElem?_eq_getElem hlt]
        refine exists_holds_of_parts hother fun w hw => ?_
        obtain ⟨u, hu, hsmaller⟩ := hv.of_part (Array.getElem?_eq_getElem hlt) hw
        exact ih (sizeOf u) (hsize ▸ hsmaller) hu rfl

end Store

/-- Every known node holds a tree, and no key comes twice in a known object. -/
structure View.Sound (view : View) : Prop where
  exists_holds_node : ∀ i ∈ view.known, ∃ t, view.store.Holds (.node i) t
  nodup : ∀ (i : Nat) (entries : Entries Value), i ∈ view.known →
    view.store.cells[i]? = some (.object entries) → entries.keys.Nodup

namespace View.Sound

variable {view : View} {s s' : Store} {K : Set Nat} {v : Value} {i : Nat} {cell : Cell}
  {entries entries' : Entries Value}

theorem exists_holds (h : view.Sound) (hv : view.Linked v) : ∃ t, view.store.Holds v t := by
  cases v with
  | scalar a => exact ⟨.scalar a, by simp⟩
  | node x => exact h.exists_holds_node x (hv x rfl)

theorem grow (h : View.Sound ⟨s, K⟩) (hgrows : s.Grows s') : View.Sound ⟨s', K⟩ where
  exists_holds_node i hi := by
    obtain ⟨t, ht⟩ := h.exists_holds_node i hi
    exact ⟨t, ht.extend hgrows⟩
  nodup i entries hi hcell := by
    obtain ⟨t, ht⟩ := h.exists_holds_node i hi
    exact h.nodup i entries hi ((hgrows.agree i ht.lt_size).symm.trans hcell)

/-- A node that is added over known values has no cycle below it. -/
theorem add (h : View.Sound ⟨s, K⟩) (hparts : ∀ w ∈ cell.parts, View.Linked ⟨s, K⟩ w)
    (hnodup : ∀ entries, cell = .object entries → entries.keys.Nodup) :
    View.Sound ⟨(s.add cell).2, insert s.cells.size K⟩ := by
  have hgrows : s.Grows (s.add cell).2 := .add s cell
  have hnew : (s.add cell).2.cells[s.cells.size]? = some cell := by rw [Store.cells_add, if_pos rfl]
  refine ⟨?_, ?_⟩
  · rintro i (rfl | hi)
    · refine Store.exists_holds_of_parts hnew fun w hw => ?_
      obtain ⟨u, hu⟩ := h.exists_holds (hparts w hw)
      exact ⟨u, hu.extend hgrows⟩
    · exact (h.grow hgrows).exists_holds_node i hi
  · rintro i entries (rfl | hi) hcell
    · exact hnodup entries (Option.some.inj (hnew.symm.trans hcell))
    · exact (h.grow hgrows).nodup i entries hi hcell

/-- A known object may be given known values inside of which it does not lie. -/
theorem set (h : View.Sound ⟨s, K⟩) (hcell : s.cells[i]? = some (.object entries))
    (hentries : ∀ e ∈ entries', e ∈ entries ∨ View.Linked ⟨s, K⟩ e.2 ∧ ¬ s.Reaches e.2 i)
    (hnodup : entries'.keys.Nodup) : View.Sound ⟨s.set i (.object entries'), K⟩ := by
  refine ⟨fun j hj => ?_, fun j others hj hothers => ?_⟩
  · obtain ⟨t, ht⟩ := h.exists_holds_node j hj
    exact Store.exists_holds_set hcell (fun e he =>
      (hentries e he).imp_right fun hnew => ⟨h.exists_holds hnew.1, hnew.2⟩) ht
  · rw [Store.cells_set] at hothers
    split at hothers
    · obtain rfl : entries' = others := by simpa using hothers
      exact hnodup
    · exact h.nodup j others hj hothers

/-- A known object may be given a known value inside of which it does not lie. -/
theorem put {key : Scalar} (h : View.Sound ⟨s, K⟩) (hi : i ∈ K)
    (hcell : s.cells[i]? = some (.object entries)) (hv : View.Linked ⟨s, K⟩ v)
    (hnot : ¬ s.Reaches v i) : View.Sound ⟨s.set i (.object (entries.put key v)), K⟩ := by
  refine h.set hcell (fun e he => ?_) (Entries.nodup_keys_put_any (h.nodup i entries hi hcell))
  rcases Entries.mem_or_eq_of_mem_put he with hold | heq
  · exact .inl hold
  · exact .inr (heq ▸ ⟨hv, hnot⟩)

/-- A known object may be given a new node over known values inside of which it does not lie. -/
theorem add_put {key : Scalar} (h : View.Sound ⟨s, K⟩) (hi : i ∈ K)
    (hcell : s.cells[i]? = some (.object entries))
    (hparts : ∀ w ∈ cell.parts, View.Linked ⟨s, K⟩ w ∧ ¬ s.Reaches w i)
    (hnodup : ∀ entries, cell = .object entries → entries.keys.Nodup) :
    View.Sound ⟨(s.add cell).2.set i (.object (entries.put key (s.add cell).1)),
      insert s.cells.size K⟩ := by
  have hlt : i < s.cells.size := Store.lt_size_of_cell hcell
  have hcell' : (s.add cell).2.cells[i]? = some (.object entries) := by
    rw [Store.cells_add, if_neg hlt.ne, hcell]
  refine (h.add (fun w hw => (hparts w hw).1) hnodup).put (.inr hi) hcell' ?_ fun hreach => ?_
  · intro x hx
    obtain rfl : s.cells.size = x := by simpa [Store.add] using hx
    exact .inl rfl
  · rcases Store.eq_or_of_reaches_add hreach with heq | ⟨w, hw, hbelow⟩
    · omega
    · obtain ⟨u, hu⟩ := h.exists_holds (hparts w hw).1
      refine (hparts w hw).2 (hbelow.of_agree fun j hj => ?_)
      exact (Store.Grows.add s cell).agree j (hu.reaches_lt hj)

/-- A known object does not lie below its parts. -/
theorem not_reaches_part {w : Value} (h : View.Sound ⟨s, K⟩) (hi : i ∈ K)
    (hcell : s.cells[i]? = some cell) (hw : w ∈ cell.parts) : ¬ s.Reaches w i := by
  obtain ⟨t, ht⟩ := h.exists_holds_node i hi
  exact ht.not_reaches_of_part hcell hw

/-- A document that has just been loaded holds itself: what stands in a node is older. -/
theorem loaded {t : Tree} (ht : t.IsJson) : View.Sound ⟨(Store.empty.load t).2,
    {i | i < (Store.empty.load t).2.cells.size}⟩ where
  exists_holds_node i hi := by
    induction i using Nat.strong_induction_on with
    | _ i ih =>
      refine Store.exists_holds_of_parts (Array.getElem?_eq_getElem hi) fun w hw => ?_
      cases w with
      | scalar a => exact ⟨.scalar a, by simp⟩
      | node x =>
        obtain ⟨key, hstands⟩ := Store.exists_stands_of_part (Array.getElem?_eq_getElem hi) hw
        obtain ⟨-, hlt⟩ := (Store.plants_load t Store.empty).inside i key x (Nat.zero_le i) hstands
        exact ih x hlt (hlt.trans hi)
  nodup i entries _ hcell :=
    (Store.TextKeyed.load (by simp [Store.TextKeyed, Store.empty]) ht i entries hcell).nodup

end View.Sound

end DeviceApi
