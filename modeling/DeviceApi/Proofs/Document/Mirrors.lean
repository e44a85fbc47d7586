import DeviceApi.Proofs.Document.Frames

/-!
# Values in place of others

A document holds the same tree after a change if every value that has been put into one of its objects is as good as the
value from before: if it holds the same tree, provided that everything not larger than this tree is held as it was.
-/

namespace DeviceApi

/-! ## Entries with the same keys -/

namespace Entries

variable {α β : Type} {R : α → β → Prop} {entries : Entries α} {others : Entries β} {key : Scalar} {a : α} {b : β}

/-- Two entries have the same key, and their values are related. -/
def Paired (R : α → β → Prop) (e : Scalar × α) (f : Scalar × β) : Prop := e.1 = f.1 ∧ R e.2 f.2

section

variable (h : List.Forall₂ (Paired R) entries others)
include h

theorem get?_of_paired (key : Scalar) : (get? key entries = none ∧ get? key others = none) ∨
    ∃ a b, get? key entries = some a ∧ get? key others = some b ∧ R a b := by
  induction h with
  | nil => exact .inl ⟨rfl, rfl⟩
  | @cons e f _ _ he _ ih =>
    obtain ⟨k, a⟩ := e
    obtain ⟨k', b⟩ := f
    obtain ⟨rfl, hR⟩ : k = k' ∧ R a b := he
    unfold get?
    split
    · exact .inr ⟨a, b, rfl, rfl, hR⟩
    · exact ih

theorem paired_put (hR : R a b) : List.Forall₂ (Paired R) (put key a entries) (put key b others) := by
  induction h with
  | nil => exact .cons ⟨rfl, hR⟩ .nil
  | @cons e f _ _ he hrest ih =>
    obtain ⟨k, a'⟩ := e
    obtain ⟨k', b'⟩ := f
    obtain ⟨rfl, hR'⟩ : k = k' ∧ R a' b' := he
    unfold put
    split
    · exact .cons ⟨rfl, hR⟩ hrest
    · exact .cons ⟨rfl, hR'⟩ ih

end

/-- Entries with the same keys are related if the values under each key are. -/
theorem paired_of_get? (hkeys : others.keys = entries.keys) (hkeyed : entries.TextKeyed)
    (h : ∀ (t : String) a b, get? (.text t) entries = some a → get? (.text t) others = some b → R a b) :
    List.Forall₂ (Paired R) entries others := by
  have hother : others.keys.Nodup := hkeys ▸ hkeyed.nodup
  refine List.forall₂_iff_get.mpr ⟨?_, fun i hi hi' => ?_⟩
  · simpa [keys] using (congrArg List.length hkeys).symm
  · have hkey : entries[i].1 = others[i].1 := by
      have hget : others.keys[i]? = entries.keys[i]? := by rw [hkeys]
      simpa [keys, hi, hi'] using hget.symm
    obtain ⟨t, ht⟩ := hkeyed.exists_text _ (List.mem_map_of_mem (List.getElem_mem hi))
    refine ⟨hkey, h t _ _ (get?_of_mem hkeyed.nodup ?_) (get?_of_mem hother ?_)⟩
    · exact (Prod.ext ht rfl : entries[i] = (.text t, entries[i].2)) ▸ List.getElem_mem hi
    · exact (Prod.ext (hkey.symm.trans ht) rfl : others[i] = (.text t, others[i].2)) ▸ List.getElem_mem hi'

/-- Putting the same under the same key again and again is as good as putting it there once. -/
theorem putAll_eq_put {name : String} {added : Entries α} (h : ∀ e ∈ added, e = (.text name, a))
    (hget : get? (.text name) (putAll entries added) = some a) : putAll entries added = put (.text name) a entries := by
  induction added generalizing entries with
  | nil => exact (put_of_get? hget).symm
  | cons e added ih =>
    obtain rfl := h e List.mem_cons_self
    rw [putAll_cons] at hget ⊢
    rw [ih (fun e he => h e (List.mem_cons_of_mem _ he)) hget, put_of_get? get?_put_self]

/-- Putting values under keys that are there does not change the keys. -/
theorem keys_putAll_of_mem {added : Entries α} (h : ∀ e ∈ added, ∃ t : String, e.1 = .text t ∧ .text t ∈ keys entries) :
    (putAll entries added).keys = entries.keys := by
  induction added generalizing entries with
  | nil => rfl
  | cons e added ih =>
    obtain ⟨k, x⟩ := e
    obtain ⟨t, rfl, ht⟩ := h _ List.mem_cons_self
    have hkeys : (put (.text t) x entries).keys = entries.keys := by rw [keys_put, if_pos ht]
    rw [putAll_cons, ih (fun e he => hkeys ▸ h e (List.mem_cons_of_mem _ he)), hkeys]

end Entries

namespace Store

variable {s t : Store} {v w : Value} {i j : Nat} {cell : Cell} {entries others : Entries Value}

/-- What the one value holds in the first store the other one holds in the second, provided that trees which are not
larger are held in the second store wherever they are held in the first. -/
def Mirrors (s t : Store) (v w : Value) : Prop :=
  ∀ u, (∀ x u', sizeOf u' ≤ sizeOf u → s.Holds x u' → t.Holds x u') → s.Holds v u → t.Holds w u

theorem Mirrors.refl (s t : Store) (v : Value) : s.Mirrors t v v := fun u hsmall hv => hsmall v u le_rfl hv

theorem holdsEntries_of_mirrors {trees : List (Scalar × Tree)}
    (h : List.Forall₂ (Entries.Paired (s.Mirrors t)) entries others)
    (hsmall : ∀ e ∈ trees, ∀ x u, sizeOf u ≤ sizeOf e.2 → s.Holds x u → t.Holds x u)
    (htrees : List.Forall₂ s.HoldsEntry entries trees) : List.Forall₂ t.HoldsEntry others trees := by
  induction htrees generalizing others with
  | nil =>
    cases h
    exact .nil
  | @cons e tree _ trees hheld _ ih =>
    obtain _ | ⟨hmirrors, hrest⟩ := h
    refine .cons ⟨hmirrors.1.symm.trans hheld.1, ?_⟩ (ih hrest fun e he => hsmall e (List.mem_cons_of_mem _ he))
    exact hmirrors.2 tree.2 (hsmall tree List.mem_cons_self) hheld.2

/-- Objects with entries that are as good are as good. -/
theorem mirrors_object (hcell : s.cells[i]? = some (.object entries)) (hcell' : t.cells[j]? = some (.object others))
    (h : List.Forall₂ (Entries.Paired (s.Mirrors t)) entries others) : s.Mirrors t (.node i) (.node j) := by
  intro u hsmall hheld
  obtain ⟨trees, rfl, htrees⟩ := hheld.object_of_shape (shape_node hcell)
  refine holds_object.mpr ⟨j, others, rfl, hcell', holdsEntries_of_mirrors h (fun e he x u hle => ?_) htrees⟩
  exact hsmall x u (hle.trans (Tree.sizeOf_entry_lt he).le)

/-- Nodes with the same content are as good as each other. -/
theorem mirrors_of_cell (hcell : s.cells[i]? = some cell) (hcell' : t.cells[j]? = some cell) :
    s.Mirrors t (.node i) (.node j) := by
  have hsame : ∀ {id cell'}, Value.node i = .node id → s.cells[id]? = some cell' → t.cells[j]? = some cell' := by
    rintro id cell' heq hcell''
    obtain rfl := Value.node.inj heq
    exact hcell'.trans (hcell.symm.trans hcell'')
  intro u hsmall hheld
  cases u with
  | scalar a => cases holds_scalar.mp hheld
  | list items =>
    obtain ⟨id, values, heq, hvalues, hall⟩ := holds_list.mp hheld
    refine holds_list.mpr ⟨j, values, rfl, hsame heq hvalues, forall₂_imp_of_mem (fun v _ item hitem => ?_) hall⟩
    exact hsmall v item (Tree.sizeOf_item_lt hitem).le
  | pair key value =>
    obtain ⟨id, k, w, heq, hpair, hkey, hvalue⟩ := holds_pair.mp hheld
    exact holds_pair.mpr ⟨j, k, w, rfl, hsame heq hpair, hsmall k key (Tree.sizeOf_key_lt key value).le hkey,
      hsmall w value (Tree.sizeOf_value_lt key value).le hvalue⟩
  | set members =>
    obtain ⟨id, heq, hmembers⟩ := holds_set.mp hheld
    exact holds_set.mpr ⟨j, rfl, hsame heq hmembers⟩
  | object trees =>
    obtain ⟨id, values, heq, hvalues, hall⟩ := holds_object.mp hheld
    refine holds_object.mpr ⟨j, values, rfl, hsame heq hvalues, ?_⟩
    exact holdsEntries_of_mirrors (List.forall₂_same.mpr fun e _ => ⟨rfl, .refl s t e.2⟩)
      (fun e he x u hle => hsmall x u (hle.trans (Tree.sizeOf_entry_lt he).le)) hall
  | enclosing isObject => cases hheld

/-- Nothing that is held changes if nodes change only by values that are as good as those from before. -/
theorem Holds.of_mirrors {u : Tree} (h : s.Holds v u) (hnodes : ∀ i, i < s.cells.size → t.cells[i]? = s.cells[i]? ∨
      ∃ entries others, s.cells[i]? = some (.object entries) ∧ t.cells[i]? = some (.object others) ∧
        List.Forall₂ (Entries.Paired (s.Mirrors t)) entries others) : t.Holds v u := by
  refine h.of_nodes fun i u hheld ih => (hnodes i hheld.lt_size).imp id ?_
  rintro ⟨entries, others, hcell, hcell', hentries⟩
  obtain ⟨trees, rfl, htrees⟩ := hheld.object_of_shape (shape_node hcell)
  refine holds_object.mpr ⟨i, others, rfl, hcell', holdsEntries_of_mirrors hentries (fun e he x u hle => ?_) htrees⟩
  exact ih x u (hle.trans_lt (Tree.sizeOf_entry_lt he))

end Store

end DeviceApi
