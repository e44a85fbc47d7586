import DeviceApi.Proofs.Document.Frames
import DeviceApi.Proofs.Document.Runs

/-!
# What edits do to a store

Most edits only read, and leave the store as it is even where they fail. An edit that writes to one node leaves all
others as they were, and what it puts into an object is held there.
-/

namespace DeviceApi

namespace Edit

variable {α β : Type} {edit : Edit α} {next : α → Edit β} {s : Store} {v : Value}

/-- The edit leaves every store as it is, also where it fails. -/
def OnlyReads (edit : Edit α) : Prop := ∀ s, (edit.runOn s).2 = s

theorem onlyReads_pure (a : α) : OnlyReads (pure a : Edit α) := fun _ => rfl

theorem onlyReads_get : OnlyReads (get : Edit Store) := fun _ => rfl

theorem onlyReads_misfit (m : Misfit) : OnlyReads (misfit m : Edit α) := fun _ => rfl

theorem onlyReads_refuse (violation : Violation) : OnlyReads (refuse violation : Edit α) := fun _ => rfl

theorem OnlyReads.bind (h : OnlyReads edit) (hnext : ∀ a, OnlyReads (next a)) : OnlyReads (edit >>= next) := by
  intro s
  have hs := h s
  rw [runOn_bind]
  split
  · next a t heq =>
    obtain rfl : t = s := by simpa [heq] using hs
    exact hnext a t
  · next f t heq => simpa [heq] using hs

theorem onlyReads_ofExcept (answer : Except Misfit α) : OnlyReads (ofExcept answer) := by
  cases answer with
  | ok a => exact onlyReads_pure a
  | error m => exact onlyReads_misfit m

theorem onlyReads_look (v : Value) : OnlyReads (look v) := onlyReads_get.bind fun _ => onlyReads_pure _

theorem onlyReads_treeOf (v : Value) : OnlyReads (treeOf v) := onlyReads_get.bind fun _ => onlyReads_pure _

theorem onlyReads_textOf (key : Scalar) : OnlyReads (textOf key) := by
  unfold textOf
  split
  · exact onlyReads_pure _
  · exact onlyReads_misfit _

theorem onlyReads_shownTree (v : Value) : OnlyReads (shownTree v) := by
  refine onlyReads_get.bind fun s => ?_
  dsimp only
  split
  · exact onlyReads_pure _
  · exact onlyReads_misfit _

theorem onlyReads_entriesOf (v : Value) : OnlyReads (entriesOf v) := by
  refine OnlyReads.bind ((onlyReads_look v).bind fun shape => ?_) fun _ => onlyReads_pure _
  split
  · exact onlyReads_pure _
  · exact onlyReads_misfit _

theorem onlyReads_fieldOf (v : Value) (key : Scalar) : OnlyReads (fieldOf v key) :=
  (onlyReads_entriesOf v).bind fun _ => onlyReads_pure _

theorem onlyReads_optionalEntries (v : Value) : OnlyReads (optionalEntries v) := by
  refine (onlyReads_get.bind fun _ => onlyReads_pure _).bind fun truthy => ?_
  split
  · exact onlyReads_entriesOf v
  · exact onlyReads_pure _

/-! ## Going through values -/

section

variable {f : Value → Edit Bool} {p : Value → Bool} {s : Store} {items : List Value}

theorem runs_filterAuxM_of_forall (h : ∀ item ∈ items, Runs (f item) s (p item) s) (kept : List Value) :
    Runs (items.filterAuxM f kept) s ((items.filter p).reverse ++ kept) s := by
  induction items generalizing kept with
  | nil => exact runs_pure.mpr ⟨rfl, rfl⟩
  | cons item rest ih =>
    rw [List.filterAuxM, (h item List.mem_cons_self).bind_iff]
    have hrest := ih (fun w hw => h w (List.mem_cons_of_mem _ hw)) (bif p item then item :: kept else kept)
    cases hp : p item <;> simpa [hp] using hrest

theorem runs_filterM_of_forall (h : ∀ item ∈ items, Runs (f item) s (p item) s) :
    Runs (items.filterM f) s (items.filter p) s := by
  rw [List.filterM, (runs_filterAuxM_of_forall h []).bind_iff]
  simp

/-- Going through values fails at the first one at which a step does. -/
theorem runOn_filterM_of_fault {fault : Fault} (h : ∀ item ∈ items, Runs (f item) s (p item) s ∨ (f item).runOn s = (.error fault, s))
    (hfault : ∃ item ∈ items, (f item).runOn s = (.error fault, s)) : (items.filterM f).runOn s = (.error fault, s) := by
  suffices hall : ∀ kept, (items.filterAuxM f kept).runOn s = (.error fault, s) by
    rw [List.filterM, runOn_bind, hall]
  intro kept
  induction items generalizing kept with
  | nil => simp at hfault
  | cons item rest ih =>
    rw [List.filterAuxM]
    rcases h item List.mem_cons_self with hruns | hfails
    · rw [hruns.runOn_bind]
      refine ih (fun w hw => h w (List.mem_cons_of_mem _ hw)) ?_ _
      obtain ⟨w, hw, hfails⟩ := hfault
      rcases List.mem_cons.mp hw with rfl | hmem
      · rw [show (f w).runOn s = (.ok (p w), s) from hruns] at hfails
        cases hfails
      · exact ⟨w, hmem, hfails⟩
    · rw [runOn_bind, hfails]

end

end Edit

namespace Store

variable {s s' s'' : Store} {w : Value} {id : Nat}

/-! ## Entries that spell out trees -/

section

variable {values : Entries Value} {entries : List (Scalar × Tree)} {key : Scalar}
  (h : List.Forall₂ s.HoldsEntry values entries)
include h

theorem has_of_holds : values.has key = Entries.has entries key := by
  rcases get?_of_holds key h with ⟨hnone, hnone'⟩ | ⟨w, u, hw, hu, -⟩
  · rw [Entries.has, Entries.has, hnone, hnone']
    rfl
  · rw [Entries.has, Entries.has, hw, hu]
    rfl

theorem holds_remove : List.Forall₂ s.HoldsEntry (values.remove key) (Entries.remove key entries) := by
  induction h with
  | nil => exact .nil
  | @cons value entry _ _ he hrest ih =>
    obtain ⟨k, w⟩ := value
    obtain ⟨k', u⟩ := entry
    obtain ⟨rfl, hheld⟩ : k = k' ∧ s.Holds w u := he
    unfold Entries.remove
    split
    · exact hrest
    · exact .cons ⟨rfl, hheld⟩ ih

theorem holds_put {u : Tree} (hw : s.Holds w u) :
    List.Forall₂ s.HoldsEntry (values.put key w) (Entries.put key u entries) := by
  induction h with
  | nil => exact .cons ⟨rfl, hw⟩ .nil
  | @cons value entry _ _ he hrest ih =>
    obtain ⟨k, w'⟩ := value
    obtain ⟨k', u'⟩ := entry
    obtain ⟨rfl, hheld⟩ : k = k' ∧ s.Holds w' u' := he
    unfold Entries.put
    split
    · exact .cons ⟨rfl, hw⟩ hrest
    · exact .cons ⟨rfl, hheld⟩ ih

end

theorem holds_putAll {values others : Entries Value} {entries otherTrees : List (Scalar × Tree)}
    (h : List.Forall₂ s.HoldsEntry values entries) (hothers : List.Forall₂ s.HoldsEntry others otherTrees) :
    List.Forall₂ s.HoldsEntry (values.putAll others) (Entries.putAll entries otherTrees) := by
  induction hothers generalizing values entries with
  | nil => exact h
  | @cons value entry _ _ he _ ih =>
    obtain ⟨k, w⟩ := value
    obtain ⟨k', u⟩ := entry
    obtain ⟨rfl, hheld⟩ : k = k' ∧ s.Holds w u := he
    exact ih (holds_put h hheld)

/-! ## Writing to one node -/

/-- All nodes but one are as they were. -/
structure KeepsOthers (s : Store) (id : Nat) (s' : Store) : Prop where
  size_le : s.cells.size ≤ s'.cells.size
  agree : ∀ i : Nat, i < s.cells.size → i ≠ id → s'.cells[i]? = s.cells[i]?

theorem KeepsOthers.refl (s : Store) (id : Nat) : KeepsOthers s id s := ⟨le_rfl, fun _ _ _ => rfl⟩

theorem KeepsOthers.trans (h : KeepsOthers s id s') (h' : KeepsOthers s' id s'') : KeepsOthers s id s'' where
  size_le := h.size_le.trans h'.size_le
  agree i hi hne := (h'.agree i (hi.trans_le h.size_le) hne).trans (h.agree i hi hne)

theorem KeepsOthers.of_grows (h : Grows s s') : KeepsOthers s id s' := ⟨h.size_le, fun i hi _ => h.agree i hi⟩

theorem KeepsOthers.set {cell : Cell} : KeepsOthers s id (s.set id cell) where
  size_le := by simp
  agree i _ hne := by rw [cells_set, if_neg fun h => hne h.1]

end Store

namespace Edit

variable {s : Store} {w : Value} {id : Nat} {t : Tree} {F : Entries Tree} {key : String} {keys : List Scalar}

/-- The value under a key of an object is found, and the object is no part of it. Where there is none, it is null. -/
theorem exists_runs_fieldOf (hheld : s.Holds (.node id) (.object F)) (key : String) :
    ∃ w, Runs (fieldOf (.node id) key) s w s ∧ s.Holds w ((F.get? key).getD .null) ∧ ¬ s.Reaches w id := by
  obtain ⟨id', values, heq, hcell, hentries⟩ := Store.holds_object.mp hheld
  obtain rfl := Value.node.inj heq
  have hread : Runs (fieldOf (.node id) key) s ((values.get? key).getD .null) s :=
    runs_fieldOf.mpr ⟨⟨id, values, Store.shape_node hcell, rfl⟩, rfl⟩
  refine ⟨_, hread, ?_⟩
  rcases Store.get?_of_holds (.text key) hentries with ⟨hnone, hnone'⟩ | ⟨w, t, hw, ht, hwt⟩
  · rw [hnone, hnone']
    exact ⟨Store.holds_scalar.mpr rfl, Store.not_reaches_scalar⟩
  · rw [hw, ht]
    exact ⟨hwt, hheld.not_reaches_of_part hcell (Entries.mem_values_of_get? hw)⟩

/-- What is put into an object is there afterwards, if the object is no part of it. -/
theorem exists_runs_putField_of_holds (key : String) (hheld : s.Holds (.node id) (.object F)) (hw : s.Holds w t)
    (hnot : ¬ s.Reaches w id) : ∃ s', Runs (putField (.node id) key w) s () s' ∧
      s'.Holds (.node id) (.object (F.put key t)) ∧ s.KeepsOthers id s' := by
  obtain ⟨id', values, heq, hcell, hentries⟩ := Store.holds_object.mp hheld
  obtain rfl := Value.node.inj heq
  refine ⟨_, runs_putField.mpr ⟨id, values, Store.shape_node hcell, rfl⟩, ?_, .set⟩
  refine Store.holds_object.mpr ⟨id, values.put key w, rfl, ?_, ?_⟩
  · rw [Store.cells_set, if_pos ⟨rfl, Store.lt_size_of_cell hcell⟩]
  · refine forall₂_imp_of_mem (fun e he u _ hu => ⟨hu.1, hu.2.set ?_⟩) (Store.holds_put hentries hw)
    rcases Entries.mem_or_eq_of_mem_put he with hmem | rfl
    · exact hheld.not_reaches_of_part hcell (List.mem_map_of_mem hmem)
    · exact hnot

/-- What is taken out of an object is not there afterwards. -/
theorem exists_runs_removeField_of_holds (hheld : s.Holds (.node id) (.object F)) (hhas : Entries.has F key = true) :
    ∃ s', Runs (removeField (.node id) key) s () s' ∧
      s'.Holds (.node id) (.object (F.remove key)) ∧ s.KeepsOthers id s' := by
  obtain ⟨id', values, heq, hcell, hentries⟩ := Store.holds_object.mp hheld
  obtain rfl := Value.node.inj heq
  have hhas' : values.has key = true := by rw [Store.has_of_holds hentries, hhas]
  refine ⟨_, runs_removeField.mpr ⟨id, values, Store.shape_node hcell, hhas', rfl⟩, ?_, .set⟩
  refine Store.holds_object.mpr ⟨id, values.remove key, rfl, ?_, ?_⟩
  · rw [Store.cells_set, if_pos ⟨rfl, Store.lt_size_of_cell hcell⟩]
  · refine forall₂_imp_of_mem (fun e he u _ hu => ⟨hu.1, hu.2.set ?_⟩) (Store.holds_remove hentries)
    exact hheld.not_reaches_of_part hcell (List.mem_map_of_mem (Entries.mem_of_mem_remove he))

/-- A new node whose parts hold trees and lie apart from an object is put into the object. -/
theorem exists_runs_put_new {cell : Cell} (hheld : s.Holds (.node id) (.object F))
    (hnew : (s.add cell).2.Holds (s.add cell).1 t) (hparts : ∀ w ∈ cell.parts, ¬ s.Reaches w id ∧ ∃ u, s.Holds w u) :
    ∃ s', Runs (addCell cell >>= putField (.node id) key) s () s' ∧
      s'.Holds (.node id) (.object (F.put key t)) ∧ s.KeepsOthers id s' := by
  have hgrows := Store.Grows.add s cell
  have hnot : ¬ (s.add cell).2.Reaches (s.add cell).1 id := by
    intro hreach
    rcases Store.eq_or_of_reaches_add hreach with rfl | ⟨w, hw, hbelow⟩
    · exact absurd hheld.lt_size (lt_irrefl _)
    · obtain ⟨hapart, u, hu⟩ := hparts w hw
      exact hapart (hbelow.of_agree fun i hi => hgrows.agree i (hu.reaches_lt hi))
  obtain ⟨s', hruns, hheld', hothers⟩ := exists_runs_putField_of_holds key (hheld.extend hgrows) hnew hnot
  exact ⟨s', runs_bind.mpr ⟨_, _, runs_addCell.mpr ⟨rfl, rfl⟩, hruns⟩, hheld', (Store.KeepsOthers.of_grows hgrows).trans hothers⟩

/-- A new list of scalars is put into an object. -/
theorem exists_runs_put_newList (hheld : s.Holds (.node id) (.object F)) (key : String) :
    ∃ s', Runs (newList (keys.map .scalar) >>= putField (.node id) key) s () s' ∧
      s'.Holds (.node id) (.object (F.put key (.list (keys.map .scalar)))) ∧ s.KeepsOthers id s' := by
  refine exists_runs_put_new hheld ?_ fun w hw => ?_
  · refine Store.holds_list.mpr ⟨_, _, rfl, by rw [Store.cells_add, if_pos rfl], ?_⟩
    simp [List.forall₂_map_left_iff, List.forall₂_map_right_iff, List.forall₂_same]
  · obtain ⟨key, -, rfl⟩ := List.mem_map.mp hw
    exact ⟨Store.not_reaches_scalar, _, Store.holds_scalar.mpr rfl⟩


end Edit

end DeviceApi
