import DeviceApi.Proofs.Document.Frames
import DeviceApi.Proofs.Json.RoundTrip

/-!
# The order of keys

Trees that differ only in the order of the keys of their objects are equal to a comparison of values, they are sorted
alike, and they are written alike if keys are sorted.
-/

namespace DeviceApi

/-! ## Entries in another order -/

namespace Entries

variable {α : Type} {entries others : Entries α} {key : String}

theorem keys_map_value {β : Type} {f : Scalar × α → β} : Entries.keys (entries.map fun e => (e.1, f e)) = entries.keys := by
  simp [Entries.keys]

theorem TextKeyed.of_sublist {β : Type} {others : Entries β} (h : entries.TextKeyed)
    (hsublist : others.keys.Sublist entries.keys) : others.TextKeyed where
  exists_text key hkey := h.exists_text key (hsublist.subset hkey)
  nodup := h.nodup.sublist hsublist

theorem TextKeyed.perm (h : entries.TextKeyed) (hperm : entries.Perm others) : others.TextKeyed :=
  h.of_keys_perm (hperm.map Prod.fst).symm

/-- What is found under a key does not depend on the order of the entries. -/
theorem get?_eq_of_perm (h : entries.TextKeyed) (hperm : entries.Perm others) :
    others.get? (.text key) = entries.get? (.text key) := by
  cases hget : entries.get? (.text key) with
  | some v => exact get?_of_mem (h.perm hperm).nodup (hperm.mem_iff.mp (mem_of_get? hget))
  | none =>
    rw [get?_eq_none] at hget ⊢
    exact fun hmem => hget ((hperm.map Prod.fst).mem_iff.mpr hmem)

/-- Entries in another order are the same in the order of their keys. -/
theorem mergeSort_eq_of_perm (h : entries.TextKeyed) (hperm : entries.Perm others) :
    entries.mergeSort Tree.keyOrder = others.mergeSort Tree.keyOrder := by
  have hleft := List.mergeSort_perm entries Tree.keyOrder
  have hright := List.mergeSort_perm others Tree.keyOrder
  have hordered : ∀ es : Entries α, (es.mergeSort Tree.keyOrder).Pairwise fun e e' => e.1.codes ≤ e'.1.codes :=
    Sorting.ordered_mergeSort fun e : Scalar × α => e.1.codes
  refine List.Perm.eq_of_pairwise (fun e e' he he' hle hge => ?_) (hordered entries) (hordered others)
    (hleft.trans (hperm.trans hright.symm))
  have hmem : e ∈ entries := hleft.mem_iff.mp he
  have hmem' : e' ∈ entries := hperm.mem_iff.mpr (hright.mem_iff.mp he')
  obtain ⟨s, hs⟩ := h.exists_text e.1 (List.mem_map_of_mem hmem)
  obtain ⟨s', hs'⟩ := h.exists_text e'.1 (List.mem_map_of_mem hmem')
  have hkeys : e.1 = e'.1 := by
    have hcodes := le_antisymm hle hge
    rw [hs, hs'] at hcodes ⊢
    exact congrArg Scalar.text (Text.codes_injective hcodes)
  exact List.inj_on_of_nodup_map h.nodup hmem hmem' hkeys

end Entries

/-! ## Sorting images -/

namespace Sorting

variable {ε α β : Type} {less : β → β → Except ε Bool} {f : α → β}

theorem placeOf_map {x : α} {sorted : Array α} {fuel low high : Nat} :
    placeOf less (f x) (sorted.map f) fuel low high = placeOf (fun y z => less (f y) (f z)) x sorted fuel low high := by
  induction fuel generalizing low high with
  | zero => rfl
  | succ fuel ih =>
    rw [placeOf, placeOf]
    split
    · dsimp only
      rw [Array.getElem?_map]
      cases sorted[low + (high - low) / 2]? with
      | none => rfl
      | some y => simp only [Option.map_some, ih]
    · rfl

theorem insertAll_map {sorted : Array α} {items : List α} :
    insertAll less (sorted.map f) (items.map f) =
      (insertAll (fun y z => less (f y) (f z)) sorted items).map (Array.map f) := by
  induction items generalizing sorted with
  | nil => rfl
  | cons x rest ih =>
    rw [List.map_cons, insertAll, insertAll, placeOf_map, Array.size_map]
    cases placeOf (fun y z => less (f y) (f z)) x sorted (sorted.size + 1) 0 sorted.size with
    | error m => rfl
    | ok place =>
      have hplaced : ((sorted.map f).toList.take place ++ f x :: (sorted.map f).toList.drop place).toArray =
          (sorted.toList.take place ++ x :: sorted.toList.drop place).toArray.map f := by simp
      simp only [bind, Except.bind]
      rw [hplaced, ih]

theorem takeRun_map {falling : Bool} {x : α} {items : List α} :
    takeRun less falling (f x) (items.map f) =
      (takeRun (fun y z => less (f y) (f z)) falling x items).map fun p => (p.1.map f, p.2.map f) := by
  induction items generalizing x with
  | nil => rfl
  | cons y rest ih =>
    rw [List.map_cons, takeRun, takeRun, ih]
    cases less (f y) (f x) with
    | error m => rfl
    | ok b =>
      simp only [bind, Except.bind]
      split
      · cases takeRun (fun y z => less (f y) (f z)) falling y rest <;> rfl
      · rfl

/-- Images are sorted as the items are whose images they are. -/
theorem sort_map {items : List α} :
    sort less (items.map f) = (sort (fun x y => less (f x) (f y)) items).map (List.map f) := by
  match items with
  | [] => rfl
  | [x] => rfl
  | x :: y :: items =>
    simp only [List.map_cons, sort, takeRun_map]
    cases less (f y) (f x) with
    | error m => rfl
    | ok falling =>
      simp only [bind, Except.bind]
      cases takeRun (fun y z => less (f y) (f z)) falling y items with
      | error m => rfl
      | ok taken =>
        obtain ⟨run, rest⟩ := taken
        have hfirst : (if falling = true then (f x :: f y :: run.map f).reverse else f x :: f y :: run.map f).toArray =
            (if falling = true then (x :: y :: run).reverse else x :: y :: run).toArray.map f := by
          split <;> simp
        simp only [Except.map, hfirst]
        rw [insertAll_map]
        cases insertAll (fun y z => less (f y) (f z))
          (if falling = true then (x :: y :: run).reverse else x :: y :: run).toArray rest <;>
          simp [Except.map, pure, Except.pure]

end Sorting

namespace Tree

variable {t t' u u' : Tree} {items items' : List Tree} {entries entries' : List (Scalar × Tree)} {key : String}
  {level : Nat}

/-! ## Keys in order -/

theorem sortKeys_list : sortKeys (.list items) = .list (items.map sortKeys) := by
  rw [sortKeys, sortKeysOfItems_eq]

theorem sortKeys_object_eq_mergeSort :
    sortKeys (.object entries) = .object ((entries.map fun e => (e.1, e.2.sortKeys)).mergeSort keyOrder) := by
  rw [sortKeys, sortKeysOfEntries_eq]

theorem exists_object_of_sortKeys (h : t.sortKeys = .object entries) : ∃ fields, t = .object fields := by
  cases t with
  | object fields => exact ⟨fields, rfl⟩
  | list items => rw [sortKeys_list] at h; cases h
  | _ => cases h

theorem textKeyed_map_sortKeys (h : Entries.TextKeyed entries) :
    Entries.TextKeyed (entries.map fun e => (e.1, e.2.sortKeys)) :=
  h.of_keys_perm (.of_eq Entries.keys_map_value)

/-- What is found under a key once keys are in order. -/
theorem get?_mergeSort_sortKeys (h : Entries.TextKeyed entries) :
    Entries.get? (.text key) ((entries.map fun e => (e.1, e.2.sortKeys)).mergeSort keyOrder) =
      (Entries.get? (.text key) entries).map sortKeys := by
  rw [Entries.get?_eq_of_perm (textKeyed_map_sortKeys h) (List.mergeSort_perm _ keyOrder).symm, Entries.get?_map]

theorem IsJson.sortKeys (h : t.IsJson) : t.sortKeys.IsJson := by
  induction t using Tree.inductionOn with
  | scalar a => trivial
  | list items ih =>
    rw [sortKeys_list, IsJson, areJson_iff]
    intro u hu
    obtain ⟨x, hx, rfl⟩ := List.mem_map.mp hu
    exact ih x hx (areJson_iff.mp h x hx)
  | object entries ih =>
    have hperm := List.mergeSort_perm (entries.map fun e => (e.1, e.2.sortKeys)) keyOrder
    rw [sortKeys_object_eq_mergeSort, IsJson, entriesAreJson_iff]
    refine ⟨(textKeyed_map_sortKeys h.1).perm hperm.symm, fun e he => ?_⟩
    obtain ⟨x, hx, rfl⟩ := List.mem_map.mp (hperm.mem_iff.mp he)
    exact ih x hx (entriesAreJson_iff.mp h.2 x hx)
  | pair | set | enclosing => exact h.elim

theorem sortKeys_sortKeys (ht : t.IsJson) : t.sortKeys.sortKeys = t.sortKeys := by
  induction t using Tree.inductionOn with
  | scalar a => rfl
  | list items ih =>
    rw [sortKeys_list, sortKeys_list, List.map_map]
    exact congrArg list (List.map_congr_left fun u hu => ih u hu (areJson_iff.mp ht u hu))
  | object entries ih =>
    have hperm := List.mergeSort_perm (entries.map fun e => (e.1, e.2.sortKeys)) keyOrder
    have hkeyed := textKeyed_map_sortKeys ht.1
    rw [sortKeys_object_eq_mergeSort, sortKeys_object_eq_mergeSort,
      ← Entries.mergeSort_eq_of_perm (textKeyed_map_sortKeys hkeyed) (hperm.symm.map _), List.map_map]
    refine congrArg (fun es => object (es.mergeSort keyOrder)) (List.map_congr_left fun e he => ?_)
    exact congrArg (e.1, ·) (ih e he (entriesAreJson_iff.mp ht.2 e he))
  | pair | set | enclosing => exact ht.elim

/-! ## Comparing -/

theorem sameEntries_eq_all : sameEntries entries entries' =
    entries.all fun e => match Entries.get? e.1 entries' with
      | some v => same e.2 v
      | none => false := by
  induction entries with
  | nil => rfl
  | cons e rest ih =>
    obtain ⟨key, t⟩ := e
    exact congrArg (and _) ih

/-- Whether trees are equal does not depend on the order of their keys. -/
theorem same_sortKeys (ht : t.IsJson) (hu : u.IsJson) : same t.sortKeys u.sortKeys = same t u := by
  induction t using Tree.inductionOn generalizing u with
  | scalar a => cases u <;> simp [sortKeys, same]
  | list items ih =>
    cases u with
    | list items' =>
      rw [sortKeys_list, sortKeys_list, same, same]
      rw [IsJson, areJson_iff] at ht hu
      induction items generalizing items' with
      | nil => cases items' <;> rfl
      | cons x rest ihrest =>
        cases items' with
        | nil => rfl
        | cons y rest' =>
          rw [List.map_cons, List.map_cons, sameItems, sameItems]
          rw [ih x List.mem_cons_self (ht x List.mem_cons_self) (hu y List.mem_cons_self)]
          rw [ihrest (fun z hz => ih z (List.mem_cons_of_mem _ hz)) (fun z hz => ht z (List.mem_cons_of_mem _ hz)) _
            fun z hz => hu z (List.mem_cons_of_mem _ hz)]
    | _ => simp [sortKeys, same]
  | object entries ih =>
    cases u with
    | object entries' =>
      have hkeyed : Entries.TextKeyed entries' := hu.1
      rw [sortKeys_object_eq_mergeSort, sortKeys_object_eq_mergeSort, same, same, List.length_mergeSort,
        List.length_mergeSort, List.length_map, List.length_map, sameEntries_eq_all, sameEntries_eq_all,
        (List.mergeSort_perm _ keyOrder).all_eq, List.all_map]
      refine congrArg _ (Bool.eq_iff_iff.mpr ?_)
      rw [List.all_eq_true, List.all_eq_true]
      refine forall₂_congr fun e he => ?_
      obtain ⟨key, hkey⟩ := ht.1.exists_text e.1 (List.mem_map_of_mem he)
      simp only [Function.comp_apply, hkey, get?_mergeSort_sortKeys hkeyed]
      cases hget : Entries.get? (.text key) entries' with
      | none => rfl
      | some v =>
        have hv : v.IsJson := hu.part (Entries.mem_values_of_get? hget)
        exact Bool.eq_iff_iff.mp (ih e he (entriesAreJson_iff.mp ht.2 e he) hv)
    | _ => simp [sortKeys, same]
  | pair | set | enclosing => exact ht.elim

/-- Which of two trees comes first does not depend on the order of their keys. -/
theorem less_sortKeys (ht : t.IsJson) (hu : u.IsJson) : less t.sortKeys u.sortKeys = less t u := by
  induction t using Tree.inductionOn generalizing u with
  | scalar a => cases u <;> simp [sortKeys, less]
  | list items ih =>
    cases u with
    | list items' =>
      rw [sortKeys_list, sortKeys_list, less, less]
      rw [IsJson, areJson_iff] at ht hu
      induction items generalizing items' with
      | nil => cases items' <;> rfl
      | cons x rest ihrest =>
        cases items' with
        | nil => rfl
        | cons y rest' =>
          have hx := ht x List.mem_cons_self
          have hy := hu y List.mem_cons_self
          rw [List.map_cons, List.map_cons, lessItems, lessItems, same_sortKeys hx hy, ih x List.mem_cons_self hx hy]
          rw [ihrest (fun z hz => ih z (List.mem_cons_of_mem _ hz)) (fun z hz => ht z (List.mem_cons_of_mem _ hz)) _
            fun z hz => hu z (List.mem_cons_of_mem _ hz)]
    | _ => simp [sortKeys, less]
  | object entries => cases u <;> simp [sortKeys, less]
  | pair | set | enclosing => exact ht.elim

/-- Trees are sorted alike whatever the order of their keys. -/
theorem sort_map_sortKeys (h : ∀ t ∈ items, t.IsJson) :
    Sorting.sort less (items.map sortKeys) = (Sorting.sort less items).map (List.map sortKeys) := by
  obtain ⟨trees, rfl⟩ : ∃ trees : List { t : Tree // t.IsJson }, items = trees.map Subtype.val :=
    ⟨items.attach.map fun t => ⟨t.1, h t.1 t.2⟩, by simp⟩
  have hless : (fun x y : { t : Tree // t.IsJson } => less x.1.sortKeys y.1.sortKeys) = fun x y => less x.1 y.1 := by
    funext x y
    exact less_sortKeys x.2 y.2
  have hsorted : Sorting.sort less (trees.map fun x => x.1.sortKeys) =
      (Sorting.sort (fun x y => less x.1.sortKeys y.1.sortKeys) trees).map (List.map fun x => x.1.sortKeys) :=
    Sorting.sort_map
  rw [List.map_map, Sorting.sort_map (f := Subtype.val)]
  rw [hless] at hsorted
  exact hsorted.trans (by cases Sorting.sort (fun x y => less x.1 y.1) trees <;> simp [Except.map])

end Tree

/-! ## Writing -/

namespace Json

open DeviceApi.Tree

/-- Text with sorted keys is the same for trees whose keys are in order. -/
theorem writeAt_sortKeys {t : Tree} {level : Nat} (ht : t.IsJson) :
    writeAt sortedLine level t.sortKeys = writeAt sortedLine level t := by
  induction t using Tree.inductionOn generalizing level with
  | scalar a => rfl
  | list items ih =>
    rw [sortKeys_list, writeAt, writeAt]
    have hitems : writeItems sortedLine (level + 1) (items.map Tree.sortKeys) =
        writeItems sortedLine (level + 1) items := by
      rw [IsJson, areJson_iff] at ht
      induction items with
      | nil => rfl
      | cons x rest ihrest =>
        rw [List.map_cons, writeItems, writeItems, ih x List.mem_cons_self (ht x List.mem_cons_self)]
        rw [ihrest (fun z hz => ih z (List.mem_cons_of_mem _ hz)) fun z hz => ht z (List.mem_cons_of_mem _ hz)]
    rw [hitems]
  | object entries ih =>
    have hsorted : ((entries.map fun e => (e.1, e.2.sortKeys)).mergeSort keyOrder).mergeSort keyOrder =
        (entries.mergeSort keyOrder).map fun e => (e.1, e.2.sortKeys) := by
      have hkeyed := textKeyed_map_sortKeys ht.1
      rw [← Entries.mergeSort_eq_of_perm hkeyed (List.mergeSort_perm _ keyOrder).symm]
      exact Tree.object.inj (sortKeys_object_eq_mergeSort.symm.trans (sortKeys_object entries))
    have hjson := ht.sortKeys
    rw [sortKeys_object_eq_mergeSort] at hjson ⊢
    rw [writeAt, writeAt, arrange_writeEntries hjson.1, arrange_writeEntries ht.1, hsorted, List.map_map]
    refine congrArg (fun parts => (Except.ok parts).bind _) (List.map_congr_left fun e he => ?_)
    have hmem := (List.mergeSort_perm entries keyOrder).mem_iff.mp he
    exact congrArg (e.1, ·) (ih e hmem (entriesAreJson_iff.mp ht.2 e hmem))
  | pair | set | enclosing => exact ht.elim

end Json

end DeviceApi
