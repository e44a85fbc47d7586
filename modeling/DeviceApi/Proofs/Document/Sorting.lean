import DeviceApi.Document.Order
import Mathlib.Data.List.Lex
import Mathlib.Order.Lattice

/-!
# Sorting

A comparison that goes by a rank sorts a list by that rank: the sort succeeds, and it answers the same items in
the order of their ranks. Texts are compared by the codes of their characters, and no two texts have the same
codes.
-/

namespace DeviceApi

namespace Sorting

variable {ε α κ : Type} [LinearOrder κ] {less : α → α → Except ε Bool} {rank : α → κ} {items rest : List α}
  {sorted : Array α} {x : α}

/-- The items are compared by their ranks. -/
def Ranks (less : α → α → Except ε Bool) (rank : α → κ) (items : List α) : Prop :=
  ∀ x ∈ items, ∀ y ∈ items, less x y = .ok (decide (rank x < rank y))

/-- The items stand in the order of their ranks. -/
def Ordered (rank : α → κ) (items : List α) : Prop := items.Pairwise fun x y => rank x ≤ rank y

theorem Ranks.of_subset {others : List α} (h : Ranks less rank items) (hsubset : others ⊆ items) :
    Ranks less rank others := fun x hx y hy => h x (hsubset hx) y (hsubset hy)

/-! ## Inserting -/

/-- The place of a new item divides what is not greater from what is greater. -/
structure Divides (rank : α → κ) (items : List α) (x : α) (place : Nat) : Prop where
  le_length : place ≤ items.length
  before : ∀ y ∈ items.take place, rank y ≤ rank x
  behind : ∀ y ∈ items.drop place, rank x < rank y

/-- The place stays between what is known not to be greater and what is known to be greater. Each step halves
the range between the two. -/
theorem exists_placeOf (hordered : Ordered rank sorted.toList)
    (hless : ∀ y ∈ sorted.toList, less x y = .ok (decide (rank x < rank y))) {fuel low high : Nat}
    (hlow : low ≤ high) (hhigh : high ≤ sorted.size) (hfuel : high - low < fuel)
    (hbefore : ∀ y ∈ sorted.toList.take low, rank y ≤ rank x)
    (hbehind : ∀ y ∈ sorted.toList.drop high, rank x < rank y) :
    ∃ place, placeOf less x sorted fuel low high = .ok place ∧ Divides rank sorted.toList x place := by
  induction fuel generalizing low high with
  | zero => omega
  | succ fuel ih =>
    rw [placeOf]
    split
    · next hlt =>
      have hmiddle : low + (high - low) / 2 < sorted.size := by omega
      have hlength : low + (high - low) / 2 < sorted.toList.length := by simpa using hmiddle
      have hmem : sorted.toList[low + (high - low) / 2] ∈ sorted.toList := List.getElem_mem hlength
      have hpairs := List.pairwise_iff_getElem.mp hordered
      simp only [Array.getElem?_eq_getElem hmiddle, ← Array.getElem_toList, hless _ hmem]
      by_cases hrank : rank x < rank sorted.toList[low + (high - low) / 2]
      · simp only [hrank, decide_true, bind, Except.bind, if_true]
        refine ih (by omega) (by omega) (by omega) hbefore fun y hy => ?_
        obtain ⟨i, hi, rfl⟩ := List.mem_drop_iff_getElem.mp hy
        rcases Nat.eq_zero_or_pos i with rfl | hpos
        · exact hrank
        · exact hrank.trans_le (hpairs _ _ hlength (by omega) (by omega))
      · simp only [hrank, decide_false, bind, Except.bind, Bool.false_eq_true, if_false]
        refine ih (by omega) hhigh (by omega) (fun y hy => ?_) hbehind
        obtain ⟨i, hi, rfl⟩ := List.mem_take_iff_getElem.mp hy
        rcases Nat.lt_or_ge i (low + (high - low) / 2) with hbelow | habove
        · exact (hpairs _ _ (by omega) hlength hbelow).trans (not_lt.mp hrank)
        · obtain rfl : i = low + (high - low) / 2 := by omega
          exact not_lt.mp hrank
    · next hnot =>
      obtain rfl : low = high := by omega
      exact ⟨low, rfl, by simpa using hhigh, hbefore, hbehind⟩

/-- An item at a place that divides the others keeps them in order. -/
theorem Divides.ordered {place : Nat} (h : Divides rank items x place) (hordered : Ordered rank items) :
    Ordered rank (items.take place ++ x :: items.drop place) := by
  have hsplit : Ordered rank (items.take place ++ items.drop place) := by
    rwa [List.take_append_drop]
  obtain ⟨htake, hdrop, hacross⟩ := List.pairwise_append.mp hsplit
  refine List.pairwise_append.mpr ⟨htake, List.pairwise_cons.mpr ⟨fun y hy => (h.behind y hy).le, hdrop⟩, ?_⟩
  intro y hy z hz
  rcases List.mem_cons.mp hz with rfl | hz
  · exact h.before y hy
  · exact hacross y hy z hz

theorem perm_take_cons_drop (place : Nat) : (items.take place ++ x :: items.drop place).Perm (x :: items) :=
  List.perm_middle.trans (.cons x (by rw [List.take_append_drop]))

/-- Putting items among ordered ones keeps the order. -/
theorem exists_insertAll (hranks : Ranks less rank (sorted.toList ++ rest)) (hordered : Ordered rank sorted.toList) :
    ∃ answer, insertAll less sorted rest = .ok answer ∧ Ordered rank answer.toList ∧
      answer.toList.Perm (sorted.toList ++ rest) := by
  induction rest generalizing sorted with
  | nil => exact ⟨sorted, rfl, hordered, by rw [List.append_nil]⟩
  | cons x rest ih =>
    have hless : ∀ y ∈ sorted.toList, less x y = .ok (decide (rank x < rank y)) := fun y hy =>
      hranks x (by simp) y (List.mem_append_left _ hy)
    have hbefore : ∀ y ∈ sorted.toList.take 0, rank y ≤ rank x := by simp
    have hbehind : ∀ y ∈ sorted.toList.drop sorted.size, rank x < rank y := by
      rw [List.drop_of_length_le (by rw [Array.length_toList])]
      simp
    have hfuel : sorted.size - 0 < sorted.size + 1 := by omega
    obtain ⟨place, hplace, hdivides⟩ := exists_placeOf hordered hless (Nat.zero_le sorted.size) le_rfl
      hfuel hbefore hbehind
    have hperm : (sorted.toList.take place ++ x :: sorted.toList.drop place ++ rest).Perm
        (sorted.toList ++ x :: rest) :=
      (perm_take_cons_drop place).append_right rest |>.trans List.perm_middle.symm
    have hranks' : Ranks less rank
        ((sorted.toList.take place ++ x :: sorted.toList.drop place).toArray.toList ++ rest) :=
      hranks.of_subset hperm.subset
    obtain ⟨answer, hanswer, hsorted, hall⟩ := ih hranks' (hdivides.ordered hordered)
    refine ⟨answer, ?_, hsorted, hall.trans hperm⟩
    rw [insertAll, hplace]
    exact hanswer

/-! ## Runs -/

/-- A run that goes on is ordered in its direction. -/
theorem exists_takeRun (falling : Bool) (hranks : Ranks less rank (x :: items)) :
    ∃ run rest, takeRun less falling x items = .ok (run, rest) ∧ items = run ++ rest ∧
      (x :: run).Pairwise fun y z => decide (rank z < rank y) = falling := by
  induction items generalizing x with
  | nil => exact ⟨[], [], rfl, rfl, by simp⟩
  | cons y items ih =>
    have hfirst : less y x = .ok (decide (rank y < rank x)) := hranks y (by simp) x (by simp)
    rw [takeRun, hfirst]
    by_cases hgoes : decide (rank y < rank x) = falling
    · obtain ⟨run, rest, hrun, hsplit, hpairs⟩ := ih (hranks.of_subset (List.subset_cons_self x _))
      refine ⟨y :: run, rest, ?_, by rw [hsplit, List.cons_append], ?_⟩
      · simp [bind, Except.bind, hgoes, hrun, pure, Except.pure]
      · refine List.pairwise_cons.mpr ⟨fun z hz => ?_, hpairs⟩
        rcases List.mem_cons.mp hz with rfl | hz
        · exact hgoes
        · have hnext := (List.pairwise_cons.mp hpairs).1 z hz
          cases falling with
          | true =>
            simp only [decide_eq_true_eq] at hgoes hnext ⊢
            exact hnext.trans hgoes
          | false =>
            simp only [decide_eq_false_iff_not, not_lt] at hgoes hnext ⊢
            exact hgoes.trans hnext
    · exact ⟨[], y :: items, by simp [bind, Except.bind, hgoes, pure, Except.pure], rfl, by simp⟩

/-- A comparison by rank sorts by rank. -/
theorem exists_sort (hranks : Ranks less rank items) :
    ∃ answer, sort less items = .ok answer ∧ Ordered rank answer ∧ answer.Perm items := by
  match items with
  | [] => exact ⟨[], rfl, .nil, .nil⟩
  | [x] => exact ⟨[x], rfl, by simp [Ordered], .refl _⟩
  | x :: y :: items =>
    obtain ⟨run, rest, hrun, rfl, hpairs⟩ := exists_takeRun (decide (rank y < rank x))
      (hranks.of_subset (List.subset_cons_self x _))
    have hall : (x :: y :: run).Pairwise fun a b => decide (rank b < rank a) = decide (rank y < rank x) := by
      refine List.pairwise_cons.mpr ⟨fun z hz => ?_, hpairs⟩
      rcases List.mem_cons.mp hz with rfl | hz
      · rfl
      · have hnext := (List.pairwise_cons.mp hpairs).1 z hz
        by_cases hlt : rank y < rank x
        · simp only [hlt, decide_true, decide_eq_true_eq] at hnext ⊢
          exact hnext.trans hlt
        · simp only [hlt, decide_false, decide_eq_false_iff_not, not_lt] at hnext ⊢
          exact (not_lt.mp hlt).trans hnext
    -- A falling run is turned around, and then what has been taken is ordered in both cases.
    have hstart : ∃ first : List α, (if decide (rank y < rank x) then (x :: y :: run).reverse else x :: y :: run) =
        first ∧ Ordered rank first ∧ first.Perm (x :: y :: run) := by
      by_cases hlt : rank y < rank x
      · refine ⟨_, rfl, ?_, ?_⟩ <;> simp only [hlt, decide_true, if_true]
        · refine List.pairwise_reverse.mpr (hall.imp fun hab => ?_)
          simp only [hlt, decide_true, decide_eq_true_eq] at hab
          exact hab.le
        · exact List.reverse_perm _
      · refine ⟨_, rfl, ?_, ?_⟩ <;> simp only [hlt, decide_false, Bool.false_eq_true, if_false]
        · refine hall.imp fun hab => ?_
          simpa only [hlt, decide_false, decide_eq_false_iff_not, not_lt] using hab
        · exact .refl _
    obtain ⟨first, hfirst, hordered, hperm⟩ := hstart
    have hperm' : (first ++ rest).Perm (x :: y :: (run ++ rest)) := by
      simpa using hperm.append_right rest
    have hranks' : Ranks less rank (first.toArray.toList ++ rest) := hranks.of_subset hperm'.subset
    obtain ⟨answer, hanswer, hsorted, hsame⟩ := exists_insertAll hranks' hordered
    refine ⟨answer.toList, ?_, hsorted, hsame.trans hperm'⟩
    simp only [sort, hranks y (by simp) x (by simp), hrun, bind, Except.bind, hfirst, hanswer, pure, Except.pure]

/-- What is in the order of the ranks is the answer, if no two items have the same rank. -/
theorem sort_eq_of_perm {answer : List α} (hranks : Ranks less rank items)
    (hinjective : ∀ x ∈ items, ∀ y ∈ items, rank x = rank y → x = y) (hperm : answer.Perm items)
    (hordered : Ordered rank answer) : sort less items = .ok answer := by
  obtain ⟨found, hfound, hsorted, hsame⟩ := exists_sort hranks
  rw [hfound, List.Perm.eq_of_pairwise ?_ hsorted hordered (hsame.trans hperm.symm)]
  intro x y hx hy hle hge
  exact hinjective x (hsame.mem_iff.mp hx) y (hperm.mem_iff.mp hy) (le_antisymm hle hge)

theorem ordered_mergeSort (rank : α → κ) (items : List α) :
    Ordered rank (items.mergeSort fun x y => decide (rank x ≤ rank y)) := by
  refine (List.pairwise_mergeSort (fun x y z hxy hyz => ?_) (fun x y => ?_) items).imp fun hle => ?_
  · simp only [decide_eq_true_eq] at hxy hyz ⊢
    exact hxy.trans hyz
  · simpa using le_total (rank x) (rank y)
  · simpa using hle

end Sorting

/-! ## Texts -/

namespace Text

/-- The codes of the characters of a text. -/
def codes (s : String) : List Nat := s.toList.map codeOf

theorem not_isHalf_toNat (c : Char) : isHalf c.toNat = false := by
  have hvalid : c.toNat < 0xD800 ∨ 0xDFFF < c.toNat ∧ c.toNat < 0x110000 := c.valid
  simp only [isHalf, Bool.and_eq_false_iff, decide_eq_false_iff_not]
  omega

theorem charOfCode_codeOf (c : Char) : charOfCode (codeOf c) = c := by
  by_cases hhalf : isHalf (c.toNat - halfShift) = true
  · have hle : halfShift ≤ c.toNat := by
      simp only [isHalf, Bool.and_eq_true, decide_eq_true_eq] at hhalf
      omega
    rw [codeOf, if_pos hhalf, charOfCode, if_pos hhalf, Nat.sub_add_cancel hle, Char.ofNat_toNat]
  · rw [codeOf, if_neg hhalf, charOfCode, if_neg (by simp [not_isHalf_toNat]), Char.ofNat_toNat]

theorem codeOf_injective : Function.Injective codeOf := Function.LeftInverse.injective charOfCode_codeOf

/-- No two texts have the same codes. -/
theorem codes_injective : Function.Injective codes := fun _ _ h =>
  String.toList_inj.mp (List.map_injective_iff.mpr codeOf_injective h)

theorem lessChars_eq (cs ds : List Char) : lessChars cs ds = decide (cs.map codeOf < ds.map codeOf) := by
  induction cs generalizing ds with
  | nil => cases ds <;> simp [lessChars]
  | cons c cs ih =>
    cases ds with
    | nil => simp [lessChars]
    | cons d ds =>
      rw [lessChars, ih]
      by_cases heq : codeOf c = codeOf d
      · simp [heq]
      · simp [heq, List.cons_lt_cons_iff]

/-- Texts are compared by their codes. -/
theorem less_eq (s t : String) : less s t = decide (codes s < codes t) := lessChars_eq _ _

end Text

/-- The codes of a key. -/
def Scalar.codes : Scalar → List Nat
  | .text s => Text.codes s
  | _ => []

/-- Texts that stand for something are compared by their codes. -/
theorem Sorting.ranks_of_texts {α : Type} {key : α → Scalar} {items : List α}
    (htexts : ∀ x ∈ items, ∃ s, key x = .text s) :
    Ranks (fun x y => (key x).less (key y)) (fun x => (key x).codes) items := by
  intro x hx y hy
  obtain ⟨s, hs⟩ := htexts x hx
  obtain ⟨t, ht⟩ := htexts y hy
  simp only [hs, ht]
  exact congrArg Except.ok (Text.less_eq s t)

end DeviceApi
