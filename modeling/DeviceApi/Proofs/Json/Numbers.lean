import DeviceApi.Json.Reader
import DeviceApi.Json.Writer
import Mathlib.Tactic.NormNum

/-!
# Integers in JSON

An integer is written with its decimal digits, and these are read back as the integer, whatever follows them
that does not go on with the number.
-/

namespace DeviceApi.Json

variable {n : Nat} {i : Int} {rest : List Char}

/-! ## Digits -/

/-- The digits of a number other than zero do not begin with a zero. -/
theorem exists_head_toDigits (hn : 0 < n) :
    ∃ c cs, Nat.toDigits 10 n = c :: cs ∧ c ≠ '0' ∧ c.isDigit = true := by
  induction n using Nat.strong_induction_on with
  | _ n ih =>
    rcases Nat.lt_or_ge n 10 with hlt | hge
    · rw [Nat.toDigits_of_lt_base hlt]
      have hall : ∀ n : Fin 10, 0 < n.val → Nat.digitChar n.val ≠ '0' ∧ (Nat.digitChar n.val).isDigit = true := by
        decide
      obtain ⟨hne, hdigit⟩ := hall ⟨n, hlt⟩ hn
      exact ⟨_, _, rfl, hne, hdigit⟩
    · obtain ⟨c, cs, htens, hne, hdigit⟩ := ih (n / 10) (by omega) (by omega)
      rw [Nat.toDigits_of_base_le (by decide) hge, htens]
      exact ⟨c, _, rfl, hne, hdigit⟩

theorem all_isDigit_toDigits (n : Nat) : ∀ c ∈ Nat.toDigits 10 n, c.isDigit = true := fun _ hc =>
  Nat.isDigit_of_mem_toDigits (by decide) le_rfl hc

theorem digitsValue_toDigits (n : Nat) : digitsValue (Nat.toDigits 10 n) = n :=
  Nat.ofDigitChars_ten_toDigits

/-- An integer that has a decimal text has few enough digits. -/
theorem length_toDigits_le (h : Numeral.hasDecimalText i = true) :
    (Nat.toDigits 10 i.natAbs).length ≤ Numeral.maxDigits := by
  have hmany : 20 ≤ Numeral.maxDigits := by decide
  rw [Nat.length_toDigits_le_iff (by decide) (by decide)]
  simp only [Numeral.hasDecimalText, Bool.or_eq_true, decide_eq_true_eq, Nat.pow_eq] at h
  generalize Numeral.maxDigits = most at h hmany ⊢
  rcases h with h | h
  · calc i.natAbs < 2 ^ 64 := h
      _ ≤ 10 ^ 20 := by norm_num
      _ ≤ 10 ^ most := Nat.pow_le_pow_right (by decide) hmany
  · exact h

theorem toList_toString (i : Int) :
    (toString i).toList = if i < 0 then '-' :: Nat.toDigits 10 i.natAbs else Nat.toDigits 10 i.natAbs := by
  cases i with
  | ofNat m =>
    rw [if_neg (by simp)]
    exact Nat.toList_repr
  | negSucc m =>
    rw [if_pos (Int.negSucc_lt_zero m)]
    change ("-" ++ Nat.repr (m + 1)).toList = _
    rw [String.toList_append, Nat.toList_repr]
    rfl

/-! ## Reading -/

/-- The text does not go on with a number. -/
def Ends (rest : List Char) : Prop :=
  ∀ c ∈ rest.head?, c.isDigit = false ∧ c ≠ '.' ∧ c ≠ 'e' ∧ c ≠ 'E'

theorem takeFraction_of_ends (h : Ends rest) : takeFraction rest = none := by
  cases rest with
  | nil => rfl
  | cons c cs =>
    have hc := (h c rfl).2.1
    rw [takeFraction]
    rintro cs' heq
    simp_all

theorem takeExponent_of_ends (h : Ends rest) : takeExponent rest = none := by
  cases rest with
  | nil => rfl
  | cons c cs =>
    obtain ⟨-, -, hlower, hupper⟩ := h c rfl
    unfold takeExponent
    exact if_neg (by simp [hlower, hupper])

theorem span_digits {digits : List Char} (hdigits : ∀ c ∈ digits, c.isDigit = true) (h : Ends rest) :
    (digits ++ rest).takeWhile Char.isDigit = digits ∧ (digits ++ rest).dropWhile Char.isDigit = rest := by
  have hrest : rest.takeWhile Char.isDigit = [] ∧ rest.dropWhile Char.isDigit = rest := by
    cases rest with
    | nil => exact ⟨rfl, rfl⟩
    | cons c cs => simp [(h c rfl).1]
  rw [List.takeWhile_append_of_pos hdigits, List.dropWhile_append_of_pos hdigits, hrest.1, hrest.2]
  exact ⟨List.append_nil _, rfl⟩

/-- The digits of a number are read back. -/
theorem readNumber_toDigits {negative : Bool} (hlength : (Nat.toDigits 10 n).length ≤ Numeral.maxDigits)
    (h : Ends rest) : readNumber negative (Nat.toDigits 10 n ++ rest) =
      .ok (.int (if negative then -(n : Int) else n), rest) := by
  have hwhole : integer negative (Nat.toDigits 10 n) = .ok (.int (if negative then -(n : Int) else n)) := by
    rw [integer, if_neg (by omega), digitsValue_toDigits]
  rcases Nat.eq_zero_or_pos n with rfl | hpos
  · rw [Nat.toDigits_zero] at hwhole ⊢
    simp only [readNumber, List.singleton_append, takeFraction_of_ends h, takeExponent_of_ends h, bind, Except.bind,
      pure, Except.pure, hwhole]
  · obtain ⟨c, cs, heq, hne, hdigit⟩ := exists_head_toDigits hpos
    obtain ⟨htake, hdrop⟩ := span_digits (all_isDigit_toDigits n) h
    rw [heq] at hwhole htake hdrop ⊢
    unfold readNumber
    rw [List.cons_append] at htake hdrop ⊢
    split
    · simp_all
    · next d ds hcons =>
      obtain ⟨rfl, rfl⟩ := List.cons.inj hcons
      simp only [hdigit, if_true, htake, hdrop, takeFraction_of_ends h, takeExponent_of_ends h, bind, Except.bind,
        pure, Except.pure, hwhole]
    · simp_all

end DeviceApi.Json
