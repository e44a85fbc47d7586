import DeviceApi.Json.Reader
import DeviceApi.Json.Writer
import DeviceApi.Proofs.Document.Sorting
import DeviceApi.Proofs.Text.Encoding

/-!
# Texts in JSON

A text that is written in ASCII is read back as it was, except that halves of characters that follow each other
are read as the character that they make. A text that holds no such halves is read back as it was.
-/

namespace DeviceApi

namespace Text

variable {c : Char} {n : Nat} {rest : List Char}

/-! ## Codes -/

theorem codeOf_lt (c : Char) : codeOf c < 0x110000 := by
  have hvalid : c.toNat < 0xD800 ∨ 0xDFFF < c.toNat ∧ c.toNat < 0x110000 := c.valid
  unfold codeOf
  split <;> omega

theorem isHalf_of_isFirstHalf (h : isFirstHalf n = true) : isHalf n = true := by
  simp only [isFirstHalf, isHalf, Bool.and_eq_true, decide_eq_true_eq] at h ⊢
  omega

/-- The halves that a character behind the first plane is written as make the character again. -/
theorem joinCodes_halves (hcode : 0x10000 ≤ codeOf c) :
    joinCodes (0xD800 + (codeOf c - 0x10000) / 0x400) (0xDC00 + (codeOf c - 0x10000) % 0x400) = c := by
  have hsum : 0x10000 + (0xD800 + (codeOf c - 0x10000) / 0x400 - 0xD800) * 0x400 +
      (0xDC00 + (codeOf c - 0x10000) % 0x400 - 0xDC00) = codeOf c := by
    omega
  have hnot : ¬ isHalf (codeOf c) = true := by
    simp only [isHalf, Bool.and_eq_true, decide_eq_true_eq]
    omega
  have hchar := charOfCode_codeOf c
  rw [charOfCode, if_neg hnot] at hchar
  rw [joinCodes, hsum, hchar]

/-! ## Hexadecimal digits -/

theorem hexDigits_four (n : Nat) : hexDigits 4 n =
    [Nat.digitChar (n / 4096 % 16), Nat.digitChar (n / 256 % 16), Nat.digitChar (n / 16 % 16),
      Nat.digitChar (n % 16)] := by
  simp [hexDigits, Nat.div_div_eq_div_mul]

end Text

namespace Json

open Text

variable {c d : Char} {n fuel : Nat} {rest : List Char}

/-- The four digits of a code unit are read back. -/
theorem readUnit_hexDigits (hn : n < 0x10000) : readUnit (hexDigits 4 n ++ rest) = some (n, rest) := by
  have hlast : ∀ m : Nat, hexValue? (Nat.digitChar (m % 16)) = some (m % 16) := fun m =>
    hexValue?_digitChar (Nat.mod_lt m (by decide))
  have hsum : ((n / 4096 % 16 * 16 + n / 256 % 16) * 16 + n / 16 % 16) * 16 + n % 16 = n := by
    omega
  rw [hexDigits_four, List.cons_append, List.cons_append, List.cons_append, List.cons_append, List.nil_append,
    readUnit]
  simp only [hlast, bind, Option.bind, pure, hsum]

/-- The second half that an escape at the front of a text states, and what follows it. -/
def takeSecondHalf : List Char → Option (Nat × List Char)
  | '\\' :: 'u' :: rest => do
    let (n, rest) ← readUnit rest
    if isSecondHalf n then some (n, rest) else none
  | _ => none

/-- What has been read with a character in front. -/
abbrev withFirst (c : Char) (read : Option (List Char × List Char)) : Option (List Char × List Char) :=
  read.map fun p => (c :: p.1, p.2)

/-! ## One step of reading -/

theorem readChars_quote : readChars (fuel + 1) ('"' :: rest) = some ([], rest) := rfl

theorem readChars_unit (hn : n < 0x10000) (h : isFirstHalf n = true → takeSecondHalf rest = none) :
    readChars (fuel + 1) (unicodeEscape n ++ rest) = withFirst (charOfCode n) (readChars fuel rest) := by
  have hpair : (if isFirstHalf n then takeSecondHalf rest else none) = none := by
    split
    · next hfirst => exact h hfirst
    · rfl
  rw [unicodeEscape, List.cons_append, List.cons_append, readChars, readUnit_hexDigits hn]
  dsimp only [bind, Option.bind, pure]
  split
  · next hsome => exact absurd (hpair.symm.trans hsome) (by simp)
  · cases readChars fuel rest <;> rfl

theorem readChars_units {m : Nat} (hn : n < 0x10000) (hfirst : isFirstHalf n = true) (hm : m < 0x10000)
    (hsecond : isSecondHalf m = true) :
    readChars (fuel + 1) (unicodeEscape n ++ (unicodeEscape m ++ rest)) =
      withFirst (joinCodes n m) (readChars fuel rest) := by
  simp only [unicodeEscape, List.cons_append, readChars, readUnit_hexDigits hn, readUnit_hexDigits hm, hfirst,
    hsecond, bind, Option.bind, pure, if_true]
  cases readChars fuel rest <;> rfl

theorem readChars_plain (hcode : 0x20 ≤ c.toNat) (hquote : c ≠ '"') (hslash : c ≠ '\\') :
    readChars (fuel + 1) (c :: rest) = withFirst c (readChars fuel rest) := by
  rw [readChars]
  · rw [if_neg (by simpa [hslash] using hcode)]
    cases readChars fuel rest <;> rfl
  · exact fun h => absurd h hquote
  · exact fun _ h => absurd h hslash
  · exact fun _ _ h => absurd h hslash

/-- A letter behind a stroke is read as the character that it stands for. -/
theorem readChars_letter : ∀ p ∈ [('"', '"'), ('\\', '\\'), ('n', '\n'), ('r', '\r'), ('t', '\t'), ('b', '\x08'),
    ('f', '\x0c')], ∀ fuel rest,
      readChars (fuel + 1) ('\\' :: p.1 :: rest) = withFirst p.2 (readChars fuel rest) := by
  simp only [List.forall_mem_cons, List.not_mem_nil, false_imp_iff, implies_true, and_true]
  refine ⟨?_, ?_, ?_, ?_, ?_, ?_, ?_⟩
  all_goals
    intro fuel rest
    change (readChars fuel rest >>= fun p => some (_ :: p.1, p.2)) = _
    cases readChars fuel rest <;> rfl

/-! ## Escapes -/

/-- How a character is escaped: as a letter behind a stroke, not at all, as one code unit or as two. -/
inductive Escaped (c : Char) : List Char → Prop
  | letter {e : Char} (hunit : e ≠ 'u') (hcode : codeOf c < 0x80)
      (hread : ∀ fuel rest, readChars (fuel + 1) ('\\' :: e :: rest) = withFirst c (readChars fuel rest)) :
      Escaped c ['\\', e]
  | plain (hcode : 0x20 ≤ c.toNat) (hquote : c ≠ '"') (hslash : c ≠ '\\') (hhalf : isHalf (codeOf c) = false) :
      Escaped c [c]
  | unit (hcode : codeOf c < 0x10000) : Escaped c (unicodeEscape (codeOf c))
  | units (hcode : 0x10000 ≤ codeOf c) :
      Escaped c (unicodeEscape (0xD800 + (codeOf c - 0x10000) / 0x400) ++
        unicodeEscape (0xDC00 + (codeOf c - 0x10000) % 0x400))

theorem escaped_escapeChar (c : Char) : Escaped c (escapeChar true c) := by
  unfold escapeChar
  split
  · exact .letter (by decide) (by decide) (readChars_letter ('"', '"') (by decide))
  · exact .letter (by decide) (by decide) (readChars_letter ('\\', '\\') (by decide))
  · exact .letter (by decide) (by decide) (readChars_letter ('n', '\n') (by decide))
  · exact .letter (by decide) (by decide) (readChars_letter ('r', '\r') (by decide))
  · exact .letter (by decide) (by decide) (readChars_letter ('t', '\t') (by decide))
  · exact .letter (by decide) (by decide) (readChars_letter ('b', '\x08') (by decide))
  · exact .letter (by decide) (by decide) (readChars_letter ('f', '\x0c') (by decide))
  · next hquote hslash _ _ _ _ _ =>
    dsimp only
    split
    · next hlow => exact .unit (by omega)
    · next hlow =>
      split
      · next hplain =>
        replace hplain : codeOf c < 0x7f := by simpa using hplain
        have hcode : codeOf c = c.toNat := by
          unfold codeOf at hplain ⊢
          split
          · next hhalf =>
            rw [if_pos hhalf] at hplain
            simp only [isHalf, Bool.and_eq_true, decide_eq_true_eq] at hhalf
            omega
          · rfl
        refine .plain (by omega) hquote hslash ?_
        simp only [isHalf, Bool.and_eq_false_iff, decide_eq_false_iff_not]
        omega
      · split
        · next hunit => exact .unit hunit
        · next hunit => exact .units (by omega)

theorem isSecondHalf_eq_false (h : n < 0xDC00 ∨ 0xE000 ≤ n) : isSecondHalf n = false := by
  simp only [isSecondHalf, Bool.and_eq_false_iff, decide_eq_false_iff_not]
  omega

theorem takeSecondHalf_unit (hn : n < 0x10000) : takeSecondHalf (unicodeEscape n ++ rest) =
    if isSecondHalf n then some (n, rest) else none := by
  rw [unicodeEscape, List.cons_append, List.cons_append, takeSecondHalf, readUnit_hexDigits hn]
  rfl

/-- The character behind a first half is taken for its second half just when it is one. -/
theorem takeSecondHalf_escapeChar (d : Char) (rest : List Char) :
    takeSecondHalf (escapeChar true d ++ rest) =
      if isSecondHalf (codeOf d) then some (codeOf d, rest) else none := by
  have hescaped := escaped_escapeChar d
  generalize escapeChar true d = text at hescaped
  cases hescaped with
  | letter hunit hcode hread =>
    rw [isSecondHalf_eq_false (by omega), List.cons_append, List.cons_append, takeSecondHalf]
    · rfl
    · rintro _ heq
      simp_all
  | plain hcode hquote hslash hhalf =>
    have hsecond : isSecondHalf (codeOf d) = false := by
      simp only [isHalf, isSecondHalf, Bool.and_eq_false_iff, decide_eq_false_iff_not] at hhalf ⊢
      omega
    rw [hsecond, List.cons_append, takeSecondHalf]
    · rfl
    · rintro _ heq
      simp_all
  | unit hcode => exact takeSecondHalf_unit hcode
  | units hcode =>
    have hlt := codeOf_lt d
    rw [List.append_assoc, takeSecondHalf_unit (by omega), isSecondHalf_eq_false (by omega),
      isSecondHalf_eq_false (by omega)]
    simp only [Bool.false_eq_true, if_false]

/-- A character that is no first half, or does not stand in front of a second one, is read back by itself. -/
theorem readChars_escapeChar (h : isFirstHalf (codeOf c) = true → takeSecondHalf rest = none) :
    readChars (fuel + 1) (escapeChar true c ++ rest) = withFirst c (readChars fuel rest) := by
  have hescaped := escaped_escapeChar c
  generalize escapeChar true c = text at hescaped
  cases hescaped with
  | letter hunit hcode hread => exact hread fuel rest
  | plain hcode hquote hslash hhalf => exact readChars_plain hcode hquote hslash
  | unit hcode =>
    rw [readChars_unit hcode h, charOfCode_codeOf]
  | units hcode =>
    have hlt := codeOf_lt c
    rw [List.append_assoc, readChars_units (by omega) ?_ (by omega) ?_, joinCodes_halves hcode]
    · simp only [isFirstHalf, Bool.and_eq_true, decide_eq_true_eq]
      omega
    · simp only [isSecondHalf, Bool.and_eq_true, decide_eq_true_eq]
      omega

/-- A half of a character is written as one code unit. -/
theorem escapeChar_of_isHalf (h : isHalf (codeOf c) = true) : escapeChar true c = unicodeEscape (codeOf c) := by
  have hrange := h
  simp only [isHalf, Bool.and_eq_true, decide_eq_true_eq] at hrange
  have hescaped := escaped_escapeChar c
  generalize escapeChar true c = text at hescaped
  cases hescaped with
  | letter hunit hcode hread => omega
  | plain hcode hquote hslash hhalf => simp [h] at hhalf
  | unit hcode => rfl
  | units hcode => omega

/-- **A written text is read back with its halves joined.** -/
theorem readChars_flatMap_escapeChar {cs : List Char} (hfuel : cs.length < fuel) :
    readChars fuel (cs.flatMap (escapeChar true) ++ '"' :: rest) = some (joinHalves cs, rest) := by
  induction cs using joinHalves.induct generalizing fuel with
  | case1 =>
    obtain ⟨fuel, rfl⟩ : ∃ m, fuel = m + 1 := ⟨fuel - 1, by simp at hfuel; omega⟩
    exact readChars_quote
  | case2 c =>
    obtain ⟨fuel, rfl⟩ : ∃ m, fuel = m + 2 := ⟨fuel - 2, by simp at hfuel; omega⟩
    rw [List.flatMap_singleton, readChars_escapeChar fun _ => rfl, readChars_quote]
    rfl
  | case3 c d cs hhalves ih =>
    obtain ⟨hfirst, hsecond⟩ := Bool.and_eq_true_iff.mp hhalves
    obtain ⟨fuel, rfl⟩ : ∃ m, fuel = m + 1 := ⟨fuel - 1, by simp at hfuel; omega⟩
    have hhalf : isHalf (codeOf d) = true := by
      simp only [isHalf, isSecondHalf, Bool.and_eq_true, decide_eq_true_eq] at hsecond ⊢
      omega
    have hlt : ∀ {n}, isHalf n = true → n < 0x10000 := by
      intro n hn
      simp only [isHalf, Bool.and_eq_true, decide_eq_true_eq] at hn
      omega
    have hhalf' := isHalf_of_isFirstHalf hfirst
    rw [List.flatMap_cons, List.flatMap_cons, escapeChar_of_isHalf hhalf', escapeChar_of_isHalf hhalf,
      List.append_assoc, List.append_assoc, readChars_units (hlt hhalf') hfirst (hlt hhalf) hsecond,
      ih (by simp at hfuel; omega), joinHalves, if_pos hhalves]
    rfl
  | case4 c d cs hhalves ih =>
    obtain ⟨fuel, rfl⟩ : ∃ m, fuel = m + 1 := ⟨fuel - 1, by simp at hfuel; omega⟩
    rw [List.flatMap_cons, List.append_assoc, readChars_escapeChar, ih (by simpa using hfuel), joinHalves,
      if_neg hhalves]
    · rfl
    · intro hfirst
      rw [List.flatMap_cons, List.append_assoc, takeSecondHalf_escapeChar, if_neg]
      intro hsecond
      simp [hfirst, hsecond] at hhalves

theorem length_le_flatMap_escapeChar (cs : List Char) : cs.length ≤ (cs.flatMap (escapeChar true)).length := by
  induction cs with
  | nil => exact le_rfl
  | cons c cs ih =>
    have hpos : 1 ≤ (escapeChar true c).length := by
      have hescaped := escaped_escapeChar c
      generalize escapeChar true c = text at hescaped
      cases hescaped <;> simp [unicodeEscape]
    rw [List.flatMap_cons, List.length_append, List.length_cons]
    omega

/-- A text whose halves are joined is read back as it was. -/
theorem readText_escaped {s : String} (hs : joinHalves s.toList = s.toList) :
    readText (s.toList.flatMap (escapeChar true) ++ '"' :: rest) = .ok (s, rest) := by
  have hfuel : s.toList.length < (s.toList.flatMap (escapeChar true) ++ '"' :: rest).length + 1 := by
    have := length_le_flatMap_escapeChar s.toList
    rw [List.length_append]
    omega
  rw [readText, readChars_flatMap_escapeChar hfuel]
  dsimp only
  rw [hs, String.ofList_toList]

end Json

end DeviceApi
