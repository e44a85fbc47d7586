import DeviceApi.Text.Encoding
import Mathlib.Data.List.Forall2
import Mathlib.Data.UInt

/-!
# Encodings of texts are read back

## Characters in UTF-8

The octets of a character are read back as the character, whatever octets follow. So well-formed octets are read
without a replacement.
-/

namespace DeviceApi.Text.Utf8

variable {owed low high value n : Nat} {octet : UInt8} {rest : List UInt8}

/-- The first octet of a character. -/
theorem units_start : units .start (octet :: rest) =
    (begin octet.toNat).1 ++ units (begin octet.toNat).2 rest := rfl

/-- A further octet of a character. -/
theorem units_inside (h : low ≤ octet.toNat ∧ octet.toNat ≤ high) :
    units (.inside owed low high value) (octet :: rest) =
      if owed ≤ 1 then some (Char.ofNat (value * 64 + octet.toNat % 64)) :: units .start rest
      else units (.inside (owed - 1) 0x80 0xBF (value * 64 + octet.toNat % 64)) rest := if_pos h

/-- The number of an octet made from a small number. -/
theorem toNat_octet (h : n < 256) : (UInt8.ofNat n).toNat = n := by
  rw [UInt8.toNat_ofNat']
  omega

/-- A further octet of a character that more octets belong to. -/
theorem units_more (howed : 1 < owed) (hlow : low ≤ n % 64 + 128) (hhigh : n % 64 + 128 ≤ high) :
    units (.inside owed low high value) (UInt8.ofNat (n % 64 + 128) :: rest) =
      units (.inside (owed - 1) 0x80 0xBF (value * 64 + n % 64)) rest := by
  have hoctet : (UInt8.ofNat (n % 64 + 128)).toNat = n % 64 + 128 := toNat_octet (by omega)
  have hbits : (n % 64 + 128) % 64 = n % 64 := by omega
  rw [units_inside (by omega), if_neg (by omega), hoctet, hbits]

/-- The last octet of a character completes it. -/
theorem units_last (hlow : low ≤ n % 64 + 128) (hhigh : n % 64 + 128 ≤ high) :
    units (.inside 1 low high value) (UInt8.ofNat (n % 64 + 128) :: rest) =
      some (Char.ofNat (value * 64 + n % 64)) :: units .start rest := by
  have hoctet : (UInt8.ofNat (n % 64 + 128)).toNat = n % 64 + 128 := toNat_octet (by omega)
  have hbits : (n % 64 + 128) % 64 = n % 64 := by omega
  rw [units_inside (by omega), if_pos le_rfl, hoctet, hbits]

/-- An octet that begins a longer character leaves the reader inside of it. -/
theorem units_first {b : Nat} (hb : b < 256) (h : begin b = ([], .inside owed low high value)) :
    units .start (UInt8.ofNat b :: rest) = units (.inside owed low high value) rest := by
  rw [units_start, toNat_octet hb, h, List.nil_append]

/-- What the first of three octets leads to. -/
theorem exists_begin_three {v : Nat} (hmin : 0x800 ≤ v) (hmax : v ≤ 0xFFFF) (hvalid : v < 0xD800 ∨ 0xDFFF < v) :
    ∃ low high, begin (v / 4096 % 16 + 0xE0) = ([], .inside 2 low high (v / 4096)) ∧
      low ≤ v / 64 % 64 + 128 ∧ v / 64 % 64 + 128 ≤ high := by
  rw [Nat.mod_eq_of_lt (by omega : v / 4096 < 16)]
  by_cases hzero : v / 4096 = 0
  · exact ⟨0xA0, 0xBF, by rw [hzero]; rfl, by omega, by omega⟩
  by_cases hlast : v / 4096 = 13
  · exact ⟨0x80, 0x9F, by rw [hlast]; rfl, by omega, by omega⟩
  refine ⟨0x80, 0xBF, ?_, by omega, by omega⟩
  rw [begin, if_neg (by omega), if_neg (by omega), if_neg (by omega), if_neg (by omega), if_neg (by omega),
    if_pos (by omega), Nat.add_sub_cancel]

/-- What the first of four octets leads to. -/
theorem exists_begin_four {v : Nat} (hmin : 0xFFFF < v) (hmax : v < 0x110000) :
    ∃ low high, begin (v / 262144 % 8 + 0xF0) = ([], .inside 3 low high (v / 262144)) ∧
      low ≤ v / 4096 % 64 + 128 ∧ v / 4096 % 64 + 128 ≤ high := by
  rw [Nat.mod_eq_of_lt (by omega : v / 262144 < 8)]
  by_cases hzero : v / 262144 = 0
  · exact ⟨0x90, 0xBF, by rw [hzero]; rfl, by omega, by omega⟩
  by_cases hlast : v / 262144 = 4
  · exact ⟨0x80, 0x8F, by rw [hlast]; rfl, by omega, by omega⟩
  refine ⟨0x80, 0xBF, ?_, by omega, by omega⟩
  rw [begin, if_neg (by omega), if_neg (by omega), if_neg (by omega), if_neg (by omega), if_neg (by omega),
    if_neg (by omega), if_neg (by omega), if_pos (by omega), Nat.add_sub_cancel]

/-- The octets of a character are read as the character. -/
theorem units_encodeChar (c : Char) (rest : List UInt8) :
    units .start (String.utf8EncodeChar c ++ rest) = some c :: units .start rest := by
  have hvalid : c.val.toNat < 0xD800 ∨ 0xDFFF < c.val.toNat ∧ c.val.toNat < 0x110000 := c.valid
  have hchar : ∀ w, w = c.val.toNat → Char.ofNat w = c := by
    rintro w rfl
    exact Char.ofNat_toNat c
  unfold String.utf8EncodeChar
  generalize c.val.toNat = v at hvalid hchar
  dsimp only
  -- One case for each number of octets.
  split
  · next hone =>
    have hbegin : begin v = ([some (Char.ofNat v)], .start) := if_pos (by omega)
    rw [List.singleton_append, units_start, toNat_octet (by omega), hbegin, hchar v rfl, List.singleton_append]
  split
  · next htwo =>
    have hbegin : begin (v / 64 % 32 + 192) = ([], .inside 1 0x80 0xBF (v / 64)) := by
      rw [Nat.mod_eq_of_lt (by omega), begin, if_neg (by omega), if_neg (by omega), if_pos (by omega),
        Nat.add_sub_cancel]
    rw [List.cons_append, List.singleton_append, units_first (by omega) hbegin, units_last (by omega) (by omega),
      hchar _ (by omega)]
  split
  · next hthree =>
    obtain ⟨low, high, hbegin, hlow, hhigh⟩ := exists_begin_three (v := v) (by omega) hthree (by omega)
    simp only [List.cons_append, List.nil_append]
    rw [units_first (by omega) hbegin, units_more (by omega) hlow hhigh, units_last (by omega) (by omega),
      hchar _ (by omega)]
  · next hfour =>
    obtain ⟨low, high, hbegin, hlow, hhigh⟩ := exists_begin_four (v := v) (by omega) (by omega)
    simp only [List.cons_append, List.nil_append]
    rw [units_first (by omega) hbegin, units_more (by omega) hlow hhigh, units_more (by omega) (by omega) (by omega),
      units_last (by omega) (by omega), hchar _ (by omega)]

/-- The octets of a text are read as the text. -/
theorem decodeLossy_encodeChar (c : Char) (rest : List UInt8) :
    decodeLossy (String.utf8EncodeChar c ++ rest) = c :: decodeLossy rest := by
  rw [decodeLossy, units_encodeChar]
  rfl

end DeviceApi.Text.Utf8

/-!
## Percent-encoded texts

A text may be percent-encoded in many ways: every percent sign has to be written as the octet that it is, and any
other character may be written as its octets too. Whichever are, the text is read back.
-/

namespace DeviceApi.Text

variable {cs text : List Char} {c : Char}

/-- A percent sign with two hexadecimal digits, of either case, that stands for the octet. -/
def SpellsOctet (spelled : List Char) (octet : UInt8) : Prop :=
  ∃ high low m n, spelled = ['%', high, low] ∧ hexValue? high = some m ∧ hexValue? low = some n ∧
    octet = UInt8.ofNat (16 * m + n)

/-- The second text is a percent encoding of the first: characters stand for themselves, unless they are percent
signs, or are spelled as the octets that they have in UTF-8. -/
inductive PercentEncodes : List Char → List Char → Prop where
  | nil : PercentEncodes [] []
  | plain {c : Char} {cs text : List Char} (hc : c ≠ '%') (h : PercentEncodes cs text) :
      PercentEncodes (c :: cs) (c :: text)
  | octets {c : Char} {cs text : List Char} {spelled : List (List Char)}
      (hspelled : List.Forall₂ SpellsOctet spelled (String.utf8EncodeChar c)) (h : PercentEncodes cs text) :
      PercentEncodes (c :: cs) (spelled.flatten ++ text)

/-- A text in which percent signs and chosen characters are written as octets, with digits in lower case. -/
def percentEncode (chosen : Char → Bool) (cs : List Char) : List Char :=
  cs.flatMap fun c =>
    if c = '%' ∨ chosen c then ((String.utf8EncodeChar c).map fun octet => '%' :: hexDigits 2 octet.toNat).flatten
    else [c]

theorem hexValue?_digitChar {n : Nat} (h : n < 16) : hexValue? (Nat.digitChar n) = some n := by
  have hall : ∀ n : Fin 16, hexValue? (Nat.digitChar n.val) = some n.val := by decide
  exact hall ⟨n, h⟩

theorem spellsOctet_hexDigits (octet : UInt8) : SpellsOctet ('%' :: hexDigits 2 octet.toNat) octet := by
  have hlt : octet.toNat < 256 := octet.toNat_lt
  refine ⟨_, _, octet.toNat / 16, octet.toNat % 16, rfl, ?_, hexValue?_digitChar (by omega), ?_⟩
  · rw [Nat.mod_eq_of_lt (by omega : octet.toNat / 16 < 16)]
    exact hexValue?_digitChar (by omega)
  · rw [Nat.div_add_mod, UInt8.ofNat_toNat]

/-- Whatever characters are chosen, such a text is a percent encoding. -/
theorem percentEncodes_percentEncode (chosen : Char → Bool) (cs : List Char) :
    PercentEncodes cs (percentEncode chosen cs) := by
  induction cs with
  | nil => exact .nil
  | cons c cs ih =>
    rw [percentEncode, List.flatMap_cons]
    split
    · refine .octets ?_ ih
      rw [List.forall₂_map_left_iff, List.forall₂_same]
      exact fun octet _ => spellsOctet_hexDigits octet
    · next hnot => exact .plain (fun heq => hnot (.inl heq)) ih

/-- A text without percent signs is an encoding of itself. -/
theorem percentEncodes_self (h : '%' ∉ cs) : PercentEncodes cs cs := by
  induction cs with
  | nil => exact .nil
  | cons c cs ih =>
    simp only [List.mem_cons, not_or] at h
    exact .plain (Ne.symm h.1) (ih h.2)

/-- What is spelled has percent signs and letters and digits only. -/
theorem SpellsOctet.isAlphanum {spelled : List Char} {octet : UInt8} (h : SpellsOctet spelled octet)
    (hc : c ∈ spelled) : c = '%' ∨ c.isAlphanum = true := by
  have hdigit : ∀ {d n}, hexValue? d = some n → d.isAlphanum = true := by
    intro d n hd
    unfold hexValue? at hd
    unfold Char.isAlphanum Char.isAlpha Char.isUpper Char.isLower Char.isDigit
    simp only [Char.le_def, UInt32.le_iff_toNat_le, Char.reduceVal, UInt32.reduceToNat] at hd ⊢
    grind
  obtain ⟨high, low, m, n, rfl, hhigh, hlow, -⟩ := h
  simp only [List.mem_cons, List.not_mem_nil, or_false] at hc
  rcases hc with rfl | rfl | rfl
  · exact .inl rfl
  · exact .inr (hdigit hhigh)
  · exact .inr (hdigit hlow)

/-- An encoding has no further characters than the text, percent signs and letters and digits. -/
theorem PercentEncodes.mem (h : PercentEncodes cs text) (hc : c ∈ text) :
    c ∈ cs ∨ c = '%' ∨ c.isAlphanum = true := by
  induction h with
  | nil => exact .inl hc
  | plain hne _ ih =>
    rcases List.mem_cons.mp hc with rfl | hmem
    · exact .inl List.mem_cons_self
    · exact (ih hmem).imp_left (List.mem_cons_of_mem _)
  | octets hspelled _ ih =>
    rcases List.mem_append.mp hc with hmem | hmem
    · obtain ⟨spelled, hin, hmem⟩ := List.mem_flatten.mp hmem
      obtain ⟨i, hi, rfl⟩ := List.getElem_of_mem hin
      exact .inr ((hspelled.get hi (hspelled.length_eq ▸ hi)).isAlphanum hmem)
    · exact (ih hmem).imp_left (List.mem_cons_of_mem _)

/-! ## Reading -/

theorem percentUnits_cons (h : c ≠ '%') : percentUnits (c :: text) =
    (if c.toNat < 0x80 then .inl (UInt8.ofNat c.toNat) else .inr c) :: percentUnits text := by
  rw [percentUnits]
  rintro a b rest rfl
  exact absurd rfl h

theorem percentUnits_spelled {spelled : List (List Char)} {octets : List UInt8}
    (h : List.Forall₂ SpellsOctet spelled octets) :
    percentUnits (spelled.flatten ++ text) = octets.map .inl ++ percentUnits text := by
  induction h with
  | nil => rfl
  | cons hspells _ ih =>
    obtain ⟨high, low, m, n, rfl, hhigh, hlow, rfl⟩ := hspells
    simp only [List.flatten_cons, List.cons_append, List.nil_append, List.map_cons]
    rw [percentUnits, hhigh, hlow]
    exact congrArg _ ih

theorem joinRuns_octet {octet : UInt8} {rest : List (UInt8 ⊕ Char)} :
    joinRuns (.inl octet :: rest) = (octet :: (joinRuns rest).1, (joinRuns rest).2) := rfl

theorem joinRuns_char {rest : List (UInt8 ⊕ Char)} :
    joinRuns (.inr c :: rest) = ([], c :: (Utf8.decodeLossy (joinRuns rest).1 ++ (joinRuns rest).2)) := rfl

theorem joinRuns_octets (octets : List UInt8) (rest : List (UInt8 ⊕ Char)) :
    joinRuns (octets.map .inl ++ rest) = (octets ++ (joinRuns rest).1, (joinRuns rest).2) := by
  induction octets with
  | nil => rfl
  | cons octet octets ih =>
    rw [List.map_cons, List.cons_append, joinRuns_octet, ih, List.cons_append]

/-- **An encoding is read back as the text**, whichever of its characters are written as octets. -/
theorem PercentEncodes.percentDecode_eq (h : PercentEncodes cs text) : percentDecode text = cs := by
  induction h with
  | nil => rfl
  | @plain c cs text hc _ ih =>
    unfold percentDecode at ih ⊢
    rw [percentUnits_cons hc]
    by_cases hascii : c.toNat < 0x80
    · have hoctets : String.utf8EncodeChar c = [UInt8.ofNat c.toNat] := if_pos (Nat.le_of_lt_succ hascii)
      rw [if_pos hascii, joinRuns_octet]
      dsimp only
      rw [← List.singleton_append, ← hoctets, Utf8.decodeLossy_encodeChar, List.cons_append]
      exact congrArg (c :: ·) ih
    · rw [if_neg hascii, joinRuns_char]
      exact congrArg (c :: ·) ih
  | @octets c cs text spelled hspelled _ ih =>
    unfold percentDecode at ih ⊢
    rw [percentUnits_spelled hspelled, joinRuns_octets]
    dsimp only
    rw [Utf8.decodeLossy_encodeChar, List.cons_append]
    exact congrArg (c :: ·) ih

/-- A text without a percent sign is its own percent encoding. -/
theorem percentDecode_eq_self (h : '%' ∉ cs) : percentDecode cs = cs := (percentEncodes_self h).percentDecode_eq

end DeviceApi.Text
