import DeviceApi.Proofs.Api.Plain
import DeviceApi.Text.LowerCase
import Mathlib.Data.Char

/-!
# Stability of the case forms

Both forms leave a text that is in their form as it is. A capital stands in front of every word of
the first form and nowhere else, if the words are ordinary, so that the second form finds the words
again.
-/

namespace DeviceApi.Text

variable {c d : Char} {cs word : List Char} {words : List (List Char)} {p : Char → Bool} {text : String}

/-! ### Characters -/

/-- What holds of the letters and digits among the first characters holds of all letters and digits. -/
theorem of_isAlphanum {P : Char → Prop} (hall : ∀ n < 0x80, (Char.ofNat n).isAlphanum = true → P (Char.ofNat n))
    (hc : c.isAlphanum = true) : P c := by
  have hascii : c.toNat < 0x80 := by
    unfold Char.isAlphanum Char.isAlpha Char.isUpper Char.isLower Char.isDigit at hc
    simp only [Bool.or_eq_true, Bool.and_eq_true, decide_eq_true_eq, ge_iff_le, UInt32.le_iff_toNat_le,
      UInt32.reduceToNat, Char.reduceVal] at hc
    have hcode : c.toNat = c.val.toNat := rfl
    omega
  simpa using hall c.toNat hascii (by simpa using hc)

/-- The character is a small letter or a digit. -/
def Small (c : Char) : Prop := c.isLower = true ∨ c.isDigit = true

instance (c : Char) : Decidable (Small c) := inferInstanceAs (Decidable (_ ∨ _))

theorem Small.isAlphanum (h : Small c) : c.isAlphanum = true := by
  unfold Char.isAlphanum Char.isAlpha
  rcases h with h | h <;> simp [h]

theorem Small.isUpper_eq (h : Small c) : c.isUpper = false :=
  of_isAlphanum (P := fun c => Small c → c.isUpper = false) (by decide) h.isAlphanum h

theorem small_toLower (h : c.isAlphanum = true) : Small c.toLower :=
  of_isAlphanum (P := fun c => Small c.toLower) (by decide) h

theorem toLower_eq_self (h : c.isUpper = false) : c.toLower = c := by
  unfold Char.toLower
  unfold Char.isUpper at h
  rw [dif_neg]
  simpa using h

theorem Small.toLower_eq (h : Small c) : c.toLower = c := toLower_eq_self h.isUpper_eq

theorem isUpper_toUpper (h : c.isLower = true) : c.toUpper.isUpper = true :=
  of_isAlphanum (P := fun c => c.isLower = true → c.toUpper.isUpper = true) (by decide)
    (Small.isAlphanum (.inl h)) h

theorem toLower_toUpper (h : c.isLower = true) : c.toUpper.toLower = c :=
  of_isAlphanum (P := fun c => c.isLower = true → c.toUpper.toLower = c) (by decide)
    (Small.isAlphanum (.inl h)) h

theorem toUpper_toUpper (h : c.isAlphanum = true) : c.toUpper.toUpper = c.toUpper :=
  of_isAlphanum (P := fun c => c.toUpper.toUpper = c.toUpper) (by decide) h

/-! ### Runs -/

theorem ne_nil_of_mem_runs (h : word ∈ runs p cs) : word ≠ [] := by
  induction cs using runs.induct p generalizing word with
  | case1 => simp [runs] at h
  | case2 d hd => simp_all [runs]
  | case3 d hd => simp [runs, hd] at h
  | case4 d e rest hd first later hmore he ih => grind [runs]
  | case5 d e rest hd hno ih => grind [runs]
  | case6 d e rest hd ih => grind [runs]

/-- Characters with the property go to the front of the first run. -/
theorem runs_cons_cons (hc : p c = true) (hd : p d = true) {run : List Char} {later : List (List Char)}
    (h : runs p (d :: cs) = run :: later) : runs p (c :: d :: cs) = (c :: run) :: later := by
  rw [runs, if_pos hc, hd, h]

theorem runs_eq_singleton (hne : word ≠ []) (h : ∀ c ∈ word, p c = true) : runs p word = [word] := by
  induction word with
  | nil => exact absurd rfl hne
  | cons c rest ih =>
    cases rest with
    | nil => rw [runs, if_pos (h c (by simp))]
    | cons d rest =>
      exact runs_cons_cons (h c (by simp)) (h d (by simp))
        (ih (List.cons_ne_nil _ _) fun e he => h e (List.mem_cons_of_mem _ he))

/-- A character without the property ends a run. -/
theorem runs_append_cons (hne : word ≠ []) (h : ∀ c ∈ word, p c = true) (hd : p d = false) :
    runs p (word ++ d :: cs) = word :: runs p cs := by
  have hskip : runs p (d :: cs) = runs p cs := by cases cs <;> simp [runs, hd]
  induction word with
  | nil => exact absurd rfl hne
  | cons c rest ih =>
    cases rest with
    | nil =>
      rw [List.singleton_append, runs, if_pos (h c (by simp)), hd, hskip]
    | cons e rest =>
      exact runs_cons_cons (h c (by simp)) (h e (by simp))
        (ih (List.cons_ne_nil _ _) fun e he => h e (List.mem_cons_of_mem _ he))

/-- The words of joined words are those words. -/
theorem runs_intercalate (hd : p d = false) (h : ∀ word ∈ words, word ≠ [] ∧ ∀ c ∈ word, p c = true) :
    runs p ([d].intercalate words) = words := by
  induction words with
  | nil => rfl
  | cons word more ih =>
    obtain ⟨hne, hword⟩ := h word List.mem_cons_self
    cases more with
    | nil => simpa using runs_eq_singleton hne hword
    | cons next more =>
      rw [List.intercalate_cons_cons, List.append_assoc, List.singleton_append, runs_append_cons hne hword hd,
        ih fun w hw => h w (List.mem_cons_of_mem _ hw)]

/-- A character of joined words comes from what joins them or from one of them. -/
theorem mem_intercalate {joint : List Char} (h : c ∈ joint.intercalate words) :
    c ∈ joint ∨ ∃ word ∈ words, c ∈ word := by
  induction words with
  | nil => cases h
  | cons word more ih =>
    cases more with
    | nil => exact .inr ⟨word, List.mem_cons_self, by simpa using h⟩
    | cons next more =>
      rw [List.intercalate_cons_cons, List.mem_append, List.mem_append] at h
      rcases h with (hword | hjoint) | hmore
      · exact .inr ⟨word, List.mem_cons_self, hword⟩
      · exact .inl hjoint
      · exact (ih hmore).imp_right fun ⟨w, hw, hc⟩ => ⟨w, List.mem_cons_of_mem _ hw, hc⟩

/-! ### The first form -/

/-- A capital first letter stays as it is. -/
theorem capitalize_capitalize_append (hne : word ≠ []) (h : ∀ c ∈ word, c.isAlphanum = true) :
    capitalize (capitalize word ++ cs) = capitalize word ++ cs := by
  cases word with
  | nil => exact absurd rfl hne
  | cons c rest =>
    rw [capitalize, List.cons_append, capitalize, toUpper_toUpper (h c List.mem_cons_self)]

theorem toPascalCase_toPascalCase (text : String) : toPascalCase (toPascalCase text) = toPascalCase text := by
  have halphanum : ∀ c ∈ (toPascalCase text).toList, c.isAlphanum = true := fun c => isAlphanum_of_mem_toPascalCase
  rcases eq_or_ne (toPascalCase text).toList [] with hempty | hne
  · rw [toPascalCase, hempty, String.toList_eq_nil_iff.mp hempty]
    rfl
  -- The whole text is one word, and it begins as its first word begins.
  have hwords : Text.words (toPascalCase text).toList = [(toPascalCase text).toList] := runs_eq_singleton hne halphanum
  rw [toPascalCase, hwords, List.flatMap_singleton]
  rw [toPascalCase, String.toList_ofList] at hne ⊢
  cases hfirst : Text.words text.toList with
  | nil => simp [hfirst] at hne
  | cons word later =>
    have hmem : word ∈ Text.words text.toList := hfirst ▸ List.mem_cons_self
    rw [List.flatMap_cons, capitalize_capitalize_append (ne_nil_of_mem_runs hmem) fun c => of_mem_runs hmem]

/-! ### The second form -/

theorem splitAcronyms_cons {afterCapital : Bool} (h : (afterCapital && c.isUpper) = false) :
    splitAcronyms afterCapital (c :: cs) = c :: splitAcronyms c.isUpper cs := by
  cases cs <;> simp [splitAcronyms, h]

theorem splitCamel_cons (h : ∀ d ∈ cs.head?, d.isUpper = false) : splitCamel (c :: cs) = c :: splitCamel cs := by
  cases cs with
  | nil => rfl
  | cons d rest => simp [splitCamel, h d (by simp)]

/-- Without capitals no mark is set. -/
theorem splitAcronyms_eq_self {afterCapital : Bool} (h : ∀ c ∈ cs, c.isUpper = false) :
    splitAcronyms afterCapital cs = cs := by
  induction cs generalizing afterCapital with
  | nil => rfl
  | cons c rest ih =>
    rw [splitAcronyms_cons (by simp [h c]), ih fun d hd => h d (List.mem_cons_of_mem _ hd)]

/-- No acronym goes on behind small letters and digits. -/
theorem splitAcronyms_append {afterCapital : Bool} (hne : word ≠ []) (hword : ∀ c ∈ word, Small c) :
    splitAcronyms afterCapital (word ++ cs) = word ++ splitAcronyms false cs := by
  induction word generalizing afterCapital with
  | nil => exact absurd rfl hne
  | cons c rest ih =>
    have hc := (hword c List.mem_cons_self).isUpper_eq
    rw [List.cons_append, splitAcronyms_cons (by simp [hc]), hc]
    cases rest with
    | nil => rfl
    | cons d rest =>
      rw [ih (List.cons_ne_nil _ _) fun x hx => hword x (List.mem_cons_of_mem _ hx)]
      rfl

theorem splitCamel_eq_self (h : ∀ c ∈ cs, c.isUpper = false) : splitCamel cs = cs := by
  induction cs with
  | nil => rfl
  | cons c rest ih =>
    have hrest : ∀ d ∈ rest, d.isUpper = false := fun d hd => h d (List.mem_cons_of_mem _ hd)
    rw [splitCamel_cons fun d hd => hrest d (List.mem_of_mem_head? hd), ih hrest]

/-- A capital behind small letters and digits begins a word. -/
theorem splitCamel_append (hne : word ≠ []) (hword : ∀ c ∈ word, Small c) (hd : d.isUpper = true) :
    splitCamel (word ++ d :: cs) = word ++ '_' :: splitCamel (d :: cs) := by
  induction word with
  | nil => exact absurd rfl hne
  | cons c rest ih =>
    cases rest with
    | nil =>
      have hc : (c.isLower || c.isDigit) = true := Bool.or_eq_true _ _ ▸ hword c List.mem_cons_self
      simp [splitCamel, hc, hd]
    | cons e rest =>
      rw [List.cons_append, splitCamel_cons (by simpa using (hword e (by simp)).isUpper_eq),
        ih (List.cons_ne_nil _ _) fun x hx => hword x (List.mem_cons_of_mem _ hx)]
      rfl

/-- The text is empty, or it is made of words of small letters and digits with one underscore
between two of them. -/
theorem exists_toSnakeCase_eq (text : String) :
    ∃ words : List (List Char), toSnakeCase text = "_".intercalate (words.map String.ofList) ∧
      ∀ word ∈ words, word ≠ [] ∧ ∀ c ∈ word, Small c := by
  refine ⟨(Text.words (splitCamel (splitAcronyms false text.toList))).map (List.map Char.toLower), ?_, ?_⟩
  · simp [toSnakeCase, Function.comp_def]
  · intro lowered hmem
    obtain ⟨word, hword, rfl⟩ := List.mem_map.mp hmem
    refine ⟨by simpa using ne_nil_of_mem_runs hword, fun c hc => ?_⟩
    obtain ⟨d, hd, rfl⟩ := List.mem_map.mp hc
    exact small_toLower (of_mem_runs hword hd)

theorem toList_intercalate_ofList (words : List (List Char)) :
    ("_".intercalate (words.map String.ofList)).toList = ['_'].intercalate words := by
  simp [String.toList_intercalate, Function.comp_def]

/-- Joined words of small letters and digits are in the second form. -/
theorem toSnakeCase_intercalate (h : ∀ word ∈ words, word ≠ [] ∧ ∀ c ∈ word, Small c) :
    toSnakeCase ("_".intercalate (words.map String.ofList)) = "_".intercalate (words.map String.ofList) := by
  have hsmall : ∀ c ∈ ['_'].intercalate words, c.isUpper = false := by
    intro c hc
    rcases mem_intercalate hc with hmem | ⟨word, hword, hmem⟩
    · exact List.mem_singleton.mp hmem ▸ rfl
    · exact ((h word hword).2 c hmem).isUpper_eq
  have hwords : Text.words (['_'].intercalate words) = words :=
    runs_intercalate rfl fun word hword => ⟨(h word hword).1, fun c hc => ((h word hword).2 c hc).isAlphanum⟩
  rw [toSnakeCase, toList_intercalate_ofList, splitAcronyms_eq_self hsmall, splitCamel_eq_self hsmall, hwords]
  congr 1
  refine List.map_congr_left fun word hword => ?_
  rw [List.map_congr_left fun c hc => ((h word hword).2 c hc).toLower_eq, List.map_id']

theorem toSnakeCase_toSnakeCase (text : String) : toSnakeCase (toSnakeCase text) = toSnakeCase text := by
  obtain ⟨words, heq, hwords⟩ := exists_toSnakeCase_eq text
  rw [heq, toSnakeCase_intercalate hwords]

/-! ### From one form to the other -/

/-- A word that both forms keep: a small letter and, behind it, one or more small letters or digits. -/
def Ordinary (word : List Char) : Prop :=
  ∃ first second rest, word = first :: second :: rest ∧ first.isLower = true ∧ ∀ c ∈ second :: rest, Small c

theorem Ordinary.small (h : Ordinary word) : ∀ c ∈ word, Small c := by
  obtain ⟨first, second, rest, rfl, hfirst, hrest⟩ := h
  exact List.forall_mem_cons.mpr ⟨.inl hfirst, hrest⟩

theorem Ordinary.ne_nil (h : Ordinary word) : word ≠ [] := by
  obtain ⟨first, second, rest, rfl, -⟩ := h
  exact List.cons_ne_nil _ _

/-- The capital of a word is not taken for the end of an acronym. -/
theorem splitAcronyms_capitalize_append (h : Ordinary word) :
    splitAcronyms false (capitalize word ++ cs) = capitalize word ++ splitAcronyms false cs := by
  obtain ⟨first, second, rest, rfl, hfirst, hrest⟩ := h
  rw [capitalize, List.cons_append, splitAcronyms_cons rfl, splitAcronyms_append (List.cons_ne_nil _ _) hrest]
  rfl

theorem splitAcronyms_flatMap_capitalize (h : ∀ word ∈ words, Ordinary word) :
    splitAcronyms false (words.flatMap capitalize) = words.flatMap capitalize := by
  induction words with
  | nil => rfl
  | cons word more ih =>
    rw [List.flatMap_cons, splitAcronyms_capitalize_append (h word List.mem_cons_self),
      ih fun w hw => h w (List.mem_cons_of_mem _ hw)]

/-- A mark is set in front of every word but the first. -/
theorem splitCamel_flatMap_capitalize (h : ∀ word ∈ words, Ordinary word) :
    splitCamel (words.flatMap capitalize) = ['_'].intercalate (words.map capitalize) := by
  induction words with
  | nil => rfl
  | cons word more ih =>
    obtain ⟨first, second, rest, rfl, hfirst, hrest⟩ := h word List.mem_cons_self
    have hsecond : second.isUpper = false := (hrest second List.mem_cons_self).isUpper_eq
    have hmore := ih fun w hw => h w (List.mem_cons_of_mem _ hw)
    rw [List.flatMap_cons, capitalize, List.cons_append, splitCamel_cons (by simpa using hsecond)]
    cases more with
    | nil =>
      have hself : splitCamel (second :: rest) = second :: rest :=
        splitCamel_eq_self fun c hc => (hrest c hc).isUpper_eq
      simp [hself, capitalize]
    | cons next more =>
      obtain ⟨first', second', rest', rfl, hfirst', -⟩ := h next (by simp)
      rw [List.flatMap_cons, capitalize, List.cons_append] at hmore ⊢
      have hmark : splitCamel (second :: rest ++ first'.toUpper :: (second' :: rest' ++ more.flatMap capitalize)) =
          second :: rest ++ '_' :: splitCamel (first'.toUpper :: (second' :: rest' ++ more.flatMap capitalize)) :=
        splitCamel_append (List.cons_ne_nil second rest) hrest (isUpper_toUpper hfirst')
      rw [hmore] at hmark
      rw [List.map_cons, List.map_cons, List.intercalate_cons_cons, ← List.map_cons]
      simpa [capitalize] using hmark

theorem toSnakeCase_toPascalCase_intercalate (h : ∀ word ∈ words, Ordinary word) :
    toSnakeCase (toPascalCase ("_".intercalate (words.map String.ofList))) =
      "_".intercalate (words.map String.ofList) := by
  have hwords : Text.words (['_'].intercalate words) = words :=
    runs_intercalate rfl fun word hword => ⟨(h word hword).ne_nil, fun c hc => ((h word hword).small c hc).isAlphanum⟩
  have hcapitals : Text.words (['_'].intercalate (words.map capitalize)) = words.map capitalize := by
    refine runs_intercalate rfl fun capital hcapital => ?_
    obtain ⟨word, hword, rfl⟩ := List.mem_map.mp hcapital
    obtain ⟨first, second, rest, rfl, hfirst, hrest⟩ := h word hword
    refine ⟨List.cons_ne_nil _ _, List.forall_mem_cons.mpr ⟨?_, fun c hc => (hrest c hc).isAlphanum⟩⟩
    exact isAlphanum_toUpper (Small.isAlphanum (.inl hfirst))
  rw [toPascalCase, toList_intercalate_ofList, hwords, toSnakeCase, String.toList_ofList,
    splitAcronyms_flatMap_capitalize h, splitCamel_flatMap_capitalize h, hcapitals, List.map_map]
  congr 1
  refine List.map_congr_left fun word hword => ?_
  obtain ⟨first, second, rest, rfl, hfirst, hrest⟩ := h word hword
  have hlower : (second :: rest).map Char.toLower = second :: rest := by
    rw [List.map_congr_left fun c hc => (hrest c hc).toLower_eq, List.map_id']
  rw [Function.comp_apply, capitalize, List.map_cons, toLower_toUpper hfirst, hlower]

/-- **The case forms are stable and lead back to each other.** A text in one of the two forms stays
as it is under that form. The first form has letters and digits only, the second is empty or is made
of words of small letters and digits with single underscores between them. A text of ordinary words
with underscores between them comes back from its first form by the second. -/
theorem case_forms :
    (∀ text, toPascalCase (toPascalCase text) = toPascalCase text ∧
      toSnakeCase (toSnakeCase text) = toSnakeCase text ∧
      (∀ c ∈ (toPascalCase text).toList, c.isAlphanum = true) ∧
      ∃ words : List String, toSnakeCase text = "_".intercalate words ∧
        ∀ word ∈ words, word ≠ "" ∧ ∀ c ∈ word.toList, Small c) ∧
    ∀ words : List String, (∀ word ∈ words, Ordinary word.toList) →
      toSnakeCase (toPascalCase ("_".intercalate words)) = "_".intercalate words := by
  refine ⟨fun text => ⟨toPascalCase_toPascalCase text, toSnakeCase_toSnakeCase text,
    fun c => isAlphanum_of_mem_toPascalCase, ?_⟩, fun words hwords => ?_⟩
  · obtain ⟨words, heq, hwords⟩ := exists_toSnakeCase_eq text
    refine ⟨words.map String.ofList, heq, ?_⟩
    simpa [String.ofList_eq_empty_iff] using hwords
  · have hlists : (words.map String.toList).map String.ofList = words := by simp [Function.comp_def]
    have hordinary : ∀ word ∈ words.map String.toList, Ordinary word := by simpa using hwords
    simpa only [hlists] using toSnakeCase_toPascalCase_intercalate hordinary

/-- Numbers stay with the word that they end. -/
theorem case_forms_axis2_rate : (∀ word ∈ ["axis2", "rate"], Ordinary word.toList) ∧
    toSnakeCase (toPascalCase "axis2_rate") = "axis2_rate" := by
  have hordinary : ∀ word ∈ ["axis2", "rate"], Ordinary word.toList := by
    simp only [List.forall_mem_cons, List.not_mem_nil, false_imp_iff, implies_true, and_true]
    refine ⟨⟨'a', 'x', ['i', 's', '2'], rfl, rfl, ?_⟩, ⟨'r', 'a', ['t', 'e'], rfl, rfl, ?_⟩⟩ <;>
      simp only [List.forall_mem_cons, List.not_mem_nil, false_imp_iff, implies_true, and_true] <;> decide
  exact ⟨hordinary, case_forms.2 ["axis2", "rate"] hordinary⟩

/-! ## Characters of lower-case forms

The lower-case form of a text has no brace that the text does not have.
-/

section

variable {c : Char} {cs before : List Char} {text : String}

theorem eq_brace_of_toLower (hascii : c.toNat < 0x80) (h : c.toLower = '\x7b') : c = '\x7b' := by
  have hall : ∀ n < 0x80, (Char.ofNat n).toLower = '\x7b' → Char.ofNat n = '\x7b' := by decide
  simpa using hall c.toNat hascii (by simpa using h)

/-- No capital letter has the brace for its lower-case form. -/
theorem lowerChar_ne_brace (hwide : 0x80 ≤ c.toNat) : lowerChar c ≠ '\x7b' := by
  have hall : ∀ range ∈ capitalRanges, ¬ ((range.1 : Int) ≤ 0x7b - range.2.2.2 ∧ 0x7b - range.2.2.2 ≤ (range.2.1 : Int)) := by
    decide +kernel
  intro h
  unfold lowerChar at h
  split at h
  · next first last step distance hfind =>
    have hin := List.find?_some hfind
    have hnot := hall _ (List.mem_of_find?_eq_some hfind)
    simp only [Bool.and_eq_true, decide_eq_true_eq] at hin hnot
    -- The code of a character that is not there would be that of the null character.
    have hcode : (c.toNat + distance).toNat = 0x7b := by
      have hnat := congrArg Char.toNat h
      by_cases hvalid : (c.toNat + distance).toNat.isValidChar
      · rw [Char.ofNat, dif_pos hvalid] at hnat
        exact hnat
      · rw [Char.ofNat, dif_neg hvalid] at hnat
        cases hnat
    omega
  · rw [h] at hwide
    exact absurd hwide (by decide)

theorem brace_mem_of_lowerAfter (h : '\x7b' ∈ lowerAfter before cs) : '\x7b' ∈ cs := by
  induction cs generalizing before with
  | nil => cases h
  | cons c rest ih =>
    rw [lowerAfter] at h
    rcases List.mem_append.mp h with hhere | hrest
    · suffices hc : c = '\x7b' from hc ▸ List.mem_cons_self
      split at hhere
      · next hascii => exact eq_brace_of_toLower hascii (List.mem_singleton.mp hhere).symm
      · next hwide =>
        split at hhere
        · simp at hhere
        · split at hhere
          · split at hhere <;> simp at hhere
          · exact absurd (List.mem_singleton.mp hhere).symm (lowerChar_ne_brace (not_lt.mp hwide))
    · exact List.mem_cons_of_mem _ (ih hrest)

/-- A text has every brace of its lower-case form. -/
theorem brace_mem_of_lower (h : '\x7b' ∈ (lower text).toList) : '\x7b' ∈ text.toList := by
  rw [lower, String.toList_ofList] at h
  exact brace_mem_of_lowerAfter h

end

end DeviceApi.Text
