import DeviceApi.Proofs.Names.Mentions

/-!
# Searching for mentions

Mentions can be searched for by a pattern: words of any length, of which the one for a device is as short as it can be and
the one for a method as long as it can be, and a suffix that may stand behind the device. A search goes on behind what it
has found. It finds all mentions, since none begins within another one, and each with the same device and method.
-/

namespace DeviceApi

namespace Mention

variable {α : Type} {cs text rest after : List Char} {c : Char}

/-- A piece of a pattern. -/
inductive Piece where
  /-- A given text. -/
  | exactly (cs : List Char)
  /-- A given text, or nothing if the rest of the pattern asks for it. -/
  | possibly (cs : List Char)
  /-- A word that is as short as the rest of the pattern lets it be. -/
  | shortWord
  /-- A word that is as long as the rest of the pattern lets it be. -/
  | longWord

/-- The shortest word at the front of a text with something behind it. -/
def shortWord? (next : List Char → Option α) : List Char → Option (List Char × α)
  | [] => none
  | c :: rest =>
    if Text.isWordChar c then
      ((next rest).map fun a => ([c], a)).or ((shortWord? next rest).map fun m => (c :: m.1, m.2))
    else none

/-- The longest word at the front of a text with something behind it. -/
def longWord? (next : List Char → Option α) : List Char → Option (List Char × α)
  | [] => none
  | c :: rest =>
    if Text.isWordChar c then
      ((longWord? next rest).map fun m => (c :: m.1, m.2)).or ((next rest).map fun a => ([c], a))
    else none

/-- The words that a pattern finds at the front of a text, and the text behind all of it. -/
def match? : List Piece → List Char → Option (List (List Char) × List Char)
  | [], text => some ([], text)
  | .exactly cs :: pattern, text => (after? cs text).bind (match? pattern)
  | .possibly cs :: pattern, text => ((after? cs text).bind (match? pattern)).or (match? pattern text)
  | .shortWord :: pattern, text => (shortWord? (match? pattern) text).map fun m => (m.1 :: m.2.1, m.2.2)
  | .longWord :: pattern, text => (longWord? (match? pattern) text).map fun m => (m.1 :: m.2.1, m.2.2)

/-- The words that a pattern finds in a text. The first characters of the text may belong to what has been found. -/
def findAll (pattern : List Piece) : (found : Nat) → List Char → List (List (List Char))
  | _, [] => []
  | found + 1, _ :: rest => findAll pattern found rest
  | 0, c :: rest =>
    match match? pattern (c :: rest) with
    | some (words, after) => words :: findAll pattern (rest.length - after.length) rest
    | none => findAll pattern 0 rest

/-- A method and its parenthesis. -/
def methodPattern : List Piece := [.longWord, .exactly ['(']]

/-- A device and one of its methods. -/
def devicePattern : List Piece :=
  .exactly deviceMention.toList :: .shortWord :: .possibly controllerSuffix.toList :: .exactly ['.'] :: methodPattern

/-- A method of all devices. -/
def genericPattern : List Piece := .exactly genericMention.toList :: methodPattern

/-! ## Words in front of something else -/

/-- The word at the front of a text is taken further by a word character in front of it. -/
theorem word?_cons (hc : Text.isWordChar c = true) :
    word? (c :: rest) = some (c :: rest.takeWhile Text.isWordChar, rest.dropWhile Text.isWordChar) := by
  simp [word?, hc]

theorem word?_cases (rest : List Char) :
    (word? rest = none ∧ rest.takeWhile Text.isWordChar = [] ∧ rest.dropWhile Text.isWordChar = rest) ∨
      ∃ c rest', rest = c :: rest' ∧ Text.isWordChar c = true ∧
        word? rest = some (rest.takeWhile Text.isWordChar, rest.dropWhile Text.isWordChar) := by
  cases rest with
  | nil => exact .inl ⟨rfl, rfl, rfl⟩
  | cons c rest' =>
    by_cases hc : Text.isWordChar c = true
    · exact .inr ⟨c, rest', rfl, hc, by simp [word?, hc]⟩
    · exact .inl (by simp [word?, hc])

/-- A word is as long as it can be if what is behind it begins with no word character. -/
theorem longWord?_eq {next : List Char → Option α}
    (hnext : ∀ c rest, Text.isWordChar c = true → next (c :: rest) = none) :
    longWord? next text = (word? text).bind fun m => (next m.2).map (Prod.mk m.1) := by
  induction text with
  | nil => rfl
  | cons c rest ih =>
    rw [longWord?]
    split
    · next hc =>
      rw [word?_cons hc, ih, Option.bind_some]
      rcases word?_cases rest with ⟨hnone, htake, hdrop⟩ | ⟨d, rest', rfl, hd, hword⟩
      · simp [hnone, htake, hdrop]
      · simp [hword, hnext d rest' hd, Function.comp_def]
    · next hc => simp [word?, hc]

theorem isDeviceOf_cons {word : List Char} :
    IsDeviceOf (if word = controllerSuffix.toList then [c] else c :: deviceOf word) (c :: word) := by
  split
  · next hword => exact .inl ⟨List.cons_ne_nil _ _, by rw [hword]; rfl⟩
  · next hword =>
    rcases isDeviceOf_deviceOf word with ⟨-, heq⟩ | ⟨heq, hnot⟩
    · exact .inl ⟨List.cons_ne_nil _ _, congrArg (c :: ·) heq⟩
    · refine .inr ⟨congrArg (c :: ·) heq, ?_⟩
      rintro (_ | ⟨d, part⟩) hpart hsuffix
      · exact hpart rfl
      · obtain ⟨-, hsuffix⟩ := List.cons.inj hsuffix
        rcases part with _ | ⟨e, part⟩
        · exact hword hsuffix
        · exact hnot _ (List.cons_ne_nil _ _) hsuffix

theorem deviceOf_cons {word : List Char} :
    deviceOf (c :: word) = if word = controllerSuffix.toList then [c] else c :: deviceOf word :=
  deviceOf_eq_iff.mpr isDeviceOf_cons

/-- The suffix belongs to the word that a text begins with. -/
theorem word_of_after?_suffix (h : after? controllerSuffix.toList text = some rest) :
    text.takeWhile Text.isWordChar = controllerSuffix.toList ++ rest.takeWhile Text.isWordChar ∧
      text.dropWhile Text.isWordChar = rest.dropWhile Text.isWordChar := by
  have hword : ∀ c ∈ controllerSuffix.toList, Text.isWordChar c = true :=
    List.all_eq_true.mp (by decide)
  obtain rfl := after?_eq_some.mp h
  exact ⟨List.takeWhile_append_of_pos hword, List.dropWhile_append_of_pos hword⟩

/-- A word in front of a suffix that may be there is short just by the suffix, if what is behind both begins with no word
character. -/
theorem shortWord?_eq {next : List Char → Option α}
    (hnext : ∀ c rest, Text.isWordChar c = true → next (c :: rest) = none) :
    shortWord? (fun text => ((after? controllerSuffix.toList text).bind next).or (next text)) text =
      (word? text).bind fun m => (next m.2).map (Prod.mk (deviceOf m.1)) := by
  induction text with
  | nil => rfl
  | cons c rest ih =>
    rw [shortWord?]
    split
    · next hc =>
      rw [word?_cons hc, ih, Option.bind_some, deviceOf_cons]
      dsimp only
      rcases word?_cases rest with ⟨hnone, htake, hdrop⟩ | ⟨d, rest', rfl, hd, hword⟩
      · have hafter : after? controllerSuffix.toList rest = none := by
          cases hafter : after? controllerSuffix.toList rest with
          | none => rfl
          | some u =>
            obtain ⟨htake', -⟩ := word_of_after?_suffix hafter
            rw [htake] at htake'
            cases htake'
        rw [hnone, htake, hdrop, hafter, if_neg (by decide)]
        simp [deviceOf]
      · rw [hword, hnext d rest' hd]
        cases hafter : after? controllerSuffix.toList (d :: rest') with
        | none =>
          have hne : (d :: rest').takeWhile Text.isWordChar ≠ controllerSuffix.toList := by
            intro heq
            have hsplit := List.takeWhile_append_dropWhile (p := Text.isWordChar) (l := d :: rest')
            rw [heq] at hsplit
            rw [after?_eq_some.mpr hsplit.symm] at hafter
            cases hafter
          simp [if_neg hne, Function.comp_def]
        | some u =>
          obtain ⟨htake, hdrop⟩ := word_of_after?_suffix hafter
          rw [htake, hdrop]
          rcases word?_cases u with ⟨-, htake', hdrop'⟩ | ⟨e, u', rfl, he, -⟩
          · rw [htake', hdrop', List.append_nil, if_pos rfl]
            cases hu : next u <;> simp [hu]
          · have hne : controllerSuffix.toList ++ (e :: u').takeWhile Text.isWordChar ≠ controllerSuffix.toList := by
              simp [he]
            rw [if_neg hne]
            simp [hnext e u' he, Function.comp_def]
    · next hc => simp [word?, hc]

/-! ## What a pattern finds at a place -/

/-- What begins with a word character does not begin with any other character. -/
theorem after?_eq_none_of_isWordChar {d : Char} (hd : Text.isWordChar d = false) (hc : Text.isWordChar c = true) :
    after? [d] (c :: rest) = none := by
  have hne : d ≠ c := by
    rintro rfl
    rw [hd] at hc
    cases hc
  simp [after?, hne]

theorem match?_methodPattern {words : List (List Char)} : match? methodPattern text = some (words, after) ↔
    ∃ method, words = [method] ∧ text = method ++ '(' :: after ∧ IsWord method := by
  have hnext : ∀ c rest, Text.isWordChar c = true → match? [.exactly ['(']] (c :: rest) = none := fun c rest hc => by
    rw [match?, after?_eq_none_of_isWordChar isWordChar_parenthesis hc, Option.bind_none]
  have hlast : ∀ {text : List Char} {m : List (List Char) × List Char}, match? [.exactly ['(']] text = some m ↔
      m.1 = [] ∧ text = '(' :: m.2 := by
    intro text m
    simp only [match?, Option.bind_eq_some_iff, after?_eq_some, Option.some.injEq]
    constructor
    · rintro ⟨rest, rfl, rfl⟩
      exact ⟨rfl, rfl⟩
    · rintro ⟨hwords, rfl⟩
      exact ⟨m.2, rfl, Prod.ext hwords.symm rfl⟩
  rw [methodPattern, match?, longWord?_eq hnext]
  simp only [Option.map_eq_some_iff, Option.bind_eq_some_iff]
  constructor
  · rintro ⟨_, ⟨⟨method, rest⟩, hword, ⟨⟨_, _⟩, hmatch, rfl⟩⟩, heq⟩
    obtain ⟨rfl, rfl⟩ := hlast.mp hmatch
    obtain ⟨rfl, rfl⟩ := Prod.mk.inj heq
    exact ⟨method, rfl, (word?_eq_some isWordChar_parenthesis).mp hword⟩
  · rintro ⟨method, rfl, hword⟩
    have hmatch : match? [.exactly ['(']] ('(' :: after) = some ([], after) := hlast.mpr ⟨rfl, rfl⟩
    exact ⟨(method, [], after), ⟨(method, '(' :: after), (word?_eq_some isWordChar_parenthesis).mpr hword, _, hmatch, rfl⟩, rfl⟩

theorem match?_devicePattern {words : List (List Char)} : match? devicePattern text = some (words, after) ↔
    ∃ controller method, words = [deviceOf controller, method] ∧
      text = deviceMention.toList ++ (controller ++ '.' :: (method ++ '(' :: after)) ∧ IsWord controller ∧ IsWord method := by
  have hnext : ∀ c rest, Text.isWordChar c = true → match? (.exactly ['.'] :: methodPattern) (c :: rest) = none :=
    fun c rest hc => by rw [match?, after?_eq_none_of_isWordChar isWordChar_dot hc, Option.bind_none]
  have hpossibly : match? (.possibly controllerSuffix.toList :: .exactly ['.'] :: methodPattern) = fun text =>
      ((after? controllerSuffix.toList text).bind (match? (.exactly ['.'] :: methodPattern))).or
        (match? (.exactly ['.'] :: methodPattern) text) := funext fun _ => rfl
  have hread : ∀ text, match? (.shortWord :: .possibly controllerSuffix.toList :: .exactly ['.'] :: methodPattern) text =
      ((word? text).bind fun m => (match? (.exactly ['.'] :: methodPattern) m.2).map (Prod.mk (deviceOf m.1))).map
        fun m => (m.1 :: m.2.1, m.2.2) := fun text => by rw [match?, hpossibly, shortWord?_eq hnext]
  have hdot : ∀ {text after : List Char} {words : List (List Char)},
      match? (.exactly ['.'] :: methodPattern) text = some (words, after) ↔
        ∃ method, words = [method] ∧ text = '.' :: (method ++ '(' :: after) ∧ IsWord method := by
    intro text after words
    rw [match?, Option.bind_eq_some_iff]
    simp only [after?_eq_some, match?_methodPattern]
    constructor
    · rintro ⟨_, rfl, method, rfl, rfl, hmethod⟩
      exact ⟨method, rfl, rfl, hmethod⟩
    · rintro ⟨method, rfl, rfl, hmethod⟩
      exact ⟨_, rfl, method, rfl, rfl, hmethod⟩
  rw [devicePattern, match?, Option.bind_eq_some_iff]
  simp only [hread, after?_eq_some, Option.map_eq_some_iff, Option.bind_eq_some_iff]
  constructor
  · rintro ⟨_, rfl, _, ⟨⟨controller, rest⟩, hword, ⟨words', after'⟩, hmatch, rfl⟩, heq⟩
    obtain ⟨rfl, rfl⟩ := Prod.mk.inj heq
    obtain ⟨method, rfl, hrest, hmethod⟩ := hdot.mp hmatch
    obtain rfl : rest = '.' :: (method ++ '(' :: after') := hrest
    obtain ⟨rfl, hcontroller⟩ := (word?_eq_some isWordChar_dot).mp hword
    exact ⟨controller, method, rfl, rfl, hcontroller, hmethod⟩
  · rintro ⟨controller, method, rfl, rfl, hcontroller, hmethod⟩
    have hmatch : match? (.exactly ['.'] :: methodPattern) ('.' :: (method ++ '(' :: after)) = some ([method], after) :=
      hdot.mpr ⟨method, rfl, rfl, hmethod⟩
    have hword := (word?_eq_some isWordChar_dot).mpr ⟨Eq.refl (controller ++ '.' :: (method ++ '(' :: after)), hcontroller⟩
    exact ⟨_, rfl, (deviceOf controller, [method], after), ⟨_, hword, _, hmatch, rfl⟩, rfl⟩

theorem match?_genericPattern {words : List (List Char)} : match? genericPattern text = some (words, after) ↔
    ∃ method, words = [method] ∧ text = genericMention.toList ++ (method ++ '(' :: after) ∧ IsWord method := by
  simp only [genericPattern, match?, Option.bind_eq_some_iff, after?_eq_some, match?_methodPattern]
  constructor
  · rintro ⟨rest, rfl, method, rfl, rfl, hmethod⟩
    exact ⟨method, rfl, rfl, hmethod⟩
  · rintro ⟨method, rfl, rfl, hmethod⟩
    exact ⟨_, rfl, method, rfl, rfl, hmethod⟩

/-! ## What a pattern finds in a text -/

section Everywhere

variable {pattern : List Piece} {read : List Char → Option α} {words : α → List (List Char)} {found : List Char}

/-- No mention begins within what stands before the parenthesis of another one. -/
theorem filterMap_tails_parenthesis (hnone : ∀ text, (∀ rest, text ≠ 'M' :: ':' :: rest) → read text = none)
    (hfound : ':' ∉ found) : (found ++ '(' :: after).tails.filterMap read = after.tails.filterMap read := by
  induction found with
  | nil => rw [List.nil_append, List.tails_cons, List.filterMap_cons_none (hnone _ (by simp))]
  | cons c found ih =>
    have hrest : ':' ∉ found := fun hmem => hfound (List.mem_cons_of_mem c hmem)
    have hbegins : ∀ rest, c :: (found ++ '(' :: after) ≠ 'M' :: ':' :: rest := by
      rintro rest heq
      cases found with
      | nil => simp at heq
      | cons d found => exact hrest (by simp_all)
    rw [List.cons_append, List.tails_cons, List.filterMap_cons_none (hnone _ hbegins), ih hrest]

/-- A search finds everything that can be read at the places of a text if it finds at one place what is read there, and
that has a colon at no other place than the second. -/
theorem findAll_eq (hplace : ∀ text, (match? pattern text).map Prod.fst = (read text).map words)
    (hspells : ∀ text m, match? pattern text = some m → ∃ found, text = 'M' :: ':' :: (found ++ '(' :: m.2) ∧ ':' ∉ found)
    (skipped : Nat) (cs : List Char) :
    findAll pattern skipped cs = ((cs.drop skipped).tails.filterMap read).map words := by
  have hnone : ∀ text, (∀ rest, text ≠ 'M' :: ':' :: rest) → read text = none := by
    intro text htext
    by_contra hread
    obtain ⟨a, ha⟩ := Option.ne_none_iff_exists'.mp hread
    obtain ⟨m, hm, -⟩ := Option.map_eq_some_iff.mp ((hplace text).trans (congrArg _ ha))
    obtain ⟨found, hbegins, -⟩ := hspells text m hm
    exact htext _ hbegins
  fun_induction findAll pattern skipped cs with
  | case1 => simp [hnone]
  | case2 skipped _ rest ih => exact ih
  | case3 c rest words' after hmatch ih =>
    obtain ⟨found, htext, hfound⟩ := hspells _ _ hmatch
    obtain ⟨rfl, rfl⟩ := List.cons.inj htext
    obtain ⟨a, ha, rfl⟩ := Option.map_eq_some_iff.mp ((hplace _).symm.trans (congrArg _ hmatch))
    have hdrop : (':' :: (found ++ '(' :: after)).drop ((':' :: (found ++ '(' :: after)).length - after.length) = after := by
      have hsplit : ':' :: (found ++ '(' :: after) = (':' :: (found ++ ['('])) ++ after := by simp
      rw [hsplit, List.length_append, Nat.add_sub_cancel, List.drop_left' rfl]
    have hcolon : read (':' :: (found ++ '(' :: after)) = none := hnone _ (by simp)
    rw [ih, hdrop, List.drop_zero, List.tails_cons, List.filterMap_cons_some ha, List.map_cons, List.tails_cons,
      List.filterMap_cons_none hcolon, filterMap_tails_parenthesis hnone hfound]
  | case4 c rest hmatch ih =>
    have hread : read (c :: rest) = none := by simpa [hmatch] using (hplace (c :: rest)).symm
    rw [ih, List.drop_zero, List.drop_zero, List.tails_cons, List.filterMap_cons_none hread]

end Everywhere

theorem isWordChar_colon : Text.isWordChar ':' = false := by decide

theorem IsWord.colon_notMem {word : List Char} (h : IsWord word) : ':' ∉ word := fun hmem => by
  have hword := h.isWordChar _ hmem
  rw [isWordChar_colon] at hword
  cases hword

/-- The search for devices finds every mention of one. -/
theorem findAll_devicePattern (cs : List Char) :
    findAll devicePattern 0 cs = (devices cs).map fun mention => [mention.1.toList, mention.2.toList] := by
  have hplace : ∀ text, (match? devicePattern text).map Prod.fst =
      (device? text).map fun mention => [mention.1.toList, mention.2.toList] := by
    refine fun text => Option.ext fun words => ?_
    simp only [Option.map_eq_some_iff, Prod.exists, match?_devicePattern, device?_eq_some, MentionsDevice,
      List.nil_append]
    constructor
    · rintro ⟨_, after, ⟨controller, method, rfl, rfl, hcontroller, hmethod⟩, rfl⟩
      have hdevice : IsDeviceOf (String.ofList (deviceOf controller)).toList controller := by
        simpa using isDeviceOf_deviceOf controller
      exact ⟨.ofList (deviceOf controller), .ofList method, ⟨controller, after, by simp, hcontroller, hdevice,
        by simpa using hmethod⟩, by simp⟩
    · rintro ⟨name, method, ⟨controller, after, rfl, hcontroller, hdevice, hmethod⟩, rfl⟩
      exact ⟨_, after, ⟨controller, method.toList, rfl, rfl, hcontroller, hmethod⟩, by rw [deviceOf_eq_iff.mpr hdevice]⟩
  have hspells : ∀ text m, match? devicePattern text = some m →
      ∃ found, text = 'M' :: ':' :: (found ++ '(' :: m.2) ∧ ':' ∉ found := by
    intro text m hm
    obtain ⟨controller, method, -, rfl, hcontroller, hmethod⟩ := match?_devicePattern.mp hm
    refine ⟨"ASCOM.Alpaca.Simulators.".toList ++ (controller ++ '.' :: method), by simp [deviceMention], ?_⟩
    simp [hcontroller.colon_notMem, hmethod.colon_notMem]
  rw [findAll_eq hplace hspells, List.drop_zero, devices_eq]

/-- The search for methods of all devices finds every mention of one. -/
theorem findAll_genericPattern (cs : List Char) :
    findAll genericPattern 0 cs = (generics cs).map fun method => [method.toList] := by
  have hplace : ∀ text, (match? genericPattern text).map Prod.fst = (generic? text).map fun method => [method.toList] := by
    refine fun text => Option.ext fun words => ?_
    simp only [Option.map_eq_some_iff, Prod.exists, match?_genericPattern, generic?_eq_some, MentionsGeneric,
      List.nil_append]
    constructor
    · rintro ⟨_, after, ⟨method, rfl, rfl, hmethod⟩, rfl⟩
      exact ⟨.ofList method, ⟨after, by simp, by simpa using hmethod⟩, by simp⟩
    · rintro ⟨method, ⟨after, rfl, hmethod⟩, rfl⟩
      exact ⟨_, after, ⟨method.toList, rfl, rfl, hmethod⟩, rfl⟩
  have hspells : ∀ text m, match? genericPattern text = some m →
      ∃ found, text = 'M' :: ':' :: (found ++ '(' :: m.2) ∧ ':' ∉ found := by
    intro text m hm
    obtain ⟨method, -, rfl, hmethod⟩ := match?_genericPattern.mp hm
    refine ⟨"Alpaca.AlpacaController.".toList ++ method, by simp [genericMention], ?_⟩
    simp [hmethod.colon_notMem]
  rw [findAll_eq hplace hspells, List.drop_zero, generics_eq]

end Mention

end DeviceApi
