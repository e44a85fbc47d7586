import DeviceApi.Names.Methods
import Mathlib.Data.List.Infix
import Mathlib.Data.List.TakeWhile

/-!
# Mentions of methods

A text mentions a method wherever a beginning stands that is followed by words. What is read off at a place is what the
text spells there, and the mentions come in the order of their places.
-/

namespace DeviceApi

namespace Mention

variable {α : Type} {beginning cs text rest before word controller device : List Char} {name method : String} {c : Char}

/-- Word characters, and at least one. -/
structure IsWord (cs : List Char) : Prop where
  nonempty : cs ≠ []
  isWordChar : ∀ c ∈ cs, Text.isWordChar c = true

/-! ## What is read at a place -/

theorem after?_eq_some : after? beginning text = some rest ↔ text = beginning ++ rest := by
  induction beginning generalizing text with
  | nil => simp [after?, eq_comm]
  | cons b beginning ih =>
    cases text with
    | nil => simp [after?]
    | cons c text =>
      rw [after?, List.cons_append, List.cons.injEq]
      by_cases hbc : b = c
      · rw [if_pos hbc, ih]
        simp [hbc]
      · simp [hbc, Ne.symm hbc]

/-- A word is read up to the first other character. -/
theorem word?_eq_some (hc : Text.isWordChar c = false) :
    word? text = some (word, c :: rest) ↔ text = word ++ c :: rest ∧ IsWord word := by
  unfold word?
  constructor
  · intro h
    dsimp only at h
    split at h
    · cases h
    · next hne =>
      obtain ⟨rfl, hrest⟩ := Prod.mk.inj (Option.some.inj h)
      refine ⟨?_, by simpa using hne, fun d hd => List.mem_takeWhile_imp hd⟩
      rw [← hrest, List.takeWhile_append_dropWhile]
  · rintro ⟨rfl, hne, hword⟩
    have htake : (word ++ c :: rest).takeWhile Text.isWordChar = word := by
      rw [List.takeWhile_append_of_pos hword, List.takeWhile_cons_of_neg (by simp [hc]), List.append_nil]
    have hdrop : (word ++ c :: rest).dropWhile Text.isWordChar = c :: rest := by
      rw [List.dropWhile_append_of_pos hword, List.dropWhile_cons_of_neg (by simp [hc])]
    simp [htake, hdrop, hne]

theorem isWordChar_parenthesis : Text.isWordChar '(' = false := by decide

theorem isWordChar_dot : Text.isWordChar '.' = false := by decide

theorem method?_eq_some :
    method? text = some method ↔ ∃ after, text = method.toList ++ '(' :: after ∧ IsWord method.toList := by
  unfold method?
  constructor
  · intro h
    split at h
    · next word after hword =>
      obtain rfl := Option.some.inj h
      obtain ⟨htext, hword⟩ := (word?_eq_some isWordChar_parenthesis).mp hword
      exact ⟨after, by simpa using htext, by simpa using hword⟩
    · cases h
  · rintro ⟨after, htext, hword⟩
    rw [(word?_eq_some isWordChar_parenthesis).mpr ⟨htext, hword⟩]
    simp

/-- The device is the controller without the suffix behind it, or the controller if there is no suffix behind a part
of it. -/
def IsDeviceOf (device controller : List Char) : Prop :=
  (device ≠ [] ∧ controller = device ++ controllerSuffix.toList) ∨
    (device = controller ∧ ∀ part ≠ [], controller ≠ part ++ controllerSuffix.toList)

theorem isDeviceOf_deviceOf (controller : List Char) : IsDeviceOf (deviceOf controller) controller := by
  unfold deviceOf
  dsimp only
  split
  · next hsuffix =>
    obtain ⟨hlt, hsuffix⟩ := hsuffix
    obtain ⟨part, rfl⟩ := List.isSuffixOf_iff_suffix.mp hsuffix
    left
    rw [List.length_append, Nat.add_sub_cancel, List.take_left' rfl]
    refine ⟨?_, rfl⟩
    rintro rfl
    simp at hlt
  · next hnot =>
    refine .inr ⟨rfl, ?_⟩
    rintro part hpart rfl
    refine hnot ⟨?_, List.isSuffixOf_iff_suffix.mpr ⟨part, rfl⟩⟩
    rw [List.length_append]
    exact Nat.lt_add_of_pos_left (List.length_pos_of_ne_nil hpart)

theorem IsDeviceOf.unique {device' : List Char} (h : IsDeviceOf device controller) (h' : IsDeviceOf device' controller) :
    device = device' := by
  rcases h with ⟨hne, rfl⟩ | ⟨rfl, hnot⟩ <;> rcases h' with ⟨hne', heq⟩ | ⟨rfl, hnot'⟩
  · exact List.append_cancel_right heq
  · exact absurd rfl (hnot' device hne)
  · exact absurd heq (hnot device' hne')
  · rfl

theorem deviceOf_eq_iff : deviceOf controller = device ↔ IsDeviceOf device controller :=
  ⟨fun h => h ▸ isDeviceOf_deviceOf controller, fun h => (isDeviceOf_deviceOf controller).unique h⟩

/-- Behind `before` the text mentions the method of a device. -/
def MentionsDevice (cs before : List Char) (name method : String) : Prop :=
  ∃ controller after, cs = before ++ (deviceMention.toList ++ (controller ++ '.' :: (method.toList ++ '(' :: after))) ∧
    IsWord controller ∧ IsDeviceOf name.toList controller ∧ IsWord method.toList

/-- Behind `before` the text mentions a method of all devices. -/
def MentionsGeneric (cs before : List Char) (method : String) : Prop :=
  ∃ after, cs = before ++ (genericMention.toList ++ (method.toList ++ '(' :: after)) ∧ IsWord method.toList

theorem device?_eq_some : device? text = some (name, method) ↔ MentionsDevice text [] name method := by
  have hword : ∀ {controller rest : List Char}, (after? deviceMention.toList text).bind word? = some (controller, '.' :: rest) ↔
      text = deviceMention.toList ++ (controller ++ '.' :: rest) ∧ IsWord controller := by
    simp [Option.bind_eq_some_iff, after?_eq_some, word?_eq_some isWordChar_dot]
  unfold device? MentionsDevice
  constructor
  · intro h
    split at h
    · next controller rest hread =>
      obtain ⟨htext, hcontroller⟩ := hword.mp hread
      obtain ⟨method', hreadMethod, heq⟩ := Option.map_eq_some_iff.mp h
      obtain ⟨rfl, rfl⟩ := Prod.mk.inj heq
      obtain ⟨after, rfl, hmethod⟩ := method?_eq_some.mp hreadMethod
      exact ⟨controller, after, htext, hcontroller, by simpa using isDeviceOf_deviceOf controller, hmethod⟩
    · cases h
  · rintro ⟨controller, after, htext, hcontroller, hname, hmethod⟩
    rw [hword.mpr ⟨htext, hcontroller⟩]
    change (method? (method.toList ++ '(' :: after)).map _ = _
    rw [method?_eq_some.mpr ⟨after, rfl, hmethod⟩, deviceOf_eq_iff.mpr hname]
    simp

theorem generic?_eq_some : generic? text = some method ↔ MentionsGeneric text [] method := by
  simp [generic?, MentionsGeneric, Option.bind_eq_some_iff, after?_eq_some, method?_eq_some]

theorem mentionsDevice_iff :
    MentionsDevice cs before name method ↔ ∃ rest, cs = before ++ rest ∧ device? rest = some (name, method) := by
  simp only [device?_eq_some, MentionsDevice, List.nil_append]
  constructor
  · rintro ⟨controller, after, rfl, hspells⟩
    exact ⟨_, rfl, controller, after, rfl, hspells⟩
  · rintro ⟨rest, rfl, controller, after, rfl, hspells⟩
    exact ⟨controller, after, rfl, hspells⟩

theorem mentionsGeneric_iff :
    MentionsGeneric cs before method ↔ ∃ rest, cs = before ++ rest ∧ generic? rest = some method := by
  simp only [generic?_eq_some, MentionsGeneric, List.nil_append]
  constructor
  · rintro ⟨after, rfl, hmethod⟩
    exact ⟨_, rfl, after, rfl, hmethod⟩
  · rintro ⟨rest, rfl, after, rfl, hmethod⟩
    exact ⟨after, rfl, hmethod⟩

/-! ## All places of a text -/

theorem devices_eq (cs : List Char) : devices cs = cs.tails.filterMap device? := by
  induction cs with
  | nil => rfl
  | cons c rest ih =>
    rw [devices, List.tails_cons, List.filterMap_cons, ih]
    split <;> simp [*]

theorem generics_eq (cs : List Char) : generics cs = cs.tails.filterMap generic? := by
  induction cs with
  | nil => rfl
  | cons c rest ih =>
    rw [generics, List.tails_cons, List.filterMap_cons, ih]
    split <;> simp [*]

theorem mem_filterMap_tails {read : List Char → Option α} {a : α} :
    a ∈ cs.tails.filterMap read ↔ ∃ before rest, cs = before ++ rest ∧ read rest = some a := by
  simp only [List.mem_filterMap, List.mem_tails]
  constructor
  · rintro ⟨rest, ⟨before, rfl⟩, hread⟩
    exact ⟨before, rest, rfl, hread⟩
  · rintro ⟨before, rest, rfl, hread⟩
    exact ⟨rest, List.suffix_append before rest, hread⟩

theorem mem_devices : (name, method) ∈ devices cs ↔ ∃ before, MentionsDevice cs before name method := by
  simp only [devices_eq, mem_filterMap_tails, mentionsDevice_iff]

theorem mem_generics : method ∈ generics cs ↔ ∃ before, MentionsGeneric cs before method := by
  simp only [generics_eq, mem_filterMap_tails, mentionsGeneric_iff]

/-- What is read at the first place of a text is the last of all only if nothing is read behind it. -/
theorem getLast?_filterMap_tails_cons {read : List Char → Option α} :
    ((c :: cs).tails.filterMap read).getLast? = (cs.tails.filterMap read).getLast?.or (read (c :: cs)) := by
  rw [List.tails_cons, List.filterMap_cons]
  cases hread : read (c :: cs) with
  | none => simp
  | some x => cases hrest : (cs.tails.filterMap read).getLast? <;> simp [List.getLast?_cons, hrest]

theorem getLast?_filterMap_tails_eq_none {read : List Char → Option α} :
    (cs.tails.filterMap read).getLast? = none ↔ ∀ before rest, cs = before ++ rest → read rest = none := by
  rw [List.getLast?_eq_none_iff, List.eq_nil_iff_forall_not_mem]
  simp only [mem_filterMap_tails, not_exists, not_and, Option.eq_none_iff_forall_ne_some]
  exact ⟨fun h before rest heq a => h a before rest heq, fun h a before rest heq => h before rest heq a⟩

/-- The last of what is read at the places of a text is what is read at the last place where anything is. -/
theorem getLast?_filterMap_tails {read : List Char → Option α} {a : α} :
    (cs.tails.filterMap read).getLast? = some a ↔ ∃ before rest, cs = before ++ rest ∧ read rest = some a ∧
      ∀ before' rest', cs = before' ++ rest' → before.length < before'.length → read rest' = none := by
  induction cs with
  | nil =>
    have hlast : ([].tails.filterMap read).getLast? = read [] := by cases hread : read [] <;> simp [hread]
    rw [hlast]
    constructor
    · intro h
      refine ⟨[], [], rfl, h, fun before' rest' heq hlt => ?_⟩
      obtain ⟨rfl, -⟩ := List.append_eq_nil_iff.mp heq.symm
      exact absurd hlt (lt_irrefl _)
    · rintro ⟨before, rest, heq, hread, -⟩
      obtain ⟨-, rfl⟩ := List.append_eq_nil_iff.mp heq.symm
      exact hread
  | cons c cs ih =>
    rw [getLast?_filterMap_tails_cons, Option.or_eq_some_iff, ih, getLast?_filterMap_tails_eq_none]
    constructor
    · rintro (⟨before, rest, rfl, hread, hlater⟩ | ⟨hlater, hread⟩)
      · refine ⟨c :: before, rest, rfl, hread, fun before' rest' heq hlt => ?_⟩
        cases before' with
        | nil => simp at hlt
        | cons d before' => exact hlater before' rest' (List.cons.inj heq).2 (Nat.lt_of_succ_lt_succ hlt)
      · refine ⟨[], c :: cs, rfl, hread, fun before' rest' heq hlt => ?_⟩
        cases before' with
        | nil => exact absurd hlt (lt_irrefl _)
        | cons d before' => exact hlater before' rest' (List.cons.inj heq).2
    · rintro ⟨before, rest, heq, hread, hlater⟩
      cases before with
      | nil =>
        obtain rfl : c :: cs = rest := heq
        refine .inr ⟨fun before' rest' heq' => ?_, hread⟩
        exact hlater (c :: before') rest' (congrArg (c :: ·) heq') (Nat.succ_pos _)
      | cons d before =>
        obtain ⟨rfl, rfl⟩ := List.cons.inj heq
        refine .inl ⟨before, rest, rfl, hread, fun before' rest' heq' hlt => ?_⟩
        exact hlater (c :: before') rest' (congrArg (c :: ·) heq') (Nat.succ_lt_succ hlt)

/-- The method is the one that has the property at the last place at which one has it. -/
def IsLast (P : List Char → String → Prop) (method : String) : Prop :=
  ∃ before, P before method ∧ ∀ before' method', P before' method' → before'.length ≤ before.length

theorem isLast_congr {P Q : List Char → String → Prop} (h : ∀ before method, P before method ↔ Q before method) :
    IsLast P method ↔ IsLast Q method := by
  simp only [IsLast, h]

/-- The last of what is read at the places of a text and has a property is read at the last such place. -/
theorem getLast?_filter_eq_some {read : List Char → Option α} {p : α → Bool} {f : α → String} :
    ((cs.tails.filterMap read).filter p).getLast?.map f = some method ↔ IsLast (fun before method =>
      ∃ rest a, cs = before ++ rest ∧ read rest = some a ∧ p a = true ∧ f a = method) method := by
  rw [List.filter_filterMap, Option.map_eq_some_iff]
  simp only [getLast?_filterMap_tails, IsLast, Option.filter_eq_some_iff, Option.filter_eq_none_iff]
  constructor
  · rintro ⟨a, ⟨before, rest, rfl, ⟨hread, ha⟩, hlater⟩, rfl⟩
    refine ⟨before, ⟨rest, a, rfl, hread, ha, rfl⟩, ?_⟩
    rintro before' _ ⟨rest', a', heq, hread', ha', rfl⟩
    by_contra hlt
    exact hlater before' rest' heq (not_le.mp hlt) a' hread' ha'
  · rintro ⟨before, ⟨rest, a, rfl, hread, ha, rfl⟩, hlater⟩
    refine ⟨a, ⟨before, rest, rfl, ⟨hread, ha⟩, fun before' rest' heq hlt a' hread' ha' => ?_⟩, rfl⟩
    exact absurd (hlater before' (f a') ⟨rest', a', heq, hread', ha', rfl⟩) (not_le.mpr hlt)

theorem getLast?_filter_devices {p : String × String → Bool} :
    ((devices cs).filter p).getLast?.map Prod.snd = some method ↔
      IsLast (fun before method => ∃ name, MentionsDevice cs before name method ∧ p (name, method) = true) method := by
  rw [devices_eq, getLast?_filter_eq_some]
  refine isLast_congr fun before method => ?_
  simp only [mentionsDevice_iff, Prod.exists]
  constructor
  · rintro ⟨rest, name, _, rfl, hread, hp, rfl⟩
    exact ⟨name, ⟨rest, rfl, hread⟩, hp⟩
  · rintro ⟨name, ⟨rest, rfl, hread⟩, hp⟩
    exact ⟨rest, name, method, rfl, hread, hp, rfl⟩

theorem getLast?_filter_generics {p : String → Bool} :
    ((generics cs).filter p).getLast? = some method ↔
      IsLast (fun before method => MentionsGeneric cs before method ∧ p method = true) method := by
  rw [generics_eq, ← Option.map_id' (x := List.getLast? _), getLast?_filter_eq_some]
  refine isLast_congr fun before method => ?_
  simp only [mentionsGeneric_iff]
  constructor
  · rintro ⟨rest, _, rfl, hread, hp, rfl⟩
    exact ⟨⟨rest, rfl, hread⟩, hp⟩
  · rintro ⟨⟨rest, rfl, hread⟩, hp⟩
    exact ⟨rest, method, rfl, hread, hp, rfl⟩

/-! ## Words of a text -/

theorem isWordChar_brace : Text.isWordChar '\x7b' = false := by decide

/-- The name of a device that is mentioned has no brace. -/
theorem brace_notMem_of_mentionsDevice (h : MentionsDevice cs before name method) : '\x7b' ∉ name.toList := by
  obtain ⟨controller, after, -, hcontroller, hname, -⟩ := h
  intro hmem
  have hbrace : '\x7b' ∈ controller := by
    rcases hname with ⟨-, rfl⟩ | ⟨rfl, -⟩
    · exact List.mem_append_left _ hmem
    · exact hmem
  have hword := hcontroller.isWordChar _ hbrace
  rw [isWordChar_brace] at hword
  cases hword

/-- A method that is mentioned stands in the text. -/
theorem infix_of_mentionsDevice (h : MentionsDevice cs before name method) : method.toList <:+: cs := by
  obtain ⟨controller, after, rfl, -⟩ := h
  exact ⟨before ++ (deviceMention.toList ++ (controller ++ ['.'])), '(' :: after, by simp⟩

theorem infix_of_mentionsGeneric (h : MentionsGeneric cs before method) : method.toList <:+: cs := by
  obtain ⟨after, rfl, -⟩ := h
  exact ⟨before ++ genericMention.toList, '(' :: after, by simp⟩

end Mention

end DeviceApi
