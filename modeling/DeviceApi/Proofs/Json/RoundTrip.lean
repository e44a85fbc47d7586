import DeviceApi.Proofs.Document.Entries
import DeviceApi.Proofs.Document.Holds
import DeviceApi.Proofs.Json.Numbers
import DeviceApi.Proofs.Json.Texts

/-!
# Reading what has been written

The line of JSON text that a tree is written as is read back as the tree with the entries of every object in the
order of their keys. This holds for trees of nothing, truth values, integers, texts, lists and objects with text
keys, as long as integers have few enough digits and brackets do not stand too deep inside of each other.
-/

namespace DeviceApi

/-- The scalar is one that JSON text states exactly. -/
def Scalar.IsExact : Scalar → Prop
  | .null | .bool _ => True
  | .int i => Numeral.hasDecimalText i = true
  | .text s => Text.joinHalves s.toList = s.toList
  | .real _ | .octets _ | .stamp .. | .undefined _ => False

instance : DecidablePred Scalar.IsExact
  | .null | .bool _ => .isTrue trivial
  | .int i => inferInstanceAs (Decidable (Numeral.hasDecimalText i = true))
  | .text s => inferInstanceAs (Decidable (Text.joinHalves s.toList = s.toList))
  | .real _ | .octets _ | .stamp .. | .undefined _ => .isFalse id

theorem Entries.TextKeyed.of_keys_perm {α β : Type} {entries : Entries α} {others : Entries β}
    (h : entries.TextKeyed) (hperm : others.keys.Perm entries.keys) : others.TextKeyed where
  exists_text key hkey := h.exists_text key (hperm.mem_iff.mp hkey)
  nodup := hperm.nodup_iff.mpr h.nodup

namespace Tree

/-- The order of entries by the codes of their keys. -/
def keyOrder {α : Type} (e e' : Scalar × α) : Bool := decide (e.1.codes ≤ e'.1.codes)

mutual

/-- All scalars and keys of the tree are ones that JSON text states exactly, and the keys of each object are
texts that do not repeat. -/
def IsExact : Tree → Prop
  | .scalar a => a.IsExact
  | .list items => AreExact items
  | .object entries => Entries.TextKeyed entries ∧ EntriesAreExact entries
  | .pair .. | .set .. | .enclosing .. => False

/-- All items of a list are such trees. -/
def AreExact : List Tree → Prop
  | [] => True
  | t :: rest => t.IsExact ∧ AreExact rest

/-- The keys and values of all entries of an object are exact. -/
def EntriesAreExact : List (Scalar × Tree) → Prop
  | [] => True
  | (key, t) :: rest => key.IsExact ∧ t.IsExact ∧ EntriesAreExact rest

end

@[simp] theorem areExact_iff {items : List Tree} : AreExact items ↔ ∀ t ∈ items, t.IsExact := by
  induction items with
  | nil => simp [AreExact]
  | cons t rest ih => simp [AreExact, ih]

@[simp] theorem entriesAreExact_iff {entries : List (Scalar × Tree)} :
    EntriesAreExact entries ↔ ∀ e ∈ entries, e.1.IsExact ∧ e.2.IsExact := by
  induction entries with
  | nil => simp [EntriesAreExact]
  | cons e rest ih => simp [EntriesAreExact, ih, and_assoc]

mutual

/-- Going through a tree tells whether it is exact. -/
def decideIsExact : (t : Tree) → Decidable t.IsExact
  | .scalar a => inferInstanceAs (Decidable a.IsExact)
  | .list items => decideAreExact items
  | .object entries => @instDecidableAnd _ _ inferInstance (decideEntriesAreExact entries)
  | .pair .. | .set .. | .enclosing .. => .isFalse id

def decideAreExact : (items : List Tree) → Decidable (AreExact items)
  | [] => .isTrue trivial
  | t :: rest => @instDecidableAnd _ _ (decideIsExact t) (decideAreExact rest)

def decideEntriesAreExact : (entries : List (Scalar × Tree)) → Decidable (EntriesAreExact entries)
  | [] => .isTrue trivial
  | (_, t) :: rest =>
    @instDecidableAnd _ _ inferInstance (@instDecidableAnd _ _ (decideIsExact t) (decideEntriesAreExact rest))

end

instance : DecidablePred IsExact := decideIsExact

mutual

/-- How many brackets of the tree stand inside of each other. -/
def depth : Tree → Nat
  | .list items => depthOfItems items + 1
  | .object entries => depthOfEntries entries + 1
  | .scalar _ | .pair .. | .set .. | .enclosing .. => 0

/-- The greatest depth of an item. -/
def depthOfItems : List Tree → Nat
  | [] => 0
  | t :: rest => max t.depth (depthOfItems rest)

/-- The greatest depth of a value. -/
def depthOfEntries : List (Scalar × Tree) → Nat
  | [] => 0
  | (_, t) :: rest => max t.depth (depthOfEntries rest)

end

theorem depth_le_of_mem {t : Tree} {items : List Tree} (h : t ∈ items) : t.depth ≤ depthOfItems items := by
  induction items with
  | nil => simp at h
  | cons u rest ih =>
    rw [depthOfItems]
    rcases List.mem_cons.mp h with rfl | h
    · exact le_max_left _ _
    · exact (ih h).trans (le_max_right _ _)

theorem depth_le_of_mem_entries {e : Scalar × Tree} {entries : List (Scalar × Tree)} (h : e ∈ entries) :
    e.2.depth ≤ depthOfEntries entries := by
  induction entries with
  | nil => simp at h
  | cons u rest ih =>
    rw [depthOfEntries]
    rcases List.mem_cons.mp h with rfl | h
    · exact le_max_left _ _
    · exact (ih h).trans (le_max_right _ _)

mutual

/-- The tree with the entries of every object in the order of their keys. -/
def sortKeys : Tree → Tree
  | .list items => .list (sortKeysOfItems items)
  | .object entries => .object ((sortKeysOfEntries entries).mergeSort keyOrder)
  | .scalar a => .scalar a
  | .pair key value => .pair key value
  | .set members => .set members
  | .enclosing isObject => .enclosing isObject

/-- The items of a list with their keys in order. -/
def sortKeysOfItems : List Tree → List Tree
  | [] => []
  | t :: rest => t.sortKeys :: sortKeysOfItems rest

/-- The values of an object with their keys in order. -/
def sortKeysOfEntries : List (Scalar × Tree) → List (Scalar × Tree)
  | [] => []
  | (key, t) :: rest => (key, t.sortKeys) :: sortKeysOfEntries rest

end

theorem sortKeysOfItems_eq (items : List Tree) : sortKeysOfItems items = items.map sortKeys := by
  induction items with
  | nil => rfl
  | cons t rest ih => rw [sortKeysOfItems, ih, List.map_cons]

theorem sortKeysOfEntries_eq (entries : List (Scalar × Tree)) :
    sortKeysOfEntries entries = entries.map fun e => (e.1, e.2.sortKeys) := by
  induction entries with
  | nil => rfl
  | cons e rest ih => rw [sortKeysOfEntries, ih, List.map_cons]

/-- Entries may also be sorted before their values are. -/
theorem sortKeys_object (entries : List (Scalar × Tree)) :
    sortKeys (.object entries) = .object ((entries.mergeSort keyOrder).map fun e => (e.1, e.2.sortKeys)) := by
  rw [sortKeys, sortKeysOfEntries_eq]
  refine congrArg Tree.object (List.map_mergeSort (r := keyOrder) (s := keyOrder) ?_).symm
  exact fun _ _ _ _ => rfl

end Tree

namespace Json

variable {t : Tree} {text rest : List Char} {fuel depth level : Nat} {a : Scalar}

/-! ## What may follow a value -/

/-- A value ends in front of the rest: at the end of the text, at a comma or at a closing bracket. -/
def Delimited (rest : List Char) : Prop := ∀ c ∈ rest.head?, c = ',' ∨ c = ']' ∨ c = '\x7d'

theorem Delimited.ends (h : Delimited rest) : Ends rest := fun c hc => by
  rcases h c hc with rfl | rfl | rfl <;> decide

theorem Delimited.skipBlanks (h : Delimited rest) : skipBlanks rest = rest := by
  cases rest with
  | nil => rfl
  | cons c cs => rcases h c rfl with rfl | rfl | rfl <;> rfl

/-- The text begins with the first character of a value. -/
def Begins (text : List Char) : Prop :=
  ∃ c cs, text = c :: cs ∧ c ∉ [' ', '\t', '\n', '\r', ']', '\x7d']

theorem Begins.skipBlanks (h : Begins text) : skipBlanks (text ++ rest) = text ++ rest := by
  obtain ⟨c, cs, rfl, hc⟩ := h
  simp only [List.mem_cons, List.not_mem_nil, or_false, not_or] at hc
  simp [Json.skipBlanks, hc]

/-- The text is read as the tree with its keys in order, whatever follows that ends it. -/
structure Spells (t : Tree) (text : List Char) : Prop where
  begins : Begins text
  reads : ∀ fuel depth rest, 2 * text.length ≤ fuel → depth + t.depth ≤ maxDepth → Delimited rest →
    readValue fuel depth (text ++ rest) = .ok (t.sortKeys, rest)

theorem readValue_blank : readValue fuel depth (' ' :: rest) = readValue fuel depth rest := by
  cases fuel with
  | zero => rfl
  | succ fuel => rfl

theorem readValue_quote : readValue (fuel + 1) depth ('"' :: rest) =
    (fun p => (.text p.1, p.2)) <$> readText rest := rfl

theorem readValue_bracket (hlt : depth < maxDepth) (h : Begins text) :
    readValue (fuel + 1) depth ('[' :: (text ++ rest)) =
      (fun p => (.list p.1, p.2)) <$> readItems fuel (depth + 1) (text ++ rest) := by
  have hskip : skipBlanks ('[' :: (text ++ rest)) = '[' :: (text ++ rest) := rfl
  have hdeeper : deeper depth = .ok (depth + 1) := if_pos hlt
  obtain ⟨c, cs, rfl, hc⟩ := id h
  simp only [List.mem_cons, List.not_mem_nil, or_false, not_or] at hc
  simp only [readValue, hskip, hdeeper, h.skipBlanks, bind, Except.bind]
  split
  · next heq => exact absurd (List.cons.inj heq).1 hc.2.2.2.2.1
  · rfl

theorem readValue_brace (hlt : depth < maxDepth) (h : Begins text) :
    readValue (fuel + 1) depth ('\x7b' :: (text ++ rest)) =
      (fun p => (.object (Entries.ofPairs p.1), p.2)) <$> readMembers fuel (depth + 1) (text ++ rest) := by
  have hskip : skipBlanks ('\x7b' :: (text ++ rest)) = '\x7b' :: (text ++ rest) := rfl
  have hdeeper : deeper depth = .ok (depth + 1) := if_pos hlt
  obtain ⟨c, cs, rfl, hc⟩ := id h
  simp only [List.mem_cons, List.not_mem_nil, or_false, not_or] at hc
  simp only [readValue, hskip, hdeeper, h.skipBlanks, bind, Except.bind]
  split
  · next heq => exact absurd (List.cons.inj heq).1 hc.2.2.2.2.2
  · rfl

/-! ## Scalars -/

/-- A text that begins with a digit or with a sign in front of a digit is read as a number. -/
theorem readPlain_digits {digits : List Char} (negative : Bool) (rest : List Char) (hne : digits ≠ [])
    (hdigits : ∀ c ∈ digits, c.isDigit = true) :
    readPlain ((if negative then '-' :: digits else digits) ++ rest) = readNumber negative (digits ++ rest) := by
  obtain ⟨c, cs, rfl⟩ := List.exists_cons_of_ne_nil hne
  have hc : c.isDigit = true := hdigits c List.mem_cons_self
  have hletter : ∀ d : Char, d.isDigit = false → d ≠ c := fun d hd heq => by simp [heq, hc] at hd
  cases negative with
  | true =>
    simp [readPlain, dropWord?, hletter]
  | false =>
    have hsign := hletter '-' (by decide)
    simp [readPlain, dropWord?, hletter, hsign.symm]

theorem spells_plain (hbegins : Begins text) (hplain : ∀ c ∈ text.head?, c ∉ ['"', '[', '\x7b'])
    (hread : ∀ rest, Ends rest → readPlain (text ++ rest) = .ok (a, rest)) : Spells (.scalar a) text where
  begins := hbegins
  reads fuel depth rest hfuel _ hrest := by
    obtain ⟨c, cs, rfl, -⟩ := id hbegins
    obtain ⟨fuel, rfl⟩ : ∃ m, fuel = m + 1 := ⟨fuel - 1, by simp at hfuel; omega⟩
    have hc := hplain c rfl
    simp only [List.mem_cons, List.not_mem_nil, or_false, not_or] at hc
    rw [readValue, hbegins.skipBlanks]
    split
    · next heq => exact absurd (List.cons.inj heq).1 hc.1
    · next heq => exact absurd (List.cons.inj heq).1 hc.2.1
    · next heq => exact absurd (List.cons.inj heq).1 hc.2.2
    · rw [hread rest hrest.ends]
      rfl

theorem spells_int {i : Int} (hi : Numeral.hasDecimalText i = true) : Spells (.int i) (toString i).toList := by
  obtain ⟨c, cs, heq⟩ := List.exists_cons_of_ne_nil (Nat.toDigits_ne_nil (n := i.natAbs) (b := 10))
  have hdigits := all_isDigit_toDigits i.natAbs
  have hc : ∀ d : Char, d.isDigit = false → c ≠ d := fun d hd hcd => by
    have hdigit := hdigits c (heq ▸ List.mem_cons_self)
    rw [hcd, hd] at hdigit
    cases hdigit
  rw [toList_toString]
  refine spells_plain ?_ ?_ fun rest hrest => ?_
  · split
    · exact ⟨'-', _, rfl, by decide⟩
    · exact ⟨c, cs, heq, by simp [hc]⟩
  · split
    · simp
    · simp [heq, hc]
  · have hsign := readPlain_digits (decide (i < 0)) rest Nat.toDigits_ne_nil hdigits
    simp only [decide_eq_true_eq] at hsign
    rw [hsign, readNumber_toDigits (length_toDigits_le hi) hrest]
    by_cases hneg : i < 0
    · simp only [hneg, decide_true, if_true, Int.ofNat_natAbs_of_nonpos hneg.le, neg_neg]
    · simp only [hneg, decide_false, Bool.false_eq_true, if_false, Int.natAbs_of_nonneg (not_lt.mp hneg)]

theorem toList_writeText (s : String) :
    (writeText true s).toList = '"' :: (s.toList.flatMap (escapeChar true) ++ ['"']) := String.toList_ofList

theorem spells_text {s : String} (hs : Text.joinHalves s.toList = s.toList) :
    Spells (.text s) (writeText true s).toList where
  begins := ⟨'"', _, toList_writeText s, by decide⟩
  reads fuel depth rest hfuel _ _ := by
    obtain ⟨fuel, rfl⟩ : ∃ m, fuel = m + 1 := ⟨fuel - 1, by simp [toList_writeText] at hfuel; omega⟩
    rw [toList_writeText, List.cons_append, List.append_assoc, List.singleton_append, readValue_quote,
      readText_escaped hs]
    rfl

theorem exists_spells_scalar (ha : a.IsExact) :
    ∃ text, writeScalar sortedLine a = .ok text ∧ Spells (.scalar a) text.toList := by
  cases a with
  | null => exact ⟨"null", rfl, spells_plain ⟨'n', _, rfl, by decide⟩ (by simp) fun _ _ => rfl⟩
  | bool b =>
    cases b with
    | true => exact ⟨"true", rfl, spells_plain ⟨'t', _, rfl, by decide⟩ (by simp) fun _ _ => rfl⟩
    | false => exact ⟨"false", rfl, spells_plain ⟨'f', _, rfl, by decide⟩ (by simp) fun _ _ => rfl⟩
  | int i =>
    have hwrite : writeScalar sortedLine (.int i) = .ok (toString i) := if_pos ha
    exact ⟨_, hwrite, spells_int ha⟩
  | text s => exact ⟨_, rfl, spells_text ha⟩
  | real | octets | stamp | undefined => exact ha.elim

/-! ## Lists -/

/-- What stands between the brackets of a list. -/
def joined (texts : List (List Char)) : List Char := [',', ' '].intercalate texts

theorem joined_cons_cons {text' : List Char} {texts : List (List Char)} :
    joined (text :: text' :: texts) = text ++ ',' :: ' ' :: joined (text' :: texts) := by
  rw [joined, List.intercalate_cons_cons]
  simp [joined]

theorem toList_enclose (opening closing : String) (parts : List String) :
    (sortedLine.enclose level opening closing parts).toList =
      opening.toList ++ joined (parts.map String.toList) ++ closing.toList := by
  cases parts with
  | nil => simp [Style.enclose, joined, List.intercalate_nil]
  | cons part parts =>
    simp only [Style.enclose, sortedLine, Style.lineBreak, List.isEmpty_cons, Bool.false_eq_true, if_false,
      String.toList_append, String.toList_intercalate]
    simp [joined]

theorem readItems_blank : readItems fuel depth (' ' :: rest) = readItems fuel depth rest := by
  cases fuel with
  | zero => rfl
  | succ fuel => rw [readItems, readItems, readValue_blank]

theorem readItems_comma (h : readValue fuel depth text = .ok (t, ',' :: rest)) :
    readItems (fuel + 1) depth text = (fun p => (t :: p.1, p.2)) <$> readItems fuel depth rest := by
  rw [readItems, h]
  rfl

theorem readItems_bracket (h : readValue fuel depth text = .ok (t, ']' :: rest)) :
    readItems (fuel + 1) depth text = .ok ([t], rest) := by
  rw [readItems, h]
  rfl

/-- The items of a list are read one after the other up to the closing bracket. -/
theorem readItems_joined {items : List Tree} {texts : List (List Char)} (hne : items ≠ [])
    (h : List.Forall₂ Spells items texts) (hfuel : 2 * (joined texts).length + 1 ≤ fuel)
    (hdepth : ∀ t ∈ items, depth + t.depth ≤ maxDepth) :
    readItems fuel depth (joined texts ++ ']' :: rest) = .ok (items.map Tree.sortKeys, rest) := by
  induction h generalizing fuel with
  | nil => exact absurd rfl hne
  | @cons t text items texts ht hrest ih =>
    obtain ⟨fuel, rfl⟩ : ∃ m, fuel = m + 1 := ⟨fuel - 1, by omega⟩
    have hfirst := hdepth t List.mem_cons_self
    have hothers := fun u hu => hdepth u (List.mem_cons_of_mem t hu)
    cases hrest with
    | nil =>
      have hjoined : joined [text] = text := List.intercalate_singleton
      rw [hjoined] at hfuel ⊢
      rw [readItems_bracket (ht.reads fuel depth _ (by omega) hfirst (by simp [Delimited]))]
      rfl
    | @cons u text' items texts hu hrest =>
      rw [joined_cons_cons] at hfuel ⊢
      simp only [List.length_append, List.length_cons] at hfuel
      rw [List.append_assoc, List.cons_append, List.cons_append,
        readItems_comma (ht.reads fuel depth _ (by omega) hfirst (by simp [Delimited])), readItems_blank,
        ih (by simp) (by omega) hothers]
      rfl

theorem begins_joined {α : Type} {R : α → List Char → Prop} {items : List α} {texts : List (List Char)}
    (h : List.Forall₂ R items texts) (hbegins : ∀ x text, R x text → Begins text) (hne : items ≠ []) :
    Begins (joined texts) := by
  cases h with
  | nil => exact absurd rfl hne
  | @cons x text items texts hx hrest =>
    obtain ⟨c, cs, rfl, hc⟩ := hbegins x text hx
    cases texts with
    | nil => exact ⟨c, cs, List.intercalate_singleton, hc⟩
    | cons text' texts =>
      rw [joined_cons_cons]
      exact ⟨c, _, List.cons_append .., hc⟩

theorem spells_list {items : List Tree} {texts : List (List Char)} (h : List.Forall₂ Spells items texts) :
    Spells (.list items) ('[' :: (joined texts ++ [']'])) where
  begins := ⟨'[', _, rfl, by decide⟩
  reads fuel depth rest hfuel hdepth hrest := by
    simp only [List.length_cons, List.length_append, List.length_nil] at hfuel
    obtain ⟨fuel, rfl⟩ : ∃ m, fuel = m + 1 := ⟨fuel - 1, by omega⟩
    rw [Tree.depth] at hdepth
    rw [Tree.sortKeys, Tree.sortKeysOfItems_eq, List.cons_append, List.append_assoc, List.singleton_append]
    by_cases hne : items = []
    · subst hne
      cases h
      have hdeeper : deeper depth = .ok (depth + 1) := if_pos (by omega)
      have hskip : skipBlanks ('[' :: ']' :: rest) = '[' :: ']' :: rest := rfl
      have hskip' : skipBlanks (']' :: rest) = ']' :: rest := rfl
      rw [joined, List.intercalate_nil, List.nil_append]
      simp only [readValue, hskip, hskip', hdeeper, bind, Except.bind]
      rfl
    · have hbegins : Begins (joined texts) := begins_joined h (fun _ _ ht => ht.begins) hne
      rw [readValue_bracket (by omega) hbegins, readItems_joined hne h (by omega)]
      · rfl
      · intro u hu
        have hle := Tree.depth_le_of_mem hu
        omega

/-! ## Objects -/

variable {key : String}

/-- The text is read as the entry, whose value has its keys in order. -/
inductive SpellsEntry : Scalar × Tree → List Char → Prop
  | member {key : String} {t : Tree} {text : List Char} (hkey : Text.joinHalves key.toList = key.toList)
      (ht : Spells t text) : SpellsEntry (.text key, t) ((writeText true key).toList ++ ':' :: ' ' :: text)

theorem readMembers_blank : readMembers fuel depth (' ' :: rest) = readMembers fuel depth rest := by
  cases fuel with
  | zero => rfl
  | succ fuel => rfl

theorem readMembers_comma (hkey : Text.joinHalves key.toList = key.toList)
    (h : readValue fuel depth text = .ok (t, ',' :: rest)) :
    readMembers (fuel + 1) depth ((writeText true key).toList ++ ':' :: ' ' :: text) =
      (fun p => ((.text key, t) :: p.1, p.2)) <$> readMembers fuel depth rest := by
  have hskip : ∀ cs : List Char, skipBlanks ('"' :: cs) = '"' :: cs := fun _ => rfl
  have hskip' : ∀ cs : List Char, skipBlanks (':' :: cs) = ':' :: cs := fun _ => rfl
  rw [toList_writeText, List.cons_append, List.append_assoc, List.singleton_append]
  simp only [readMembers, hskip, readText_escaped hkey, hskip', readValue_blank, h, bind, Except.bind]
  rfl

theorem readMembers_brace (hkey : Text.joinHalves key.toList = key.toList)
    (h : readValue fuel depth text = .ok (t, '\x7d' :: rest)) :
    readMembers (fuel + 1) depth ((writeText true key).toList ++ ':' :: ' ' :: text) =
      .ok ([(.text key, t)], rest) := by
  have hskip : ∀ cs : List Char, skipBlanks ('"' :: cs) = '"' :: cs := fun _ => rfl
  have hskip' : ∀ cs : List Char, skipBlanks (':' :: cs) = ':' :: cs := fun _ => rfl
  rw [toList_writeText, List.cons_append, List.append_assoc, List.singleton_append]
  simp only [readMembers, hskip, readText_escaped hkey, hskip', readValue_blank, h, bind, Except.bind]
  rfl

/-- The entries of an object are read one after the other up to the closing bracket. -/
theorem readMembers_joined {entries : List (Scalar × Tree)} {texts : List (List Char)} (hne : entries ≠ [])
    (h : List.Forall₂ SpellsEntry entries texts) (hfuel : 2 * (joined texts).length + 1 ≤ fuel)
    (hdepth : ∀ e ∈ entries, depth + e.2.depth ≤ maxDepth) :
    readMembers fuel depth (joined texts ++ '\x7d' :: rest) =
      .ok (entries.map fun e => (e.1, e.2.sortKeys), rest) := by
  induction h generalizing fuel with
  | nil => exact absurd rfl hne
  | @cons e text entries texts he hrest ih =>
    obtain ⟨fuel, rfl⟩ : ∃ m, fuel = m + 1 := ⟨fuel - 1, by omega⟩
    have hfirst := hdepth e List.mem_cons_self
    have hothers := fun e' he' => hdepth e' (List.mem_cons_of_mem e he')
    obtain ⟨hkey, ht⟩ := he
    cases hrest with
    | nil =>
      rw [joined, List.intercalate_singleton] at hfuel ⊢
      simp only [List.length_append, List.length_cons] at hfuel
      rw [List.append_assoc, List.cons_append, List.cons_append,
        readMembers_brace hkey (ht.reads fuel depth _ (by omega) hfirst (by simp [Delimited]))]
      rfl
    | @cons e' text' entries texts he' hrest =>
      rw [joined_cons_cons] at hfuel ⊢
      simp only [List.length_append, List.length_cons] at hfuel
      rw [List.append_assoc, List.append_assoc, List.cons_append, List.cons_append, List.cons_append,
        List.cons_append, readMembers_comma hkey (ht.reads fuel depth _ (by omega) hfirst (by simp [Delimited])),
        readMembers_blank, ih (by simp) (by omega) hothers]
      rfl

/-- Entries that are written in the order of their keys are read as the object with its keys in order. -/
theorem spells_object {entries : List (Scalar × Tree)} {texts : List (List Char)} (hkeyed : Entries.TextKeyed entries)
    (h : List.Forall₂ SpellsEntry (entries.mergeSort Tree.keyOrder) texts) :
    Spells (.object entries) ('\x7b' :: (joined texts ++ ['\x7d'])) where
  begins := ⟨'\x7b', _, rfl, by decide⟩
  reads fuel depth rest hfuel hdepth hrest := by
    have hperm := List.mergeSort_perm entries Tree.keyOrder
    simp only [List.length_cons, List.length_append, List.length_nil] at hfuel
    obtain ⟨fuel, rfl⟩ : ∃ m, fuel = m + 1 := ⟨fuel - 1, by omega⟩
    rw [Tree.depth] at hdepth
    rw [Tree.sortKeys_object, List.cons_append, List.append_assoc, List.singleton_append]
    by_cases hne : entries.mergeSort Tree.keyOrder = []
    · rw [hne] at h ⊢
      cases h
      have hdeeper : deeper depth = .ok (depth + 1) := if_pos (by omega)
      have hskip : skipBlanks ('\x7b' :: '\x7d' :: rest) = '\x7b' :: '\x7d' :: rest := rfl
      have hskip' : skipBlanks ('\x7d' :: rest) = '\x7d' :: rest := rfl
      rw [joined, List.intercalate_nil, List.nil_append]
      simp only [readValue, hskip, hskip', hdeeper, bind, Except.bind]
      rfl
    · have hbegins : Begins (joined texts) := by
        refine begins_joined h (fun e text he => ?_) hne
        obtain ⟨hkey, ht⟩ := he
        exact ⟨'"', _, by rw [toList_writeText, List.cons_append], by decide⟩
      rw [readValue_brace (by omega) hbegins, readMembers_joined hne h (by omega)]
      · have hsorted : Entries.TextKeyed ((entries.mergeSort Tree.keyOrder).map fun e => (e.1, e.2.sortKeys)) :=
          hkeyed.of_keys_perm (by simpa [Entries.keys, Function.comp_def] using hperm.map Prod.fst)
        change Except.ok (Tree.object (Entries.putAll [] _), rest) = _
        rw [Entries.putAll_eq_append hsorted.exists_text (by simpa using hsorted.nodup), List.nil_append]
      · intro e he
        have hle := Tree.depth_le_of_mem_entries (hperm.mem_iff.mp he)
        omega

/-! ## Writing -/

theorem writeEntries_eq (style : Style) (entries : List (Scalar × Tree)) :
    writeEntries style level entries = entries.map fun e => (e.1, writeAt style level e.2) := by
  induction entries with
  | nil => rw [writeEntries, List.map_nil]
  | cons e rest ih => rw [writeEntries, ih, List.map_cons]

/-- The written values of an object are arranged in the order of their keys. -/
theorem arrange_writeEntries {entries : List (Scalar × Tree)} (h : Entries.TextKeyed entries) :
    sortedLine.arrange (writeEntries sortedLine level entries) =
      .ok ((entries.mergeSort Tree.keyOrder).map fun e => (e.1, writeAt sortedLine level e.2)) := by
  rw [writeEntries_eq]
  refine Sorting.sort_eq_of_perm (Sorting.ranks_of_texts fun p hp => ?_) (fun p hp q hq hcodes => ?_)
    ((List.mergeSort_perm entries Tree.keyOrder).map _) (List.pairwise_map.mpr ?_)
  · obtain ⟨e, he, rfl⟩ := List.mem_map.mp hp
    exact h.exists_text e.1 (List.mem_map_of_mem he)
  · obtain ⟨e, he, rfl⟩ := List.mem_map.mp hp
    obtain ⟨e', he', rfl⟩ := List.mem_map.mp hq
    obtain ⟨s, hs⟩ := h.exists_text e.1 (List.mem_map_of_mem he)
    obtain ⟨s', hs'⟩ := h.exists_text e'.1 (List.mem_map_of_mem he')
    have hkeys : e.1 = e'.1 := by
      rw [hs, hs'] at hcodes ⊢
      exact congrArg Scalar.text (Text.codes_injective hcodes)
    rw [List.inj_on_of_nodup_map h.nodup he he' hkeys]
  · exact Sorting.ordered_mergeSort (fun e : Scalar × Tree => e.1.codes) entries

theorem exists_writeItems {items : List Tree} (level : Nat)
    (h : ∀ t ∈ items, ∃ text, writeAt sortedLine level t = .ok text ∧ Spells t text.toList) :
    ∃ texts, writeItems sortedLine level items = .ok texts ∧
      List.Forall₂ Spells items (texts.map String.toList) := by
  induction items with
  | nil => exact ⟨[], by rw [writeItems], .nil⟩
  | cons t items ih =>
    obtain ⟨text, hwrite, hspells⟩ := h t List.mem_cons_self
    obtain ⟨texts, hwrites, hall⟩ := ih fun u hu => h u (List.mem_cons_of_mem t hu)
    refine ⟨text :: texts, ?_, .cons hspells hall⟩
    rw [writeItems, hwrite, hwrites]
    rfl

theorem exists_writeParts {entries : List (Scalar × Tree)} (level : Nat)
    (hkeys : ∀ e ∈ entries, e.1.IsExact ∧ ∃ key, e.1 = .text key)
    (h : ∀ e ∈ entries, ∃ text, writeAt sortedLine level e.2 = .ok text ∧ Spells e.2 text.toList) :
    ∃ texts, writeParts sortedLine (entries.map fun e => (e.1, writeAt sortedLine level e.2)) = .ok texts ∧
      List.Forall₂ SpellsEntry entries (texts.map String.toList) := by
  induction entries with
  | nil => exact ⟨[], rfl, .nil⟩
  | cons e entries ih =>
    obtain ⟨text, hwrite, hspells⟩ := h e List.mem_cons_self
    obtain ⟨hkey, key, hname⟩ := hkeys e List.mem_cons_self
    obtain ⟨texts, hwrites, hall⟩ := ih (fun e' he' => hkeys e' (List.mem_cons_of_mem e he'))
      fun e' he' => h e' (List.mem_cons_of_mem e he')
    obtain ⟨name, t⟩ := e
    obtain rfl : name = .text key := hname
    refine ⟨(writeText true key ++ ": " ++ text) :: texts, ?_, ?_⟩
    · unfold writeParts at hwrites ⊢
      rw [List.map_cons, List.mapM_cons, hwrites]
      simp only [keyText, hwrite, bind, Except.bind, pure, Except.pure]
      rfl
    · rw [List.map_cons, String.toList_append, String.toList_append, List.append_assoc]
      exact .cons (.member hkey hspells) hall

/-- An exact tree is written as a line that spells it. -/
theorem exists_writeAt (level : Nat) (ht : t.IsExact) :
    ∃ text, writeAt sortedLine level t = .ok text ∧ Spells t text.toList := by
  induction t using Tree.inductionOn generalizing level with
  | scalar a =>
    rw [Tree.IsExact] at ht
    rw [writeAt]
    exact exists_spells_scalar ht
  | list items ih =>
    rw [Tree.IsExact, Tree.areExact_iff] at ht
    obtain ⟨texts, hwrites, hall⟩ := exists_writeItems (level + 1) fun t hmem => ih t hmem (level + 1) (ht t hmem)
    refine ⟨_, by rw [writeAt, hwrites]; rfl, ?_⟩
    rw [toList_enclose]
    exact spells_list hall
  | object entries ih =>
    rw [Tree.IsExact, Tree.entriesAreExact_iff] at ht
    obtain ⟨hkeyed, hexact⟩ := ht
    have hperm := List.mergeSort_perm entries Tree.keyOrder
    have hkeys : ∀ e ∈ entries.mergeSort Tree.keyOrder, e.1.IsExact ∧ ∃ key, e.1 = .text key := fun e he =>
      ⟨(hexact e (hperm.mem_iff.mp he)).1, hkeyed.exists_text e.1 (List.mem_map_of_mem (hperm.mem_iff.mp he))⟩
    obtain ⟨texts, hwrites, hall⟩ := exists_writeParts (level + 1) hkeys
      fun e he => ih e (hperm.mem_iff.mp he) (level + 1) (hexact e (hperm.mem_iff.mp he)).2
    refine ⟨sortedLine.enclose level "\x7b" "\x7d" texts, ?_, ?_⟩
    · rw [writeAt, arrange_writeEntries hkeyed]
      simp only [bind, Except.bind, hwrites]
      rfl
    · rw [toList_enclose]
      exact spells_object hkeyed hall
  | pair | set | enclosing => exact ht.elim

/-- **What has been written is read back** with the entries of every object in the order of their keys. -/
theorem exists_write_and_read (ht : t.IsExact) (hdepth : t.depth ≤ maxDepth) :
    ∃ text, write sortedLine t = .ok text ∧ read text = .ok t.sortKeys := by
  obtain ⟨text, hwrite, hspells⟩ := exists_writeAt 0 ht
  refine ⟨text, hwrite, ?_⟩
  have hread := hspells.reads (2 * text.toList.length + 2) 0 [] (by omega) (by omega) (by simp [Delimited])
  rw [List.append_nil] at hread
  rw [read, hread]
  rfl

end Json

end DeviceApi
