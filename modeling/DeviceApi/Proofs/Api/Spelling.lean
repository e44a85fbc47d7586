import DeviceApi.Proofs.Api.Chains
import DeviceApi.Proofs.Api.Plain
import DeviceApi.Proofs.Json.Numbers

/-!
# Spelled pointers

A place of a document is described by the keys and indices on the way to it. Such a path is written as a pointer by
escaping tildes and slashes in every step and by percent-encoding what is left. A pointer that spells a path leads to
the place of the path.
-/

namespace DeviceApi

namespace Pointer

variable {cs text : List Char} {step : String}

/-! ## Steps -/

/-- A text in which a character is replaced by a tilde and a digit. -/
def escape (digit original : Char) (cs : List Char) : List Char :=
  cs.flatMap fun c => if c = original then ['~', digit] else [c]

/-- A key as it is before percent encoding: the tilde is escaped first and then the slash. -/
def escapeKey (key : String) : List Char := escape '1' '/' (escape '0' '~' key.toList)

theorem unescape_tilde (cs : List Char) : unescape '0' '~' (escape '0' '~' cs) = cs := by
  induction cs with
  | nil => rfl
  | cons c cs ih =>
    rw [escape, List.flatMap_cons] at *
    by_cases hc : c = '~'
    · rw [if_pos hc, hc, List.cons_append, List.singleton_append, unescape, if_pos rfl]
      exact congrArg _ ih
    · rw [if_neg hc, List.singleton_append, unescape]
      · exact congrArg _ ih
      · rintro d rest rfl
        exact absurd rfl hc

/-- The slashes are put back and no tilde is, since every tilde is followed by a zero. -/
theorem unescape_slash (cs : List Char) :
    unescape '1' '/' (escape '1' '/' (escape '0' '~' cs)) = escape '0' '~' cs := by
  induction cs with
  | nil => rfl
  | cons c cs ih =>
    unfold escape at ih ⊢
    rw [List.flatMap_cons, List.flatMap_append]
    by_cases htilde : c = '~'
    · subst htilde
      simp only [List.flatMap_cons, List.flatMap_nil, if_true, if_neg (by decide : ¬ '~' = '/'),
        if_neg (by decide : ¬ '0' = '/'), List.cons_append, List.nil_append]
      rw [unescape, if_neg (by decide), unescape]
      · exact congrArg _ (congrArg _ ih)
      · rintro d rest heq
        exact absurd heq (by decide)
    · by_cases hslash : c = '/'
      · subst hslash
        simp only [if_neg htilde, List.flatMap_cons, List.flatMap_nil, if_true, List.cons_append, List.nil_append]
        rw [unescape, if_pos rfl]
        exact congrArg _ ih
      · simp only [if_neg htilde, List.flatMap_cons, List.flatMap_nil, if_neg hslash, List.cons_append, List.nil_append]
        rw [unescape]
        · exact congrArg _ ih
        · rintro d rest rfl
          exact absurd rfl htilde

theorem slash_notMem_escape (cs : List Char) : '/' ∉ escape '1' '/' cs := by
  intro hmem
  obtain ⟨c, -, hc⟩ := List.mem_flatMap.mp hmem
  split at hc
  · exact absurd hc (by decide)
  · next hne => exact hne (List.mem_singleton.mp hc).symm

/-- The text is a percent encoding of the escaped key. -/
def Spells (text : List Char) (key : String) : Prop := Text.PercentEncodes (escapeKey key) text

/-- The spelling of a key with chosen characters percent-encoded. -/
theorem spells_percentEncode (chosen : Char → Bool) (key : String) :
    Spells (Text.percentEncode chosen (escapeKey key)) key := Text.percentEncodes_percentEncode chosen _

/-- A spelled key is read back. -/
theorem Spells.decodeStep_eq (h : Spells text step) : decodeStep text = step := by
  rw [decodeStep, h.percentDecode_eq, escapeKey, unescape_slash, unescape_tilde, String.ofList_toList]

theorem Spells.slash_notMem (h : Spells text step) : '/' ∉ text := by
  intro hmem
  rcases h.mem hmem with hin | heq | halphanum
  · exact slash_notMem_escape _ hin
  · exact absurd heq (by decide)
  · exact absurd halphanum (by decide)

/-! ## Indices -/

theorem isDigit_and_decimalValue? {d : Nat} (h : d < 10) :
    Text.isDigit (Nat.digitChar d) = true ∧ Text.decimalValue? (Nat.digitChar d) = some d := by
  have hall : ∀ d : Fin 10, Text.isDigit (Nat.digitChar d.val) = true ∧
      Text.decimalValue? (Nat.digitChar d.val) = some d.val := by decide +kernel
  exact hall ⟨d, h⟩

/-- The digits of a number have its decimal places as values. -/
theorem exists_decimalValues (n : Nat) : (Nat.toDigits 10 n).all Text.isDigit = true ∧
    ∃ digits, (Nat.toDigits 10 n).mapM Text.decimalValue? = some digits ∧ digits.foldl (fun m d => 10 * m + d) 0 = n := by
  induction n using Nat.strong_induction_on with
  | _ n ih =>
    obtain ⟨hdigit, hvalue⟩ := isDigit_and_decimalValue? (Nat.mod_lt n (by decide : 0 < 10))
    rcases Nat.lt_or_ge n 10 with hlt | hge
    · rw [Nat.mod_eq_of_lt hlt] at hdigit hvalue
      rw [Nat.toDigits_of_lt_base hlt]
      exact ⟨by simpa using hdigit, [n], by simp [hvalue], by simp⟩
    · obtain ⟨hdigits, digits, hvalues, hfold⟩ := ih (n / 10) (by omega)
      rw [Nat.toDigits_of_base_le (by decide) hge]
      refine ⟨by simp [hdigits, hdigit], digits ++ [n % 10], ?_, ?_⟩
      · simp [List.mapM_append, hvalues, hvalue]
      · rw [List.foldl_append, hfold]
        exact Nat.div_add_mod n 10

/-- The decimal numeral of an index is read back, unless it is too long for a numeral. -/
theorem index?_repr {i : Nat} (h : i < 10 ^ maxIndexDigits) : index? (toString i) = some (.ok i) := by
  obtain ⟨hdigits, digits, hvalues, hfold⟩ := exists_decimalValues i
  have hlength : (Nat.toDigits 10 i).length ≤ maxIndexDigits :=
    (Nat.length_toDigits_le_iff (by decide) (by decide)).mpr h
  have hlist : (toString i).toList = Nat.toDigits 10 i := Nat.toList_repr
  unfold index?
  simp only [hlist, hdigits, hvalues, hfold, Bool.not_true, Bool.or_false]
  rw [if_neg (by simp [Nat.toDigits_ne_nil]), if_neg (by omega)]

/-! ## Pointers -/

/-- The pointer whose steps are given texts. -/
def ofTexts (texts : List (List Char)) : String := String.ofList ('#' :: '/' :: ['/'].intercalate texts)

theorem splitAtChar_intercalate {texts : List (List Char)} (hne : texts ≠ []) (h : ∀ text ∈ texts, '/' ∉ text) :
    Text.splitAtChar '/' (['/'].intercalate texts) = texts := by
  induction texts with
  | nil => exact absurd rfl hne
  | cons text rest ih =>
    have htext : '/' ∉ text := h text List.mem_cons_self
    cases rest with
    | nil => rw [List.intercalate_singleton, Text.splitAtChar_of_notMem htext]
    | cons next rest =>
      rw [List.intercalate_cons_cons, List.append_assoc, List.singleton_append, Text.splitAtChar_append htext,
        ih (List.cons_ne_nil _ _) fun t ht => h t (List.mem_cons_of_mem _ ht)]

/-- The steps of a pointer that spells them. -/
theorem steps?_ofTexts {texts : List (List Char)} {steps : List String} (hne : steps ≠ [])
    (h : List.Forall₂ Spells texts steps) : steps? (ofTexts texts) = some steps := by
  have hne' : texts ≠ [] := fun hnil => hne (List.forall₂_nil_left_iff.mp (hnil ▸ h))
  have hslash : ∀ text ∈ texts, '/' ∉ text := by
    intro text htext
    obtain ⟨step, -, hspells⟩ := exists_mem_of_forall₂ h htext
    exact hspells.slash_notMem
  have hsteps : texts.map decodeStep = steps :=
    List.forall₂_eq_eq_eq ▸ List.forall₂_map_left_iff.mpr (h.imp fun _ _ hspells => hspells.decodeStep_eq)
  unfold steps? ofTexts
  simp only [String.toList_ofList]
  rw [splitAtChar_intercalate hne' hslash, hsteps]

end Pointer

/-! ## Paths -/

/-- A step on the way to a place of a document. -/
inductive PathStep where
  | key (name : String)
  | index (i : Nat)
  deriving DecidableEq, Repr

/-- A step as a pointer has it: the key itself, or the index as a decimal numeral. -/
def PathStep.text : PathStep → String
  | .key name => name
  | .index i => toString i

namespace Tree

/-- The tree that a step leads to. -/
def child? : Tree → PathStep → Option Tree
  | .object entries, .key name => Entries.get? (.text name) entries
  | .list items, .index i => items[i]?
  | _, _ => none

/-- The tree at the end of a path. -/
def at? : Tree → List PathStep → Option Tree
  | t, [] => some t
  | t, step :: rest => (t.child? step).bind fun u => u.at? rest

end Tree

namespace Store

variable {s : Store} {v w root : Value} {t u D : Tree} {step : PathStep} {path : List PathStep}

/-- The value that a step leads to. -/
def child? (s : Store) (v : Value) : PathStep → Option Value
  | .key name => s.field? v (.text name)
  | .index i => (s.items? v).bind fun items => items[i]?

/-- The value at the end of a path. -/
def at? (s : Store) : Value → List PathStep → Option Value
  | v, [] => some v
  | v, step :: rest => (s.child? v step).bind fun w => s.at? w rest

theorem isNull_of_child? (h : s.child? v step = some w) : s.isNull v = false := by
  cases hshape : s.shape v with
  | scalar a => cases step <;> simp [child?, field?, entries?, items?, hshape] at h
  | _ => simp [isNull, hshape]

/-- The text of a step leads to the same value as the step. -/
theorem step_text (h : s.child? v step = some w) (hindex : ∀ i, step = .index i → i < 10 ^ Pointer.maxIndexDigits) :
    s.step v step.text = .ok (some w) := by
  cases step with
  | key name =>
    obtain ⟨id, entries, hshape, hget⟩ := field?_eq_some.mp h
    rw [Store.step, hshape, PathStep.text]
    exact congrArg Except.ok hget
  | index i =>
    obtain ⟨items, hitems, hget⟩ := Option.bind_eq_some_iff.mp h
    unfold items? at hitems
    split at hitems
    · next id items' hshape =>
      obtain rfl := Option.some.inj hitems
      rw [Store.step, hshape, PathStep.text]
      dsimp only
      rw [Pointer.index?_repr (hindex i rfl)]
      exact congrArg Except.ok hget
    · cases hitems

/-- The texts of a path lead to the value at its end. -/
theorem follow_texts (h : s.at? v path = some w) (hw : s.isNull w = false)
    (hindex : ∀ i, .index i ∈ path → i < 10 ^ Pointer.maxIndexDigits) :
    s.follow v (path.map PathStep.text) = .ok (some w) := by
  induction path generalizing v with
  | nil =>
    obtain rfl := Option.some.inj h
    rfl
  | cons step rest ih =>
    obtain ⟨u, hstep, hrest⟩ := Option.bind_eq_some_iff.mp h
    have hu : s.isNull u = false := by
      cases rest with
      | nil => exact Option.some.inj hrest ▸ hw
      | cons next rest =>
        obtain ⟨_, hnext, -⟩ := Option.bind_eq_some_iff.mp hrest
        exact isNull_of_child? hnext
    rw [List.map_cons, follow, step_text hstep fun i hi => hindex i (hi ▸ List.mem_cons_self)]
    dsimp only
    rw [if_neg (by simp [hu])]
    exact ih hrest fun i hi => hindex i (List.mem_cons_of_mem _ hi)

/-- What holds a tree has values wherever the tree has trees. -/
theorem Holds.exists_child? (h : s.Holds v t) (hu : t.child? step = some u) : ∃ w, s.child? v step = some w ∧ s.Holds w u := by
  cases t with
  | object entries =>
    cases step with
    | key name =>
      obtain ⟨id, values, hshape, hheld⟩ := h.shape_object
      obtain ⟨w, hw, hholds⟩ := exists_value_of_get? hheld hu
      exact ⟨w, field?_eq_some.mpr ⟨id, values, hshape, hw⟩, hholds⟩
    | index i => cases hu
  | list items =>
    cases step with
    | key name => cases hu
    | index i =>
      obtain ⟨id, values, rfl, hcell, hheld⟩ := holds_list.mp h
      obtain ⟨hi, rfl⟩ := List.getElem?_eq_some_iff.mp hu
      have hi' : i < values.length := hheld.length_eq ▸ hi
      refine ⟨values[i], ?_, hheld.get hi' hi⟩
      simp [child?, items?, shape, hcell, hi']
  | _ => cases step <;> cases hu

theorem Holds.exists_at? (h : s.Holds v t) (hu : t.at? path = some u) : ∃ w, s.at? v path = some w ∧ s.Holds w u := by
  induction path generalizing v t with
  | nil =>
    obtain rfl := Option.some.inj hu
    exact ⟨v, rfl, h⟩
  | cons step rest ih =>
    obtain ⟨t', hstep, hrest⟩ := Option.bind_eq_some_iff.mp hu
    obtain ⟨w', hw', hheld⟩ := h.exists_child? hstep
    obtain ⟨w, hw, hholds⟩ := ih hheld hrest
    exact ⟨w, Option.bind_eq_some_iff.mpr ⟨w', hw', hw⟩, hholds⟩

/-- **A pointer that spells a path leads to its end.** A path of keys and indices in a document ends at something. Every
step is written with its tildes and slashes escaped, and after that with percent signs and any further characters as
octets. The pointer made of these texts resolves to the very value at the end of the path. No list is so long that the
numeral of an index could not be read. -/
theorem resolve_spelled {texts : List (List Char)} (hroot : s.Holds root D) (hpath : path ≠ [])
    (hat : D.at? path = some t) (hnull : t.isNull = false)
    (hindex : ∀ i, .index i ∈ path → i < 10 ^ Pointer.maxIndexDigits)
    (hspells : List.Forall₂ (fun text step => Pointer.Spells text step.text) texts path) :
    ∃ w, s.at? root path = some w ∧ s.resolve root (Pointer.ofTexts texts) = .ok w ∧ s.Holds w t := by
  obtain ⟨w, hw, hholds⟩ := hroot.exists_at? hat
  have hsteps : Pointer.steps? (Pointer.ofTexts texts) = some (path.map PathStep.text) :=
    Pointer.steps?_ofTexts (by simpa using hpath) (List.forall₂_map_right_iff.mpr hspells)
  have hfollow := follow_texts hw (hholds.isNull_eq.trans hnull) hindex
  refine ⟨w, hw, ?_, hholds⟩
  rw [resolve, hsteps]
  dsimp only
  rw [hfollow]

/-- A document whose keys look like escapes. -/
def escapedKeys : Tree :=
  .ofFields [("a/b~1", .list [.int 3, .ofFields [("", .ofFields [("%2541ä", .int 7), ("A", .int 5)])]])]

theorem resolve_spelled_escapedKeys :
    let start := Store.empty.load escapedKeys
    let path : List PathStep := [.key "a/b~1", .index 1, .key "", .key "%2541ä"]
    let chosen : List (Char → Bool) := [fun _ => false, fun _ => true, fun _ => false, fun c => c = 'ä' || c = '5']
    let texts := List.zipWith (fun p (step : PathStep) => Text.percentEncode p (Pointer.escapeKey step.text)) chosen path
    Pointer.ofTexts texts = "#/a~1b~01/%31//%252%3541%c3%a4" ∧ escapedKeys.at? path = some (.int 7) ∧
      (∀ i, .index i ∈ path → i < 10 ^ Pointer.maxIndexDigits) ∧
      List.Forall₂ (fun text (step : PathStep) => Pointer.Spells text step.text) texts path ∧
      ∃ w, start.2.at? start.1 path = some w ∧ start.2.resolve start.1 (Pointer.ofTexts texts) = .ok w ∧
        start.2.Holds w (.int 7) := by
  intro start path chosen texts
  have hroot : start.2.Holds start.1 escapedKeys := holds_load (by decide +kernel) _
  have hat : escapedKeys.at? path = some (.int 7) := rfl
  have hindex : ∀ i, .index i ∈ path → i < 10 ^ Pointer.maxIndexDigits := by
    intro i hi
    obtain rfl : i = 1 := by simpa [path] using hi
    exact Nat.one_lt_pow (by decide) (by decide)
  have hspells : List.Forall₂ (fun text (step : PathStep) => Pointer.Spells text step.text) texts path := by
    simp only [texts, chosen, path, List.zipWith_cons_cons, List.zipWith_nil_left, List.forall₂_cons,
      Pointer.spells_percentEncode, List.Forall₂.nil, and_self]
  exact ⟨by decide +kernel, hat, hindex, hspells,
    resolve_spelled hroot (List.cons_ne_nil _ _) hat rfl hindex hspells⟩

end Store

end DeviceApi
