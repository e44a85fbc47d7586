import DeviceApi.Proofs.Document.Entries
import DeviceApi.Proofs.Document.Holds
import DeviceApi.Schema.Optional

/-!
# Shapes without optional keywords

A tree is compared by what is left of it without optional keywords. An object that has the shape of given
fields has these fields under the same names, and besides them optional keywords alone.
-/

namespace DeviceApi

namespace Text

/-- The characters of the text lie in the first plane. So none of them can come from two halves. -/
def Basic (s : String) : Prop := ∀ c ∈ s.toList, c.toNat < 0x10000

instance (s : String) : Decidable (Basic s) :=
  List.decidableBAll (fun c : Char => c.toNat < 0x10000) s.toList

/-- What two halves are joined to lies behind the first plane. -/
theorem le_toNat_joinCodes {first second : Nat} (hfirst : isFirstHalf first = true)
    (hsecond : isSecondHalf second = true) : 0x10000 ≤ (joinCodes first second).toNat := by
  simp only [isFirstHalf, isSecondHalf, Bool.and_eq_true, decide_eq_true_eq] at hfirst hsecond
  have hvalid : Nat.isValidChar (0x10000 + (first - 0xD800) * 0x400 + (second - 0xDC00)) := by
    right
    omega
  have hcode : (joinCodes first second).toNat = 0x10000 + (first - 0xD800) * 0x400 + (second - 0xDC00) := by
    rw [joinCodes, Char.ofNat, dif_pos hvalid]
    rfl
  omega

theorem joinHalves_eq_self {cs : List Char} (h : ∀ c ∈ joinHalves cs, c.toNat < 0x10000) :
    joinHalves cs = cs := by
  induction cs using joinHalves.induct with
  | case1 => rfl
  | case2 c => rfl
  | case3 c d rest hhalves ih =>
    rw [joinHalves, if_pos hhalves] at h
    rw [Bool.and_eq_true] at hhalves
    have hjoined := h _ List.mem_cons_self
    have hbehind := le_toNat_joinCodes hhalves.1 hhalves.2
    omega
  | case4 c d rest hhalves ih =>
    rw [joinHalves, if_neg hhalves] at h ⊢
    rw [ih fun e he => h e (List.mem_cons_of_mem _ he)]

/-- A text in the first plane is only read back from itself. -/
theorem eq_of_joinHalves {s name : String} (hname : Basic name)
    (h : String.ofList (joinHalves s.toList) = name) : s = name := by
  have hlist : joinHalves s.toList = name.toList := by rw [← h, String.toList_ofList]
  refine String.toList_inj.mp ?_
  rw [← hlist, joinHalves_eq_self fun c hc => hname c (hlist ▸ hc)]

end Text

theorem basic_of_mem_optionalKeywords {name : String} (h : name ∈ optionalKeywords) : Text.Basic name := by
  have hall : ∀ name ∈ optionalKeywords, Text.Basic name := by decide
  exact hall name h

/-- A key that is no text is no optional keyword. -/
theorem isOptionalKeyword_iff {key : Scalar} :
    isOptionalKeyword key = true ↔ ∃ name ∈ optionalKeywords, key = .text name := by
  cases key <;> simp [isOptionalKeyword]

/-- Only a text is read back as a text. -/
theorem exists_text_of_reread {a : Scalar} {name : String} (h : reread a = .ok (.text name)) :
    ∃ s, a = .text s ∧ String.ofList (Text.joinHalves s.toList) = name := by
  cases a with
  | text s => exact ⟨s, rfl, by simpa [reread] using h⟩
  | undefined => simp [reread] at h
  | int i =>
    cases htext : Json.keyText (.int i) <;> simp [reread, htext, bind, Except.bind, pure, Except.pure] at h
  | _ => simp [reread, Json.keyText, bind, Except.bind, pure, Except.pure] at h

namespace Tree

variable {t u : Tree} {entries found : Entries Tree} {fields : List (String × Tree)} {name : String}

/-! ## Equal trees -/

theorem sameEntries_iff {others : Entries Tree} :
    sameEntries entries others = true ↔ ∀ e ∈ entries, ∃ w, others.get? e.1 = some w ∧ e.2.same w = true := by
  induction entries with
  | nil => simp [sameEntries]
  | cons e rest ih =>
    rw [sameEntries, Bool.and_eq_true, ih, List.forall_mem_cons]
    cases others.get? e.1 <;> simp

theorem eq_text_of_same (h : t.same (.text name) = true) : t = .text name := by
  cases t with
  | scalar a => exact congrArg Tree.scalar (by simpa only [same, Scalar.sameKey_text] using h)
  | _ => simp [same] at h

theorem exists_object_of_same (h : t.same (.ofFields fields) = true) : ∃ found, t = .object found := by
  cases t with
  | object found => exact ⟨found, rfl⟩
  | _ => simp [same, ofFields] at h

/-- An object that is the same as one of fields has the same names, and the same values under them. -/
theorem same_ofFields (h : (object found).same (.ofFields fields) = true) (hkeyed : found.TextKeyed)
    (hnodup : (fields.map Prod.fst).Nodup) :
    (∀ key ∈ found.keys, ∃ name ∈ fields.map Prod.fst, key = .text name) ∧
      ∀ f ∈ fields, ∃ u, (.text f.1, u) ∈ found ∧ u.same f.2 = true := by
  simp only [ofFields, same, Bool.and_eq_true, beq_iff_eq, List.length_map] at h
  obtain ⟨hlength, hsame⟩ := h
  have hsame := sameEntries_iff.mp hsame
  have hfields : (Entries.keys (fields.map fun f => (Scalar.text f.1, f.2))) = (fields.map Prod.fst).map .text := by
    simp [Entries.keys]
  have hfields_nodup : (Entries.keys (fields.map fun f => (Scalar.text f.1, f.2))).Nodup := by
    rw [hfields]
    exact hnodup.map fun _ _ heq => Scalar.text.inj heq
  have hsub : found.keys ⊆ (fields.map Prod.fst).map .text := by
    intro key hkey
    obtain ⟨e, he, rfl⟩ := List.mem_map.mp hkey
    obtain ⟨w, hget, -⟩ := hsame e he
    obtain ⟨name, hname⟩ := hkeyed.exists_text e.1 hkey
    rw [hname] at hget ⊢
    rw [← hfields]
    exact List.mem_map_of_mem (Entries.mem_of_get? hget)
  refine ⟨fun key hkey => ?_, fun f hf => ?_⟩
  · obtain ⟨name, hname, rfl⟩ := List.mem_map.mp (hsub hkey)
    exact ⟨name, hname, rfl⟩
  · -- Neither object has more keys than the other, so none is missing.
    have hperm : found.keys.Perm ((fields.map Prod.fst).map .text) :=
      (List.subperm_of_subset hkeyed.nodup hsub).perm_of_length_le (by simp [Entries.keys, hlength])
    have hkey : .text f.1 ∈ found.keys :=
      hperm.mem_iff.mpr (List.mem_map_of_mem (List.mem_map_of_mem hf))
    obtain ⟨⟨key, u⟩, he, rfl⟩ := List.mem_map.mp hkey
    obtain ⟨w, hget, hu⟩ := hsame _ he
    have hfield : Entries.get? (.text f.1) (fields.map fun f => (Scalar.text f.1, f.2)) = some f.2 :=
      Entries.get?_of_mem hfields_nodup (List.mem_map.mpr ⟨f, hf, rfl⟩)
    obtain rfl : f.2 = w := by simpa [hfield] using hget
    exact ⟨u, he, hu⟩

/-! ## Without optional keywords -/

theorem withoutOptionalItems_eq (items : List Tree) :
    withoutOptionalItems items = items.mapM withoutOptional := by
  induction items with
  | nil => rfl
  | cons t rest ih =>
    rw [List.mapM_cons, ← ih]
    rfl

/-- The entry that is left of an entry without optional keywords. -/
def withoutOptionalEntry (e : Scalar × Tree) : Except Misfit (Scalar × Tree) := do
  let key ← reread (.text (← Json.keyText e.1))
  return (key, ← withoutOptional e.2)

theorem withoutOptionalEntries_eq (entries : List (Scalar × Tree)) :
    withoutOptionalEntries entries = entries.mapM withoutOptionalEntry := by
  induction entries with
  | nil => rfl
  | cons e rest ih =>
    obtain ⟨key, t⟩ := e
    rw [List.mapM_cons, ← ih, withoutOptionalEntry]
    simp only [bind_assoc, pure_bind]
    rfl

theorem withoutOptional_object (entries : List (Scalar × Tree)) : (object entries).withoutOptional =
    (fun found => object ((Entries.ofPairs found).filter fun e => !isOptionalKeyword e.1)) <$>
      entries.mapM withoutOptionalEntry := by
  rw [← withoutOptionalEntries_eq, map_eq_pure_bind]
  rfl

/-- What is left of an entry has the text of its key, as it is read back, and what is left of its value. -/
theorem withoutOptionalEntry_eq_ok_iff {e b : Scalar × Tree} : withoutOptionalEntry e = .ok b ↔
    ∃ text u, Json.keyText e.1 = .ok text ∧ e.2.withoutOptional = .ok u ∧
      b = (.text (String.ofList (Text.joinHalves text.toList)), u) := by
  unfold withoutOptionalEntry
  cases hkey : Json.keyText e.1 with
  | error m => simp [bind, Except.bind]
  | ok text =>
    cases hvalue : e.2.withoutOptional with
    | error m => simp [reread, bind, Except.bind]
    | ok u => simp [reread, bind, Except.bind, pure, Except.pure, eq_comm]

/-- Only an object is left of an object, and only the text itself of a text in the first plane. -/
theorem exists_object_of_withoutOptional (h : t.withoutOptional = .ok (.object found)) :
    ∃ entries, t = .object entries := by
  cases t with
  | object entries => exact ⟨entries, rfl⟩
  | scalar a =>
    rw [withoutOptional] at h
    cases hread : reread a <;> simp [hread, bind, Except.bind, pure, Except.pure] at h
  | list items =>
    rw [withoutOptional] at h
    cases hitems : withoutOptionalItems items <;> simp [hitems, bind, Except.bind, pure, Except.pure] at h
  | pair key value =>
    rw [withoutOptional] at h
    cases hkey : key.withoutOptional <;> cases hvalue : value.withoutOptional <;>
      simp [hkey, hvalue, bind, Except.bind, pure, Except.pure] at h
  | set | enclosing => simp [withoutOptional] at h

theorem eq_text_of_withoutOptional (hname : Text.Basic name) (h : t.withoutOptional = .ok (.text name)) :
    t = .text name := by
  cases t with
  | scalar a =>
    obtain ⟨b, hread, hb⟩ : ∃ b, reread a = .ok b ∧ b = .text name := by
      rw [withoutOptional] at h
      cases hread : reread a with
      | error m => simp [hread, bind, Except.bind] at h
      | ok b => exact ⟨b, rfl, by simpa [hread, bind, Except.bind, pure, Except.pure] using h⟩
    obtain ⟨s, rfl, heq⟩ := exists_text_of_reread (hb ▸ hread)
    rw [Text.eq_of_joinHalves hname heq]
  | list items =>
    rw [withoutOptional] at h
    cases hitems : withoutOptionalItems items <;> simp [hitems, bind, Except.bind, pure, Except.pure] at h
  | object entries =>
    rw [withoutOptional_object] at h
    cases hfound : entries.mapM withoutOptionalEntry <;> simp [hfound] at h
  | pair key value =>
    rw [withoutOptional] at h
    cases hkey : key.withoutOptional <;> cases hvalue : value.withoutOptional <;>
      simp [hkey, hvalue, bind, Except.bind, pure, Except.pure] at h
  | set | enclosing => simp [withoutOptional] at h

/-- **An object of a shape.** If what is left of an object is the same as an object of fields, then its keys
are the names of the fields and optional keywords, and under each name something stands that the value of
the field is left of. -/
theorem shape_cases (h : (object entries).withoutOptional = .ok t) (hsame : t.same (.ofFields fields) = true)
    (hnodup : (fields.map Prod.fst).Nodup) (hbasic : ∀ f ∈ fields, Text.Basic f.1) :
    (∀ key ∈ entries.keys, ∃ text, Json.keyText key = .ok text ∧
        (text ∈ fields.map Prod.fst ∨ text ∈ optionalKeywords)) ∧
      ∀ f ∈ fields, ∃ e ∈ entries, Json.keyText e.1 = .ok f.1 ∧
        ∃ u, e.2.withoutOptional = .ok u ∧ u.same f.2 = true := by
  rw [withoutOptional_object] at h
  obtain ⟨found, hfound, rfl⟩ : ∃ found, entries.mapM withoutOptionalEntry = .ok found ∧
      .object ((Entries.ofPairs found).filter fun e => !isOptionalKeyword e.1) = t := by
    cases hfound : entries.mapM withoutOptionalEntry with
    | error m => simp [hfound] at h
    | ok found => exact ⟨found, rfl, by simpa [hfound] using h⟩
  have hall := forall₂_of_mapM_eq_ok hfound
  have htexts : ∀ key ∈ Entries.keys found, ∃ t, key = .text t := by
    intro key hkey
    obtain ⟨b, hb, rfl⟩ := List.mem_map.mp hkey
    obtain ⟨e, -, he⟩ := exists_mem_of_forall₂_right hall hb
    obtain ⟨text, u, -, -, rfl⟩ := withoutOptionalEntry_eq_ok_iff.mp he
    exact ⟨_, rfl⟩
  have hkeyed : (Entries.ofPairs found).TextKeyed := .putAll ⟨by simp, by simp⟩ htexts
  obtain ⟨hnames, hfields⟩ := same_ofFields hsame hkeyed.filter hnodup
  refine ⟨fun key hkey => ?_, fun f hf => ?_⟩
  · obtain ⟨e, he, rfl⟩ := List.mem_map.mp hkey
    obtain ⟨b, hb, hleft⟩ := exists_mem_of_forall₂ hall he
    obtain ⟨text, u, htext, -, rfl⟩ := withoutOptionalEntry_eq_ok_iff.mp hleft
    refine ⟨text, htext, ?_⟩
    have hmem : .text (String.ofList (Text.joinHalves text.toList)) ∈ (Entries.ofPairs found).keys :=
      (Entries.mem_keys_putAll_of_text htexts).mpr (.inr (List.mem_map_of_mem hb))
    obtain ⟨b', hb', hkey'⟩ := List.mem_map.mp hmem
    cases hoptional : isOptionalKeyword b'.1 with
    | true =>
      obtain ⟨name, hname, heq⟩ := isOptionalKeyword_iff.mp hoptional
      rw [hkey', Scalar.text.injEq] at heq
      rw [Text.eq_of_joinHalves (basic_of_mem_optionalKeywords hname) heq]
      exact .inr hname
    | false =>
      obtain ⟨name, hname, heq⟩ := hnames b'.1 (List.mem_map_of_mem (List.mem_filter.mpr ⟨hb', by simp [hoptional]⟩))
      rw [hkey', Scalar.text.injEq] at heq
      obtain ⟨f, hf, rfl⟩ := List.mem_map.mp hname
      rw [Text.eq_of_joinHalves (hbasic f hf) heq]
      exact .inl hname
  · obtain ⟨u, hu, hsame'⟩ := hfields f hf
    rcases Entries.mem_or_mem_of_mem_putAll htexts (List.mem_filter.mp hu).1 with hnil | hb
    · cases hnil
    · obtain ⟨e, he, hleft⟩ := exists_mem_of_forall₂_right hall hb
      obtain ⟨text, u', htext, hvalue, heq⟩ := withoutOptionalEntry_eq_ok_iff.mp hleft
      obtain ⟨hkey, rfl⟩ : f.1 = String.ofList (Text.joinHalves text.toList) ∧ u = u' := by simpa using heq
      obtain rfl := Text.eq_of_joinHalves (hbasic f hf) hkey.symm
      exact ⟨e, he, htext, u, hvalue, hsame'⟩

end Tree
end DeviceApi

/-!
## What an object shows

Optional keywords aside, an object often has one key. What has the shape of such an object shows the same name,
and under it something that has the shape of the value there.
-/

namespace DeviceApi

variable {s s' : Store} {v w : Value} {name : String}

namespace Store

/-- Besides optional keywords the value has just one key, which has the name as its text, and something under
it. -/
def Shows (s : Store) (v : Value) (name : String) (w : Value) : Prop :=
  ∃ id entries key, s.shape v = .object id entries ∧ (key, w) ∈ entries ∧ Json.keyText key = .ok name ∧
    ∀ k ∈ entries.keys, ∃ text, Json.keyText k = .ok text ∧ (text = name ∨ text ∈ optionalKeywords)

/-- The tree of the value, down to some depth, has the shape of another one. -/
def HasShape (s : Store) (v : Value) (shape : Tree) : Prop :=
  ∃ depth around t, (s.treeInside depth around v).withoutOptional = .ok t ∧ t.same shape = true

/-- An object has the shape of fields if its keys are their names and optional keywords, and what stands under
the names has the shapes of the fields. -/
theorem HasShape.object {fields : List (String × Tree)} (h : s.HasShape v (.ofFields fields))
    (hnodup : (fields.map Prod.fst).Nodup) (hbasic : ∀ f ∈ fields, Text.Basic f.1) :
    ∃ id entries, s.shape v = .object id entries ∧
      (∀ key ∈ entries.keys, ∃ text, Json.keyText key = .ok text ∧
        (text ∈ fields.map Prod.fst ∨ text ∈ optionalKeywords)) ∧
      ∀ f ∈ fields, ∃ e ∈ entries, Json.keyText e.1 = .ok f.1 ∧ s.HasShape e.2 f.2 := by
  obtain ⟨depth, around, t, ht, hsame⟩ := h
  obtain ⟨found, rfl⟩ := Tree.exists_object_of_same hsame
  obtain ⟨trees, htrees⟩ := Tree.exists_object_of_withoutOptional ht
  obtain ⟨id, entries, around', depth', hshape, rfl⟩ : ∃ id entries around' depth', s.shape v = .object id entries ∧
      trees = entries.map fun e => (e.1, s.treeInside depth' around' e.2) := by
    cases depth with
    | zero => simp [treeInside] at htrees
    | succ depth =>
      rw [treeInside] at htrees
      split at htrees
      · cases htrees
      · cases htrees
      · cases htrees
      · split at htrees <;> cases htrees
      · next id entries hshape =>
        split at htrees
        · cases htrees
        · exact ⟨id, entries, _, _, hshape, (Tree.object.inj htrees).symm⟩
  rw [htrees] at ht
  obtain ⟨hkeys, hfields⟩ := Tree.shape_cases ht hsame hnodup hbasic
  refine ⟨id, entries, hshape, fun key hkey => hkeys key ?_, fun f hf => ?_⟩
  · simpa [Entries.keys, Function.comp_def] using hkey
  · obtain ⟨e, he, hkey, u, hu, hsame'⟩ := hfields f hf
    obtain ⟨e, hmem, rfl⟩ := List.mem_map.mp he
    exact ⟨e, hmem, hkey, depth', around', u, hu, hsame'⟩

theorem HasShape.text (h : s.HasShape v (.text name)) (hname : Text.Basic name) : v = .text name := by
  obtain ⟨depth, around, t, ht, hsame⟩ := h
  obtain rfl := Tree.eq_text_of_same hsame
  have htree := Tree.eq_text_of_withoutOptional hname ht
  cases depth with
  | zero => cases htree
  | succ depth =>
    rw [treeInside] at htree
    split at htree
    · next hshape =>
      obtain rfl := Tree.scalar.inj htree
      have htext : s.isText v name = true := by simp [isText, hshape]
      exact isText_iff.mp htext
    all_goals first | cases htree | (split at htree <;> cases htree)

/-- An object has the shape of one field if it shows its name, and something of its shape under it. -/
theorem HasShape.exists_shows {shape : Tree} (h : s.HasShape v (.ofFields [(name, shape)]))
    (hname : Text.Basic name) : ∃ w, s.Shows v name w ∧ s.HasShape w shape := by
  obtain ⟨id, entries, hshape, hkeys, hfields⟩ := h.object (by simp) (by simpa using hname)
  obtain ⟨⟨key, w⟩, he, hkey, hw⟩ := hfields (name, shape) List.mem_cons_self
  exact ⟨w, ⟨id, entries, key, hshape, he, hkey, fun k hk => by simpa using hkeys k hk⟩, hw⟩

/-- What is shown after something has been put under the name has been put, or was shown before. -/
theorem Shows.of_put {id j : Nat} {entries : Entries Value} {x target : Value} (h : s.Shows w name x)
    (hw : s.shape w = .object j (entries.put (.text name) target)) (hv : s.shape v = .object id entries) :
    s.Shows v name x ∨ x = target ∧ ∀ y, entries.get? (.text name) = some y → s.Shows v name y := by
  obtain ⟨j', others, key, hothers, hx, hkey, hkeys⟩ := h
  obtain rfl : others = entries.put (.text name) target := by
    rw [hw, Shape.object.injEq] at hothers
    exact hothers.2.symm
  have hbefore : ∀ k ∈ entries.keys, ∃ text, Json.keyText k = .ok text ∧ (text = name ∨ text ∈ optionalKeywords) :=
    fun k hk => hkeys k (Entries.mem_keys_put.mpr (.inl hk))
  rcases Entries.mem_put_cases hx with hmem | ⟨-, rfl⟩
  · exact .inl ⟨id, entries, key, hv, hmem, hkey, hbefore⟩
  · exact .inr ⟨rfl, fun y hy => ⟨id, entries, .text name, hv, Entries.mem_of_get? hy, rfl, hbefore⟩⟩

/-- Objects with the same entries show the same. -/
theorem Shows.congr {id id' : Nat} {entries : Entries Value} (h : s.Shows v name w)
    (hv : s.shape v = .object id entries) {v' : Value} (hv' : s'.shape v' = .object id' entries) :
    s'.Shows v' name w := by
  obtain ⟨_, others, key, hothers, hrest⟩ := h
  obtain rfl : entries = others := by
    rw [hv, Shape.object.injEq] at hothers
    exact hothers.2
  exact ⟨id', entries, key, hv', hrest⟩

end Store

end DeviceApi
