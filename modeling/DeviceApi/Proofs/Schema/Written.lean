import DeviceApi.Proofs.Document.Frames
import DeviceApi.Proofs.Schema.Optional

/-!
# Trees that can be compared

A tree can be compared if it has a JSON form. Then an object has the shape of given fields as soon as these
fields have their shapes and all other keys are optional keywords.
-/

namespace DeviceApi

namespace Text

/-- No character in the first plane is a half, so there is nothing to join. -/
theorem joinHalves_of_basic {name : String} (h : Basic name) : String.ofList (joinHalves name.toList) = name := by
  refine String.toList_inj.mp ?_
  rw [String.toList_ofList]
  have hfirst : ∀ c ∈ name.toList, isFirstHalf (codeOf c) = false := by
    intro c hc
    have hlt := h c hc
    have hvalid : c.toNat < 0xD800 ∨ 0xDFFF < c.toNat := by
      rcases c.valid with hlow | hhigh
      · exact .inl hlow
      · exact .inr hhigh.1
    have hcode : codeOf c = c.toNat := by
      have hzero : c.toNat - halfShift = 0 := by
        unfold halfShift
        omega
      rw [codeOf, hzero, if_neg (by decide)]
    simp only [hcode, isFirstHalf, Bool.and_eq_false_iff, decide_eq_false_iff_not]
    omega
  revert hfirst
  generalize name.toList = cs
  intro hfirst
  induction cs using joinHalves.induct with
  | case1 => rfl
  | case2 c => rfl
  | case3 c d rest hhalves ih => simp [hfirst c List.mem_cons_self] at hhalves
  | case4 c d rest hhalves ih =>
    rw [joinHalves, if_neg hhalves, ih fun e he => hfirst e (List.mem_cons_of_mem _ he)]

end Text

namespace Tree

variable {t u : Tree} {entries found : Entries Tree} {items : List Tree} {fields : List (String × Tree)}

/-- Something is left of the tree without optional keywords, as it has a JSON form. -/
def HasForm (t : Tree) : Prop := ∃ u, t.withoutOptional = .ok u

instance : DecidablePred HasForm := fun t =>
  decidable_of_iff (t.withoutOptional.toOption.isSome = true) (by
    rw [Option.isSome_iff_exists, HasForm]
    exact exists_congr fun u => by cases t.withoutOptional <;> simp [Except.toOption])

theorem hasForm_text (name : String) : (Tree.text name).HasForm := ⟨_, rfl⟩

theorem exists_mapM_eq_ok {ε α β : Type} {f : α → Except ε β} {as : List α} :
    (∃ bs, as.mapM f = .ok bs) ↔ ∀ a ∈ as, ∃ b, f a = .ok b := by
  constructor
  · rintro ⟨bs, hbs⟩ a ha
    obtain ⟨b, -, hb⟩ := exists_mem_of_forall₂ (forall₂_of_mapM_eq_ok hbs) ha
    exact ⟨b, hb⟩
  · intro h
    induction as with
    | nil => exact ⟨[], rfl⟩
    | cons a as ih =>
      obtain ⟨b, hb⟩ := h a List.mem_cons_self
      obtain ⟨bs, hbs⟩ := ih fun a' ha' => h a' (List.mem_cons_of_mem _ ha')
      exact ⟨b :: bs, mapM_eq_ok_of_forall₂ (.cons hb (forall₂_of_mapM_eq_ok hbs))⟩

theorem hasForm_list : (list items).HasForm ↔ ∀ t ∈ items, t.HasForm := by
  rw [HasForm, withoutOptional, withoutOptionalItems_eq]
  unfold HasForm
  rw [← exists_mapM_eq_ok]
  cases items.mapM withoutOptional <;> simp [bind, Except.bind, pure, Except.pure]

theorem hasForm_object (hkeyed : entries.TextKeyed) : (object entries).HasForm ↔ ∀ e ∈ entries, e.2.HasForm := by
  rw [HasForm, withoutOptional_object]
  have hall : (∃ found, entries.mapM withoutOptionalEntry = .ok found) ↔ ∀ e ∈ entries, e.2.HasForm := by
    rw [exists_mapM_eq_ok]
    refine forall₂_congr fun e he => ?_
    obtain ⟨name, hname⟩ := hkeyed.exists_text e.1 (List.mem_map_of_mem he)
    constructor
    · rintro ⟨b, hb⟩
      obtain ⟨-, u, -, hu, -⟩ := withoutOptionalEntry_eq_ok_iff.mp hb
      exact ⟨u, hu⟩
    · rintro ⟨u, hu⟩
      exact ⟨_, withoutOptionalEntry_eq_ok_iff.mpr ⟨name, u, by rw [hname]; rfl, hu, rfl⟩⟩
  rw [← hall]
  cases entries.mapM withoutOptionalEntry <;> simp

/-- An object is the same as one of fields if it has their names, and the same values under them. -/
theorem ofFields_same (hkeyed : found.TextKeyed) (hnodup : (fields.map Prod.fst).Nodup)
    (hkeys : ∀ key ∈ found.keys, ∃ name ∈ fields.map Prod.fst, key = .text name)
    (hfields : ∀ f ∈ fields, ∃ u, (.text f.1, u) ∈ found ∧ u.same f.2 = true) :
    (object found).same (.ofFields fields) = true := by
  have hnames : ((fields.map Prod.fst).map Scalar.text).Nodup := hnodup.map fun _ _ heq => Scalar.text.inj heq
  have hperm : found.keys.Perm ((fields.map Prod.fst).map Scalar.text) := by
    refine (List.perm_ext_iff_of_nodup hkeyed.nodup hnames).mpr fun key => ⟨fun hkey => ?_, fun hkey => ?_⟩
    · obtain ⟨name, hname, rfl⟩ := hkeys key hkey
      exact List.mem_map_of_mem hname
    · obtain ⟨name, hname, rfl⟩ := List.mem_map.mp hkey
      obtain ⟨f, hf, rfl⟩ := List.mem_map.mp hname
      obtain ⟨u, hu, -⟩ := hfields f hf
      exact List.mem_map_of_mem hu
  have hlength : found.length = fields.length := by simpa [Entries.keys] using hperm.length_eq
  simp only [ofFields, same, Bool.and_eq_true, beq_iff_eq, List.length_map]
  refine ⟨hlength, sameEntries_iff.mpr fun e he => ?_⟩
  obtain ⟨name, hname, hkey⟩ := hkeys e.1 (List.mem_map_of_mem he)
  obtain ⟨f, hf, rfl⟩ := List.mem_map.mp hname
  obtain ⟨u, hu, hsame⟩ := hfields f hf
  obtain rfl : e.2 = u := by
    have hget := Entries.get?_of_mem hkeyed.nodup hu
    have hself := Entries.get?_of_mem hkeyed.nodup (hkey ▸ he : (Scalar.text f.1, e.2) ∈ found)
    exact Option.some.inj (hself.symm.trans hget)
  refine ⟨f.2, hkey ▸ Entries.get?_of_mem ?_ (List.mem_map.mpr ⟨f, hf, rfl⟩), hsame⟩
  simpa [Entries.keys, Function.comp_def] using hnames

/-- The fields of an object give it their shape, if its other keys are optional keywords. -/
theorem exists_shape (hkeyed : entries.TextKeyed) (hform : (object entries).HasForm)
    (hkeys : ∀ key ∈ entries.keys, ∃ name, key = .text name ∧ (name ∈ fields.map Prod.fst ∨ name ∈ optionalKeywords))
    (hfields : ∀ f ∈ fields, ∃ t u, (.text f.1, t) ∈ entries ∧ t.withoutOptional = .ok u ∧ u.same f.2 = true)
    (hnodup : (fields.map Prod.fst).Nodup) (hbasic : ∀ f ∈ fields, Text.Basic f.1)
    (hcounts : ∀ f ∈ fields, f.1 ∉ optionalKeywords) :
    ∃ t, (object entries).withoutOptional = .ok t ∧ t.same (.ofFields fields) = true := by
  obtain ⟨t, ht⟩ := hform
  refine ⟨t, ht, ?_⟩
  rw [withoutOptional_object] at ht
  obtain ⟨found, hfound, rfl⟩ : ∃ found, entries.mapM withoutOptionalEntry = .ok found ∧
      .object ((Entries.ofPairs found).filter fun e => !isOptionalKeyword e.1) = t := by
    cases hfound : entries.mapM withoutOptionalEntry with
    | error m => simp [hfound] at ht
    | ok found => exact ⟨found, rfl, by simpa [hfound] using ht⟩
  -- All keys are in the first plane, so they are read back as they are.
  have hall : List.Forall₂ (fun e b => b.1 = e.1 ∧ e.2.withoutOptional = .ok b.2) entries found := by
    refine forall₂_imp_of_mem (fun e he b _ hb => ?_) (forall₂_of_mapM_eq_ok hfound)
    obtain ⟨text, u, htext, hu, rfl⟩ := withoutOptionalEntry_eq_ok_iff.mp hb
    obtain ⟨name, hname, hcases⟩ := hkeys e.1 (List.mem_map_of_mem he)
    obtain rfl : name = text := by rw [hname] at htext; exact Except.ok.inj htext
    have hplane : Text.Basic name := by
      rcases hcases with hmem | hmem
      · obtain ⟨f, hf, rfl⟩ := List.mem_map.mp hmem
        exact hbasic f hf
      · exact basic_of_mem_optionalKeywords hmem
    refine ⟨?_, hu⟩
    rw [hname, Text.joinHalves_of_basic hplane]
  have hsame : Entries.keys found = entries.keys := by
    clear hkeys hfields hfound hkeyed ht
    induction hall with
    | nil => rfl
    | cons hb _ ih => simp [Entries.keys, hb.1] at ih ⊢; exact ih
  have hfoundKeyed : Entries.TextKeyed found := ⟨hsame ▸ hkeyed.exists_text, hsame ▸ hkeyed.nodup⟩
  have hpairs : Entries.ofPairs found = found := by
    rw [Entries.ofPairs, Entries.putAll_eq_append hfoundKeyed.exists_text (by simpa using hfoundKeyed.nodup),
      List.nil_append]
  rw [hpairs]
  refine ofFields_same hfoundKeyed.filter hnodup (fun key hkey => ?_) fun f hf => ?_
  · obtain ⟨b, hb, rfl⟩ := List.mem_map.mp hkey
    obtain ⟨hmem, hcount⟩ := List.mem_filter.mp hb
    obtain ⟨name, hname, hcases⟩ := hkeys b.1 (hsame ▸ List.mem_map_of_mem hmem)
    refine ⟨name, hcases.resolve_right fun hoptional => ?_, hname⟩
    rw [isOptionalKeyword_iff.mpr ⟨name, hoptional, hname⟩] at hcount
    cases hcount
  · obtain ⟨t, u, ht, hu, hshape⟩ := hfields f hf
    obtain ⟨b, hb, hkey, hleft⟩ := exists_mem_of_forall₂ hall ht
    obtain rfl : u = b.2 := Except.ok.inj (hu.symm.trans hleft)
    have hmem : (Scalar.text f.1, b.2) ∈ found := (show b.1 = Scalar.text f.1 from hkey) ▸ hb
    refine ⟨b.2, List.mem_filter.mpr ⟨hmem, ?_⟩, hshape⟩
    simpa [isOptionalKeyword] using hcounts f hf

end Tree

namespace Store

variable {s s' : Store} {v w : Value} {id : Nat} {entries : Entries Value} {name : String} {shape : Tree}

/-- The value holds a tree as JSON denotes it, and the tree can be compared. -/
def Written (s : Store) (v : Value) : Prop := ∃ t, s.Holds v t ∧ t.IsJson ∧ t.HasForm

/-- The value holds a tree of the shape. -/
def HoldsShape (s : Store) (v : Value) (shape : Tree) : Prop :=
  ∃ t u, s.Holds v t ∧ t.withoutOptional = .ok u ∧ u.same shape = true

theorem Written.grow (h : s.Written v) (hgrows : s.Grows s') : s'.Written v := by
  obtain ⟨t, ht, hrest⟩ := h
  exact ⟨t, ht.extend hgrows, hrest⟩

theorem HoldsShape.grow (h : s.HoldsShape v shape) (hgrows : s.Grows s') : s'.HoldsShape v shape := by
  obtain ⟨t, u, ht, hrest⟩ := h
  exact ⟨t, u, ht.extend hgrows, hrest⟩

theorem written_text (name : String) : s.Written (.text name) :=
  ⟨.text name, holds_scalar.mpr rfl, trivial, Tree.hasForm_text name⟩

theorem written_null : s.Written .null := ⟨.null, holds_scalar.mpr rfl, trivial, _, rfl⟩

theorem written_list {items : List Value} (hcell : s.cells[id]? = some (.list items)) (h : ∀ w ∈ items, s.Written w) :
    s.Written (.node id) := by
  obtain ⟨trees, htrees⟩ : ∃ trees : List Tree,
      List.Forall₂ (fun w t => s.Holds w t ∧ t.IsJson ∧ t.HasForm) items trees := by
    clear hcell
    induction items with
    | nil => exact ⟨[], .nil⟩
    | cons w rest ih =>
      obtain ⟨t, ht⟩ := h w List.mem_cons_self
      obtain ⟨trees, htrees⟩ := ih fun w' hw' => h w' (List.mem_cons_of_mem _ hw')
      exact ⟨t :: trees, .cons ht htrees⟩
  refine ⟨.list trees, holds_list.mpr ⟨id, items, rfl, hcell, htrees.imp fun _ _ h => h.1⟩,
    Tree.areJson_iff.mpr fun t ht => ?_, Tree.hasForm_list.mpr fun t ht => ?_⟩
  · obtain ⟨w, -, -, hjson, -⟩ := exists_mem_of_forall₂_right htrees ht
    exact hjson
  · obtain ⟨w, -, -, -, hform⟩ := exists_mem_of_forall₂_right htrees ht
    exact hform

/-- An object can be compared if its keys are texts that do not repeat, and its values can be compared. -/
theorem written_object (hv : s.shape v = .object id entries) :
    s.Written v ↔ entries.TextKeyed ∧ ∀ e ∈ entries, s.Written e.2 := by
  constructor
  · rintro ⟨t, ht, hjson, hform⟩
    obtain ⟨trees, rfl, htrees⟩ := ht.object_of_shape hv
    have hkeys := keys_eq_of_holds htrees
    obtain ⟨hkeyed, hparts⟩ := hjson
    refine ⟨⟨hkeys ▸ hkeyed.exists_text, hkeys ▸ hkeyed.nodup⟩, fun e he => ?_⟩
    obtain ⟨f, hf, -, hholds⟩ := exists_mem_of_forall₂ htrees he
    exact ⟨f.2, hholds, Tree.entriesAreJson_iff.mp hparts f hf, (Tree.hasForm_object hkeyed).mp hform f hf⟩
  · rintro ⟨hkeyed, hparts⟩
    obtain ⟨rfl, hcell⟩ := shape_eq_object.mp hv
    obtain ⟨trees, htrees⟩ : ∃ trees : List (Scalar × Tree),
        List.Forall₂ (fun e f => s.HoldsEntry e f ∧ f.2.IsJson ∧ f.2.HasForm) entries trees := by
      clear hcell hkeyed hv
      induction entries with
      | nil => exact ⟨[], .nil⟩
      | cons e rest ih =>
        obtain ⟨t, ht, hrest⟩ := hparts e List.mem_cons_self
        obtain ⟨trees, htrees⟩ := ih fun e' he' => hparts e' (List.mem_cons_of_mem _ he')
        exact ⟨(e.1, t) :: trees, .cons ⟨⟨rfl, ht⟩, hrest⟩ htrees⟩
    have hheld := htrees.imp fun _ _ h => h.1
    have hkeys := keys_eq_of_holds hheld
    have hkeyed' : Entries.TextKeyed trees := ⟨hkeys ▸ hkeyed.exists_text, hkeys ▸ hkeyed.nodup⟩
    refine ⟨.object trees, holds_object.mpr ⟨id, entries, rfl, hcell, hheld⟩,
      ⟨hkeyed', Tree.entriesAreJson_iff.mpr fun f hf => ?_⟩, (Tree.hasForm_object hkeyed').mpr fun f hf => ?_⟩
    · obtain ⟨e, -, -, hjson, -⟩ := exists_mem_of_forall₂_right htrees hf
      exact hjson
    · obtain ⟨e, -, -, -, hform⟩ := exists_mem_of_forall₂_right htrees hf
      exact hform

/-- An object that can be compared has the shape of fields if it has their names, something of their shapes under
these, and optional keywords beside them. -/
theorem Written.holdsShape {fields : List (String × Tree)} (hv : s.Written v) (hshape : s.shape v = .object id entries)
    (hkeys : ∀ key ∈ entries.keys, ∃ name, key = .text name ∧ (name ∈ fields.map Prod.fst ∨ name ∈ optionalKeywords))
    (hfields : ∀ f ∈ fields, ∃ w, (.text f.1, w) ∈ entries ∧ s.HoldsShape w f.2)
    (hnodup : (fields.map Prod.fst).Nodup) (hbasic : ∀ f ∈ fields, Text.Basic f.1)
    (hcounts : ∀ f ∈ fields, f.1 ∉ optionalKeywords) : s.HoldsShape v (.ofFields fields) := by
  obtain ⟨t, ht, ⟨hjson, hform⟩⟩ := hv
  obtain ⟨trees, rfl, htrees⟩ := ht.object_of_shape hshape
  have hsame := keys_eq_of_holds htrees
  obtain ⟨left, hleft, hshape⟩ := Tree.exists_shape hjson.1 hform (hsame ▸ hkeys) (fun f hf => by
    obtain ⟨w, hw, t', u, ht', hu, hsameShape⟩ := hfields f hf
    obtain ⟨e, he, hkey, hholds⟩ := exists_mem_of_forall₂ htrees hw
    obtain rfl := hholds.unique ht'
    exact ⟨e.2, u, (show Scalar.text f.1 = e.1 from hkey) ▸ he, hu, hsameShape⟩) hnodup hbasic hcounts
  exact ⟨_, left, ht, hleft, hshape⟩

/-- What can be compared has the shape of one field if it shows the name and something of that shape. -/
theorem Shows.holdsShape (h : s.Shows v name w) (hv : s.Written v) (hw : s.HoldsShape w shape)
    (hname : Text.Basic name) (hcounts : name ∉ optionalKeywords) : s.HoldsShape v (.ofFields [(name, shape)]) := by
  obtain ⟨id, entries, key, hshape, he, hkey, hkeys⟩ := h
  obtain ⟨hkeyed, -⟩ := (written_object hshape).mp hv
  have htext : ∀ {k : Scalar} {text : String}, k ∈ entries.keys → Json.keyText k = .ok text → k = .text text := by
    intro k text hk htext
    obtain ⟨name', rfl⟩ := hkeyed.exists_text k hk
    exact congrArg Scalar.text (Except.ok.inj htext)
  obtain rfl : key = .text name := htext (List.mem_map_of_mem he) hkey
  refine hv.holdsShape hshape (fun k hk => ?_) (fun f hf => ?_) (by simp) (by simpa using hname) (by simpa using hcounts)
  · obtain ⟨text, hkey, hcases⟩ := hkeys k hk
    exact ⟨text, htext hk hkey, by simpa using hcases⟩
  · obtain rfl := List.mem_singleton.mp hf
    exact ⟨w, he, hw⟩

theorem holdsShape_string : s.HoldsShape (.text "string") (.text "string") :=
  ⟨.text "string", _, holds_scalar.mpr rfl, rfl, by decide⟩

end Store

end DeviceApi
