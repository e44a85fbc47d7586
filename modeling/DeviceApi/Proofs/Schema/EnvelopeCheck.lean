import DeviceApi.Proofs.Document.Effects
import DeviceApi.Proofs.Document.Sorting
import DeviceApi.Proofs.Schema.Envelope
import DeviceApi.Proofs.Schema.Written

/-!
# The check of the envelope

A schema is first checked, which changes nothing, and then written to. The check lets a schema pass just if its
properties declare all fields of the envelope; otherwise it names the fields that are missing or of another shape.
-/

namespace DeviceApi

/-! ## Trees pruned of optional keywords

What two schemas are compared by goes through their JSON form. For the flat shapes of an envelope that
form does not matter: a tree has such a shape if the tree itself does, once the optional keywords are deleted
at every depth.
-/

namespace Tree

variable {t u : Tree} {entries : Entries Tree} {fields : List (String × String)}

mutual

/-- The tree with all optional keywords deleted, at every depth. -/
def pruned : Tree → Tree
  | .list items => .list (prunedItems items)
  | .pair key value => .pair (pruned key) (pruned value)
  | .object entries => .object (prunedEntries entries)
  | t => t

/-- The items of a list with all optional keywords deleted in them. -/
def prunedItems : List Tree → List Tree
  | [] => []
  | item :: rest => pruned item :: prunedItems rest

/-- The entries of an object but for optional keywords, which are deleted in their values as well. -/
def prunedEntries : List (Scalar × Tree) → List (Scalar × Tree)
  | [] => []
  | (key, value) :: rest =>
    if isOptionalKeyword key then prunedEntries rest else (key, pruned value) :: prunedEntries rest

end

theorem mem_prunedEntries {e : Scalar × Tree} :
    e ∈ prunedEntries entries ↔ ∃ t, (e.1, t) ∈ entries ∧ isOptionalKeyword e.1 = false ∧ e.2 = t.pruned := by
  induction entries with
  | nil => simp [prunedEntries]
  | cons entry rest ih =>
    obtain ⟨key, t⟩ := entry
    obtain ⟨key', u⟩ := e
    rw [prunedEntries]
    split <;> grind

theorem keys_prunedEntries (entries : Entries Tree) : Entries.keys (prunedEntries entries) =
    entries.keys.filter fun key => !isOptionalKeyword key := by
  induction entries with
  | nil => rfl
  | cons entry rest ih =>
    obtain ⟨key, t⟩ := entry
    rw [prunedEntries]
    split <;> simp_all [Entries.keys]

theorem textKeyed_prunedEntries (h : entries.TextKeyed) : Entries.TextKeyed (prunedEntries entries) where
  exists_text key hkey := by
    rw [keys_prunedEntries] at hkey
    exact h.exists_text key (List.mem_filter.mp hkey).1
  nodup := by
    rw [keys_prunedEntries]
    exact h.nodup.filter _

theorem eq_text_of_pruned {name : String} (h : t.pruned = .text name) : t = .text name := by
  cases t <;> simp_all [pruned]

/-- An object of texts. -/
def ofTextFields (fields : List (String × String)) : Tree :=
  .ofFields (fields.map fun f => (f.1, .text f.2))

theorem exists_object_of_pruned (h : t.pruned.same (ofTextFields fields) = true) :
    ∃ entries, t = .object entries := by
  obtain ⟨found, hfound⟩ := exists_object_of_same h
  cases t with
  | object entries => exact ⟨entries, rfl⟩
  | _ => simp [pruned] at hfound

/-- The names of a flat shape do not repeat, all its texts are in the first plane, and none of its names is an
optional keyword. -/
structure IsFlatShape (fields : List (String × String)) : Prop where
  nodup : (fields.map Prod.fst).Nodup
  basic : ∀ f ∈ fields, Text.Basic f.1 ∧ Text.Basic f.2
  counts : ∀ f ∈ fields, f.1 ∉ optionalKeywords

/-- **Comparing flat shapes.** The JSON form of a tree without optional keywords has a flat shape just if the tree
has it after these keywords are deleted. -/
theorem exists_withoutOptional_iff (hjson : t.IsJson) (hform : t.HasForm) (hflat : IsFlatShape fields) :
    (∃ u, t.withoutOptional = .ok u ∧ u.same (ofTextFields fields) = true) ↔
      t.pruned.same (ofTextFields fields) = true := by
  have hnames : (fields.map fun f => (f.1, Tree.text f.2)).map Prod.fst = fields.map Prod.fst := by simp
  have hnodup : ((fields.map fun f => (f.1, Tree.text f.2)).map Prod.fst).Nodup := hnames ▸ hflat.nodup
  have hbasic : ∀ f ∈ fields.map fun f => (f.1, Tree.text f.2), Text.Basic f.1 := by
    rintro _ hf
    obtain ⟨f, hfield, rfl⟩ := List.mem_map.mp hf
    exact (hflat.basic f hfield).1
  constructor
  · rintro ⟨u, hu, hsame⟩
    obtain ⟨found, rfl⟩ := exists_object_of_same hsame
    obtain ⟨entries, rfl⟩ := exists_object_of_withoutOptional hu
    obtain ⟨hkeyed, -⟩ := hjson
    obtain ⟨hkeys, hfields⟩ := shape_cases hu hsame hnodup hbasic
    have hkey : ∀ {key : Scalar} {text : String}, key ∈ Entries.keys entries → Json.keyText key = .ok text →
        key = .text text := by
      intro key text hmem htext
      obtain ⟨name, rfl⟩ := hkeyed.exists_text key hmem
      exact congrArg Scalar.text (Except.ok.inj htext)
    refine ofFields_same (textKeyed_prunedEntries hkeyed) hnodup (fun key hmem => ?_) fun f hf => ?_
    · rw [keys_prunedEntries, List.mem_filter] at hmem
      obtain ⟨text, htext, hcases⟩ := hkeys key hmem.1
      obtain rfl := hkey hmem.1 htext
      refine ⟨text, hcases.resolve_right fun hoptional => ?_, rfl⟩
      simp [isOptionalKeyword, hoptional] at hmem
    · obtain ⟨⟨name, value⟩, hfield, rfl⟩ := List.mem_map.mp hf
      obtain ⟨e, he, htext, w, hw, hwsame⟩ := hfields _ hf
      obtain rfl := eq_text_of_same hwsame
      have hvalue : e.2 = .text value := eq_text_of_withoutOptional (hflat.basic _ hfield).2 hw
      have hmem : (Scalar.text name, Tree.text value) ∈ entries := by
        rw [← hkey (List.mem_map_of_mem he) htext, ← hvalue]
        exact he
      refine ⟨.text value, mem_prunedEntries.mpr ⟨.text value, hmem, ?_, rfl⟩, by simp [same]⟩
      simpa [isOptionalKeyword] using hflat.counts _ hfield
  · intro hsame
    obtain ⟨entries, rfl⟩ := exists_object_of_pruned hsame
    obtain ⟨hkeyed, -⟩ := hjson
    rw [pruned] at hsame
    obtain ⟨hkeys, hfields⟩ := same_ofFields hsame (textKeyed_prunedEntries hkeyed) hnodup
    refine exists_shape hkeyed hform (fun key hkey => ?_) (fun f hf => ?_) hnodup hbasic ?_
    · obtain ⟨name, rfl⟩ := hkeyed.exists_text key hkey
      refine ⟨name, rfl, ?_⟩
      by_cases hoptional : name ∈ optionalKeywords
      · exact .inr hoptional
      · obtain ⟨name', hname', heq⟩ := hkeys (.text name) (by
          rw [keys_prunedEntries, List.mem_filter]
          exact ⟨hkey, by simpa [isOptionalKeyword] using hoptional⟩)
        exact .inl (Scalar.text.inj heq ▸ hname')
    · obtain ⟨⟨name, value⟩, hfield, rfl⟩ := List.mem_map.mp hf
      obtain ⟨w, hw, hwsame⟩ := hfields _ hf
      obtain ⟨t, ht, -, hpruned⟩ := mem_prunedEntries.mp hw
      have hvalue : t.pruned = .text value := hpruned ▸ eq_text_of_same hwsame
      obtain rfl := eq_text_of_pruned hvalue
      have hread : (Tree.text value).withoutOptional = .ok (.text value) := by
        simp only [withoutOptional, reread, Text.joinHalves_of_basic (hflat.basic _ hfield).2]
        rfl
      exact ⟨.text value, .text value, ht, hread, by simp [same]⟩
    · rintro _ hf
      obtain ⟨f, hfield, rfl⟩ := List.mem_map.mp hf
      exact hflat.counts f hfield

end Tree

namespace Edit

variable {s : Store}

theorem onlyReads_roleOf (v : Value) : OnlyReads (roleOf v) := by
  refine (onlyReads_fieldOf v _).bind fun tag => (onlyReads_look tag).bind fun shape => ?_
  split
  · exact onlyReads_pure _
  · split
    · exact onlyReads_pure _
    · exact onlyReads_refuse _
  · exact (onlyReads_shownTree tag).bind fun _ => onlyReads_refuse _

theorem onlyReads_envelopeMismatches (properties : Entries Value) (fields : List (String × Tree)) :
    OnlyReads (envelopeMismatches properties fields) := by
  induction fields with
  | nil => exact onlyReads_pure _
  | cons field rest ih =>
    exact (onlyReads_treeOf _).bind fun _ => (onlyReads_ofExcept _).bind fun _ => ih.bind fun _ => onlyReads_pure _

/-- The role and the properties of a schema that has a checked envelope. -/
def checkEnvelope (name : Scalar) (schema : Value) : Edit (Option (Role × Entries Value)) := do
  match ← roleOf schema with
  | none => return none
  | some role =>
    if role.envelope.isEmpty then return none
    else
      let properties ← optionalEntries (← fieldOf schema "properties")
      let mismatches ← envelopeMismatches properties role.envelope
      if !mismatches.isEmpty then refuse (.envelope role (← textOf name) (Text.sorted mismatches))
      else return some (role, properties)

theorem onlyReads_checkEnvelope (name : Scalar) (schema : Value) : OnlyReads (checkEnvelope name schema) := by
  refine (onlyReads_roleOf schema).bind fun found => ?_
  split
  · exact onlyReads_pure _
  · split
    · exact onlyReads_pure _
    · refine (onlyReads_fieldOf _ _).bind fun _ => (onlyReads_optionalEntries _).bind fun _ =>
        (onlyReads_envelopeMismatches _ _).bind fun _ => ?_
      split
      · exact (onlyReads_textOf name).bind fun _ => onlyReads_refuse _
      · exact onlyReads_pure _


/-- Takes the fields of the envelope out of the required names. -/
def trimRequired (role : Role) (schema : Value) : Edit Unit := do
  match (← entriesOf schema).get? "required" with
  | none => return
  | some required =>
    let names ← requiredBeyondEnvelope role required
    if names.isEmpty then removeField schema "required"
    else putField schema "required" (← newList names)

/-- Gives a schema the properties without the envelope. -/
def trimProperties (role : Role) (schema : Value) (properties : Entries Value) : Edit Unit := do
  putField schema "properties" (← newObject (keptProperties role properties))

/-- Writes to a schema that has been checked. -/
def trimEnvelope (schema : Value) : Option (Role × Entries Value) → Edit Unit
  | none => return
  | some (role, properties) => do
    trimProperties role schema properties
    trimRequired role schema

theorem stripEnvelope_eq (name : Scalar) (schema : Value) :
    stripEnvelope name schema = checkEnvelope name schema >>= trimEnvelope schema := by
  simp only [stripEnvelope, checkEnvelope, bind_assoc]
  refine bind_congr fun found => ?_
  cases found with
  | none => simp only [pure_bind, trimEnvelope]
  | some role =>
    dsimp only
    split
    · simp only [pure_bind, trimEnvelope]
    · simp only [bind_assoc]
      refine bind_congr fun _ => bind_congr fun _ => bind_congr fun mismatches => ?_
      split
      · rw [bind_assoc]
        exact bind_congr fun _ => rfl
      · rw [pure_bind]
        exact (bind_assoc _ _ _).symm

/-- A failing edit that starts with a check has failed in the check or after it. -/
theorem runOn_stripEnvelope_of_check {name : Scalar} {schema : Value} {found : Option (Role × Entries Value)}
    (h : Runs (checkEnvelope name schema) s found s) :
    (stripEnvelope name schema).runOn s = (trimEnvelope schema found).runOn s := by
  rw [stripEnvelope_eq, h.runOn_bind]

end Edit

/-! ## What the check compares -/

namespace Tree

variable {F P : Entries Tree}

/-- The properties of a schema. Where there are none, or nothing is there, they are empty. -/
def PropertiesOf (F P : Entries Tree) : Prop :=
  F.get? "properties" = some (.object P) ∨ (F.get? "properties").getD .null = .null ∧ P = []

/-- Properties declare a field if something of its shape is there, but for optional keywords. -/
def Declares (P : Entries Tree) (field : String × Tree) : Prop :=
  ∃ t, P.get? field.1 = some t ∧ t.pruned.same field.2 = true

instance (P : Entries Tree) : DecidablePred (Declares P) := fun field =>
  match h : P.get? field.1 with
  | none => .isFalse fun ⟨_, ht, _⟩ => by simp [h] at ht
  | some t => decidable_of_iff (t.pruned.same field.2 = true) (by simp [Declares, h])

theorem envelope_ne_nil {role : Role} (h : role ≠ .path) : role.envelope ≠ [] := by
  cases role with
  | path => exact absurd rfl h
  | request | response => simp [Role.envelope]

theorem exists_isFlatShape {role : Role} {field : String × Tree} (h : field ∈ role.envelope) :
    ∃ texts, field.2 = ofTextFields texts ∧ IsFlatShape texts := by
  have hinteger : ∀ format ∈ ["uint32", "int32"],
      ∃ texts, integerShape format = ofTextFields texts ∧ IsFlatShape texts := by
    intro format hformat
    refine ⟨[("type", "integer"), ("format", format)], rfl, by simp, ?_, by simp [optionalKeywords]⟩
    rcases List.mem_pair.mp hformat with rfl | rfl <;> decide
  have htext : ∃ texts, textShape = ofTextFields texts ∧ IsFlatShape texts :=
    ⟨[("type", "string")], rfl, by simp, by decide, by decide⟩
  cases role with
  | path => cases h
  | request =>
    simp only [Role.envelope, List.mem_cons, List.not_mem_nil, or_false] at h
    rcases h with rfl | rfl <;> exact hinteger "uint32" (by simp)
  | response =>
    simp only [Role.envelope, List.mem_cons, List.not_mem_nil, or_false] at h
    rcases h with rfl | rfl | rfl | rfl
    · exact hinteger "uint32" (by simp)
    · exact hinteger "uint32" (by simp)
    · exact hinteger "int32" (by simp)
    · exact htext

/-- The names of the fields that properties do not declare. -/
def undeclared (P : Entries Tree) (fields : List (String × Tree)) : List String :=
  (fields.filter fun field => ¬ Declares P field).map Prod.fst

theorem undeclared_eq_nil {fields : List (String × Tree)} :
    undeclared P fields = [] ↔ ∀ field ∈ fields, Declares P field := by
  simp [undeclared, List.filter_eq_nil_iff]

end Tree

namespace Edit

open Tree

variable {s s' : Store} {F P : Entries Tree} {properties : Entries Value} {role : Role}
  {fields : List (String × Tree)} {id : Nat} {name : Scalar}

/-- The fields of an envelope that are not found are the undeclared ones, if what stands in their places can be
compared at all. -/
theorem runs_envelopeMismatches_undeclared (hheld : List.Forall₂ s.HoldsEntry properties P)
    (hjson : ∀ e ∈ P, e.2.IsJson) (hfields : ∀ field ∈ fields, ∃ texts, field.2 = ofTextFields texts ∧ IsFlatShape texts)
    (hform : ∀ field ∈ fields, ∀ t, P.get? field.1 = some t → t.HasForm) :
    Runs (envelopeMismatches properties fields) s (undeclared P fields) s := by
  induction fields with
  | nil => exact runs_pure.mpr ⟨rfl, rfl⟩
  | cons field rest ih =>
    have hrest := ih (fun f hf => hfields f (List.mem_cons_of_mem _ hf)) fun f hf => hform f (List.mem_cons_of_mem _ hf)
    obtain ⟨texts, hshape, hflat⟩ := hfields field List.mem_cons_self
    -- The value under the name holds a tree, and that tree is compared.
    obtain ⟨t, u, ht, hu, hsame⟩ : ∃ t u, s.tree ((properties.get? field.1).getD .null) = t ∧
        t.withoutOptional = .ok u ∧ (u.same field.2 = true ↔ Declares P field) := by
      rcases Store.get?_of_holds (.text field.1) hheld with ⟨hnone, hnone'⟩ | ⟨w, t, hw, ht, hwt⟩
      · refine ⟨.null, .null, by rw [hnone]; exact (Store.holds_scalar.mpr rfl : s.Holds .null .null).tree_eq, rfl, ?_⟩
        simp [Declares, hnone', hshape, ofTextFields, ofFields, same]
      · obtain ⟨u, hu⟩ := hform field List.mem_cons_self t ht
        obtain ⟨e, he⟩ := Entries.exists_mem_of_get? ht
        have hiff := exists_withoutOptional_iff (hjson _ he) ⟨u, hu⟩ hflat
        refine ⟨t, u, by rw [hw]; exact hwt.tree_eq, hu, ?_⟩
        simp only [Declares, ht, Option.some.injEq, exists_eq_left', hshape, ← hiff, hu, Except.ok.injEq]
    rw [envelopeMismatches, runs_bind]
    refine ⟨t, s, runs_treeOf.mpr ⟨ht, rfl⟩, ?_⟩
    rw [(runs_ofExcept.mpr ⟨hu, rfl⟩ : Runs (ofExcept t.withoutOptional) s u s).bind_iff, hrest.bind_iff, runs_pure]
    by_cases hdeclares : Declares P field
    · simp [undeclared, hdeclares, hsame.mpr hdeclares]
    · have hnot : u.same field.2 = false := by simpa using fun h => hdeclares (hsame.mp h)
      simp [undeclared, hdeclares, hnot]

/-- Envelopes are only gone through if what stands in the places of their fields can be compared. -/
theorem hasForm_of_runs_envelopeMismatches {names : List String}
    (hheld : List.Forall₂ s.HoldsEntry properties P) (h : Runs (envelopeMismatches properties fields) s names s') :
    ∀ field ∈ fields, ∀ t, P.get? field.1 = some t → t.HasForm := by
  induction fields generalizing names with
  | nil => simp
  | cons field rest ih =>
    simp only [envelopeMismatches, runs_bind, runs_treeOf, runs_ofExcept, runs_pure] at h
    obtain ⟨_, _, ⟨rfl, rfl⟩, u, _, ⟨hu, rfl⟩, more, _, hrest, -, rfl⟩ := h
    refine List.forall_mem_cons.mpr ⟨fun t ht => ?_, ih hrest⟩
    obtain ⟨w, hw, hwt⟩ := Store.exists_value_of_get? hheld ht
    rw [hw, Option.getD_some, hwt.tree_eq] at hu
    exact ⟨u, hu⟩

/-- What a schema declares as its properties is found, and the schema is no part of it. -/
theorem exists_runs_declaredProperties (hheld : s.Holds (.node id) (.object F)) (hP : PropertiesOf F P) :
    ∃ v properties, Runs (fieldOf (.node id) "properties") s v s ∧ Runs (optionalEntries v) s properties s ∧
      List.Forall₂ s.HoldsEntry properties P ∧ ∀ e ∈ properties, ¬ s.Reaches e.2 id := by
  obtain ⟨v, hread, hvt, hnot⟩ := exists_runs_fieldOf hheld "properties"
  rcases hP with hobject | ⟨hnull, rfl⟩
  · rw [hobject, Option.getD_some] at hvt
    obtain ⟨pid, properties, rfl, hcell, hproperties⟩ := Store.holds_object.mp hvt
    refine ⟨_, properties, hread, ?_, hproperties, fun e he hreach => hnot (.part hcell (List.mem_map_of_mem he) hreach)⟩
    rw [runs_optionalEntries, Store.isTruthy, Store.shape_node hcell]
    cases properties <;> simp
  · obtain rfl : v = .null := Store.holds_scalar.mp (hnull ▸ hvt)
    refine ⟨_, [], hread, ?_, .nil, by simp⟩
    rw [runs_optionalEntries]
    exact ⟨by simp [Store.isTruthy, Store.shape, Scalar.isTruthy], rfl⟩

theorem ofText?_text (role : Role) : Role.ofText? role.text = some role := by cases role <;> rfl

theorem runs_roleOf_some (hheld : s.Holds (.node id) (.object F)) (htag : F.get? roleKey = some (.text role.text)) :
    Runs (roleOf (.node id)) s (some role) s := by
  obtain ⟨v, hread, hvt, -⟩ := exists_runs_fieldOf hheld roleKey
  rw [htag, Option.getD_some] at hvt
  obtain rfl := Store.holds_scalar.mp hvt
  rw [roleOf, hread.bind_iff]
  refine runs_bind.mpr ⟨.scalar (.text role.text), s, runs_look.mpr ⟨rfl, rfl⟩, ?_⟩
  simp only [ofText?_text]
  exact runs_pure.mpr ⟨rfl, rfl⟩

/-- The schema of a request or a response passes the check if all fields of the envelope are declared; otherwise the
others are named. -/
theorem runOn_checkEnvelope (name : Scalar) (hheld : s.Holds (.node id) (.object F)) (hjson : (Tree.object F).IsJson)
    (htag : F.get? roleKey = some (.text role.text)) (hrole : role ≠ .path) (hP : PropertiesOf F P)
    (hform : ∀ field ∈ role.envelope, ∀ t, P.get? field.1 = some t → t.HasForm) :
    ∃ properties, List.Forall₂ s.HoldsEntry properties P ∧ (∀ e ∈ properties, ¬ s.Reaches e.2 id) ∧
      (checkEnvelope name (.node id)).runOn s =
        if undeclared P role.envelope = [] then (.ok (some (role, properties)), s)
        else ((textOf name >>= fun text =>
          refuse (.envelope role text (Text.sorted (undeclared P role.envelope)))).runOn s) := by
  obtain ⟨v, properties, hfield, hoptional, hproperties, hapart⟩ := exists_runs_declaredProperties hheld hP
  refine ⟨properties, hproperties, hapart, ?_⟩
  have hPjson : ∀ e ∈ P, e.2.IsJson := by
    rcases hP with hobject | ⟨-, rfl⟩
    · have hparts := Tree.entriesAreJson_iff.mp hjson.2 _ (Entries.mem_of_get? hobject)
      exact Tree.entriesAreJson_iff.mp hparts.2
    · simp
  have hmismatches := runs_envelopeMismatches_undeclared hproperties hPjson (fun _ => exists_isFlatShape) hform
  have hempty : ¬ role.envelope.isEmpty := by simpa using envelope_ne_nil hrole
  simp only [checkEnvelope, (runs_roleOf_some hheld htag).runOn_bind, if_neg hempty, hfield.runOn_bind,
    hoptional.runOn_bind, hmismatches.runOn_bind]
  by_cases hnil : undeclared P role.envelope = []
  · rw [hnil]
    rfl
  · have hnot : (!(undeclared P role.envelope).isEmpty) = true := by simpa using hnil
    rw [if_pos hnot, if_neg hnil]

/-- A schema that has passed the check has a role with an envelope and declares all fields of it. -/
theorem exists_properties_of_checkEnvelope (hheld : s.Holds (.node id) (.object F)) (hjson : (Tree.object F).IsJson)
    (h : Runs (checkEnvelope name (.node id)) s (some (role, properties)) s') :
    ∃ P : Entries Tree, F.get? roleKey = some (.text role.text) ∧ role ≠ .path ∧
      F.get? "properties" = some (.object P) ∧ (∀ field ∈ role.envelope, Declares P field) ∧
      ∀ field ∈ role.envelope, ∀ t, P.get? field.1 = some t → t.HasForm := by
  obtain ⟨found, t, hrole, h₁⟩ := runs_bind.mp h
  obtain ⟨rfl, id', values, hshape, hfound⟩ := runs_roleOf hrole
  obtain ⟨trees, heq, hentries⟩ := hheld.object_of_shape hshape
  obtain rfl := Tree.object.inj heq
  rcases hfound with ⟨rfl, -⟩ | ⟨found, rfl, htag⟩
  · cases (runs_pure.mp h₁).1
  · dsimp only at h₁
    split at h₁
    · cases (runs_pure.mp h₁).1
    · next hempty =>
      obtain ⟨v, hread, hvt, hnot⟩ := exists_runs_fieldOf hheld "properties"
      rw [hread.bind_iff] at h₁
      obtain ⟨properties', t, hoptional, h₂⟩ := runs_bind.mp h₁
      obtain ⟨hdeclared, rfl⟩ := runs_optionalEntries.mp hoptional
      obtain ⟨mismatches, t, hmismatches, h₃⟩ := runs_bind.mp h₂
      obtain rfl := runs_envelopeMismatches hmismatches
      split at h₃
      · simp only [runs_bind, not_runs_refuse, and_false, exists_false] at h₃
      · next hnone =>
        obtain rfl : mismatches = [] := by simpa using hnone
        obtain ⟨hpassed, -⟩ := runs_pure.mp h₃
        obtain ⟨rfl, rfl⟩ : found = role ∧ properties' = properties := by simpa using hpassed
        have htag' : F.get? roleKey = some (.text found.text) := by
          obtain ⟨t, ht, hheldTag⟩ := Store.exists_tree_of_get? hentries htag
          obtain rfl : t = .text found.text := by cases t <;> simp_all [Store.Holds]
          exact ht
        have hpath : found ≠ .path := by
          rintro rfl
          exact hempty rfl
        -- What passes the check has been found in an object, as nothing is declared by what is absent.
        have hpassed (P : Entries Tree) (hheldP : List.Forall₂ s.HoldsEntry properties' P) (hP : ∀ e ∈ P, e.2.IsJson) :
            (∀ field ∈ found.envelope, Declares P field) ∧
              ∀ field ∈ found.envelope, ∀ t, P.get? field.1 = some t → t.HasForm := by
          have hform := hasForm_of_runs_envelopeMismatches hheldP hmismatches
          obtain ⟨hnil, -⟩ := hmismatches.unique
            (runs_envelopeMismatches_undeclared hheldP hP (fun _ => exists_isFlatShape) hform)
          exact ⟨undeclared_eq_nil.mp hnil.symm, hform⟩
        split at hdeclared
        · obtain ⟨pid, hpshape⟩ := hdeclared
          obtain ⟨P, hPtree, hheldP⟩ := hvt.object_of_shape hpshape
          have hget : F.get? "properties" = some (.object P) := by
            cases hget : F.get? "properties" with
            | none => simp [hget] at hPtree
            | some t => rw [← hPtree, hget, Option.getD_some]
          have hparts := Tree.entriesAreJson_iff.mp hjson.2 _ (Entries.mem_of_get? hget)
          exact ⟨P, htag', hpath, hget, hpassed P hheldP (Tree.entriesAreJson_iff.mp hparts.2)⟩
        · obtain rfl := hdeclared
          obtain ⟨hnone, -⟩ := hpassed [] .nil (by simp)
          obtain ⟨field, hfield⟩ := List.exists_mem_of_ne_nil _ (envelope_ne_nil hpath)
          obtain ⟨t, ht, -⟩ := hnone field hfield
          cases ht

end Edit

end DeviceApi
