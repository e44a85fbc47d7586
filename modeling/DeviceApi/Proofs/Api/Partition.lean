import DeviceApi.Proofs.Api.Lookup
import DeviceApi.Proofs.Api.Grouping
import DeviceApi.Proofs.Schema.Fitting
import DeviceApi.Proofs.Document.Effects

/-!
# Parameters by location

Grouping divides the parameters of an operation by location and loses none of them. What it makes of those at one
location can be told from the list of them: a property for each name in order of first occurrence, as the last parameter
of that name has it, and the names of the required ones in order.
-/

namespace DeviceApi

/-! ## Entries of pairs -/

namespace Entries

variable {α β : Type} {entries : Entries α} {f : β → String} {g : β → α} {bs : List β} {key : Scalar} {t : String}

theorem ofPairs_append_singleton (pairs : List (Scalar × α)) (e : Scalar × α) :
    ofPairs (pairs ++ [e]) = (ofPairs pairs).put e.1 e.2 := by
  rw [ofPairs, ofPairs, putAll, putAll, List.foldl_append]
  rfl

theorem removeAll_singleton {γ : Type} [DecidableEq γ] (a : γ) (l : List γ) :
    [a].removeAll l = if a ∈ l then [] else [a] := by
  by_cases ha : a ∈ l <;> simp [List.removeAll, ha]

/-- The keys come in order of first occurrence. -/
theorem keys_ofPairs :
    (ofPairs (bs.map fun b => (.text (f b), g b))).keys = (bs.map f).eraseDups.map .text := by
  induction bs using List.reverseRecOn with
  | nil => rfl
  | append_singleton bs b ih =>
    have hmem : Scalar.text (f b) ∈ (bs.map f).eraseDups.map Scalar.text ↔ f b ∈ bs.map f := by
      rw [List.mem_map_of_injective fun _ _ => Scalar.text.inj, List.mem_eraseDups]
    rw [List.map_append, List.map_append, List.map_singleton, List.map_singleton, ofPairs_append_singleton, keys_put, ih,
      List.eraseDups_append, removeAll_singleton, if_congr hmem rfl rfl, List.map_append]
    split
    · exact (List.append_nil _).symm
    · rfl

/-- The value of a key is the last one. -/
theorem get?_ofPairs : (ofPairs (bs.map fun b => (.text (f b), g b))).get? (.text t) =
    (bs.filter fun b => f b = t).getLast?.map g := by
  induction bs using List.reverseRecOn with
  | nil => rfl
  | append_singleton bs b ih =>
    rw [List.map_append, List.map_singleton, ofPairs_append_singleton, get?_put, ih, List.filter_append]
    by_cases hb : f b = t <;> simp [hb]

theorem textKeyed_ofPairs : (ofPairs (bs.map fun b => (.text (f b), g b))).TextKeyed :=
  TextKeyed.putAll ⟨by simp, by simp⟩ (by simp [keys])

/-- Entries can be told from their keys and from the values of these. -/
theorem eq_filterMap_keys (h : entries.TextKeyed) :
    entries = entries.keys.filterMap fun key => (entries.get? key).map (Prod.mk key) := by
  rw [keys, List.filterMap_map]
  conv_lhs => rw [← List.filterMap_some (l := entries)]
  refine List.filterMap_congr fun e he => ?_
  obtain ⟨t, ht⟩ := h.exists_text e.1 (List.mem_map_of_mem he)
  have hget : entries.get? e.1 = some e.2 := by
    rw [ht]
    exact get?_of_mem h.nodup (ht ▸ he)
  simp [hget]

theorem putAll_nil_of_textKeyed (h : entries.TextKeyed) : Entries.putAll [] entries = entries := by
  rw [putAll_eq_append h.exists_text (by simpa using h.nodup), List.nil_append]

/-- What is put over entries that begin with a key takes its place, and the rest comes as if the key were not there. -/
theorem putAll_cons_of_textKeyed {others : Entries α} {value : α} (h : others.TextKeyed) :
    Entries.putAll ((.text t, value) :: entries) others =
      (.text t, (others.get? (.text t)).getD value) :: entries.putAll (others.filter fun e => e.1 ≠ .text t) := by
  induction others generalizing value entries with
  | nil => rfl
  | cons e rest ih =>
    obtain ⟨key, x⟩ := e
    obtain ⟨u, rfl⟩ := h.exists_text key (by simp)
    obtain ⟨hfirst, hnodup⟩ := List.nodup_cons.mp h.nodup
    have hrest : TextKeyed rest := ⟨fun key hkey => h.exists_text key (List.mem_cons_of_mem _ hkey), hnodup⟩
    rw [putAll_cons, put_cons_text, get?_cons_text]
    by_cases hut : u = t
    · subst hut
      rw [if_pos rfl, if_pos rfl, ih hrest, get?_eq_none.mpr hfirst, List.filter_cons_of_neg (by simp)]
      rfl
    · have hne : Scalar.text t ≠ .text u := fun h => hut (Scalar.text.inj h).symm
      rw [if_neg hne, if_neg hne.symm, ih hrest, List.filter_cons_of_pos (by simpa using hut), putAll_cons]

end Entries

/-! ## Keys that no other key is the same as -/

/-- No other key is the same as this one. -/
def Scalar.Exact (key : Scalar) : Prop := ∀ k : Scalar, k.sameKey key = true ↔ k = key

theorem Scalar.exact_text (t : String) : Scalar.Exact (.text t) := fun _ => sameKey_text

theorem Scalar.exact_null : Scalar.Exact .null := by
  intro k
  cases k with
  | real x => cases x <;> simp [sameKey, same, quantity?]
  | _ => simp [sameKey, same, quantity?]

namespace Entries

variable {α : Type} {entries : Entries α} {key other : Scalar} {w : α}

theorem get?_put_of_exact (hkey : key.Exact) (hother : other.Exact) :
    (entries.put key w).get? other = if key = other then some w else entries.get? other := by
  induction entries with
  | nil => simp only [put, get?, hother key]
  | cons e rest ih =>
    obtain ⟨k, x⟩ := e
    rw [put, if_congr (hkey k) rfl rfl, get?, if_congr (hother k) rfl rfl]
    by_cases hk : k = key
    · subst hk
      rw [if_pos rfl, get?, if_congr (hother k) rfl rfl]
      by_cases hko : k = other <;> simp [hko]
    · rw [if_neg hk, get?, if_congr (hother k) rfl rfl, ih]
      by_cases hko : k = other
      · subst hko
        simp [Ne.symm hk]
      · simp [hko]

theorem get?_of_mem_of_exact (hkey : key.Exact) (hnodup : entries.keys.Nodup) (h : (key, w) ∈ entries) :
    entries.get? key = some w := by
  induction entries with
  | nil => cases h
  | cons e rest ih =>
    obtain ⟨k, x⟩ := e
    obtain ⟨hfirst, hrest⟩ := List.nodup_cons.mp hnodup
    rw [get?, if_congr (hkey k) rfl rfl]
    rcases List.mem_cons.mp h with heq | hmem
    · obtain ⟨rfl, rfl⟩ := Prod.mk.inj heq
      rw [if_pos rfl]
    · rw [if_neg fun hk => hfirst (List.mem_map.mpr ⟨_, hmem, hk.symm⟩), ih hrest hmem]

theorem mem_keys_put_of_exact (hkey : key.Exact) :
    other ∈ (entries.put key w).keys ↔ other ∈ entries.keys ∨ other = key := by
  have hput : ∃ k, (k, w) ∈ entries.put key w ∧ k.sameKey key = true := exists_mem_put
  have hcases : (entries.put key w).keys = entries.keys ∨
      entries.get? key = none ∧ (entries.put key w).keys = entries.keys ++ [key] := keys_put_cases
  rcases hcases with heq | ⟨-, heq⟩
  · obtain ⟨k, hk, hsame⟩ := hput
    obtain rfl := (hkey k).mp hsame
    have hmem : k ∈ entries.keys := heq ▸ List.mem_map_of_mem hk
    rw [heq]
    exact ⟨.inl, fun h => h.elim id fun h => h ▸ hmem⟩
  · simp [heq]

end Entries

/-! ## Parameters -/

/-- A parameter as an object declares it. -/
structure Parameter where
  name : String
  location : Option String
  description : Option Tree
  schema : Option (Entries Tree)
  required : Option Tree
  /-- The keys of the schema are texts that do not repeat. -/
  keyed : ∀ entries ∈ schema, Entries.TextKeyed entries

namespace Parameter

variable {p : Parameter} {ps : List Parameter} {fields : Entries Tree}

/-- The object has the entries that declare the parameter. -/
structure IsDeclaredBy (p : Parameter) (fields : Entries Tree) : Prop where
  name : fields.get? "name" = some (.text p.name)
  location : fields.get? "in" = p.location.map .text
  description : fields.get? "description" = p.description
  schema : fields.get? "schema" = p.schema.map .object
  required : fields.get? "required" = p.required

/-- The key of the group of the parameter. -/
def locationKey (p : Parameter) : Scalar := (p.location.map .text).getD .null

/-- Whether the parameter must be given. -/
def isRequired (p : Parameter) : Bool := (p.required.getD .null).isTruthy

/-- The schema of the parameter. Its description comes first if the parameter has one that counts as present, and is that
of the parameter unless the schema has its own. -/
def property (p : Parameter) : Tree :=
  let entries := p.schema.getD []
  let description := p.description.getD .null
  .object (if description.isTruthy then
      (.text "description", (entries.get? "description").getD description) ::
        entries.filter fun e => e.1 ≠ .text "description"
    else entries)

/-- The parameters at a location. -/
def located (location : String) (ps : List Parameter) : List Parameter :=
  ps.filter fun p => p.location = some location

/-- The schemas of parameters by name, in order of first occurrence. The last parameter of a name counts. -/
def properties (ps : List Parameter) : Entries Tree :=
  (ps.map name).eraseDups.filterMap fun n =>
    (ps.filter fun p => p.name = n).getLast?.map fun p => (.text n, p.property)

/-- The names of the required ones among parameters. -/
def requiredNames (ps : List Parameter) : List String := (ps.filter isRequired).map name

/-- The schema of an object with parameters as properties. -/
def schemaOf (ps : List Parameter) : Tree :=
  .object ([(.text "type", .text "object"), (.text "properties", .object (properties ps))] ++
    if requiredNames ps = [] then [] else [(.text "required", .list ((requiredNames ps).map .text))])

/-- The schema of the parameters at a location, if there are any. -/
def schemaAt (location : String) (ps : List Parameter) : Option Tree :=
  if located location ps = [] then none else some (schemaOf (located location ps))

theorem exact_locationKey (p : Parameter) : p.locationKey.Exact := by
  unfold locationKey
  cases p.location with
  | none => exact Scalar.exact_null
  | some location => exact Scalar.exact_text location

theorem locationKey_eq_text {location : String} : p.locationKey = .text location ↔ p.location = some location := by
  unfold locationKey
  cases p.location <;> simp

theorem hasText_locationKey (p : Parameter) : p.locationKey.hasText = true := by
  unfold locationKey
  cases p.location <;> rfl

theorem filter_locationKey (location : String) (ps : List Parameter) :
    (ps.filter fun p => p.locationKey = .text location) = located location ps :=
  List.filter_congr fun _ _ => decide_eq_decide.mpr locationKey_eq_text

theorem property_eq (p : Parameter) : p.property = .object (Entries.putAll
    (if (p.description.getD .null).isTruthy then [(.text "description", p.description.getD .null)] else [])
    (p.schema.getD [])) := by
  have hkeyed : Entries.TextKeyed (p.schema.getD []) := by
    cases hschema : p.schema with
    | none => exact ⟨by simp, by simp⟩
    | some entries => exact p.keyed entries hschema
  simp only [property]
  split
  · rw [Entries.putAll_cons_of_textKeyed hkeyed, Entries.putAll_nil_of_textKeyed hkeyed.filter]
  · rw [Entries.putAll_nil_of_textKeyed hkeyed]

theorem properties_eq (ps : List Parameter) :
    properties ps = Entries.ofPairs (ps.map fun p => (.text p.name, p.property)) := by
  rw [Entries.eq_filterMap_keys Entries.textKeyed_ofPairs, Entries.keys_ofPairs, List.filterMap_map, properties]
  refine List.filterMap_congr fun n _ => ?_
  rw [Function.comp_apply, Entries.get?_ofPairs, Option.map_map]
  rfl

theorem textKeyed_properties (ps : List Parameter) : (properties ps).TextKeyed :=
  properties_eq ps ▸ Entries.textKeyed_ofPairs

theorem properties_append_singleton (ps : List Parameter) (p : Parameter) :
    properties (ps ++ [p]) = (properties ps).put (.text p.name) p.property := by
  rw [properties_eq, properties_eq, List.map_append, List.map_singleton, Entries.ofPairs_append_singleton]

end Parameter

namespace Store

variable {s t : Store} {root v w item : Value} {D V : Tree} {pointer : String} {path : List PathStep} {p : Parameter}
  {ps : List Parameter}

/-! ## References to what is there already -/

section

variable (hgrows : s.Grows t)
include hgrows

theorem Holds.shape_eq_of_grows (h : s.Holds v V) : t.shape v = s.shape v :=
  hgrows.shape_eq fun _ hi => Holds.lt_size (hi ▸ h)

theorem Holds.at?_eq_of_grows (h : s.Holds v V) (hw : s.at? v path = some w) : t.at? v path = some w := by
  induction path generalizing v V with
  | nil => exact hw
  | cons step rest ih =>
    obtain ⟨u, hstep, hrest⟩ := Option.bind_eq_some_iff.mp hw
    obtain ⟨U, -, hu⟩ := h.exists_tree_of_child? hstep
    refine Option.bind_eq_some_iff.mpr ⟨u, ?_, ih hu hrest⟩
    have hshape := h.shape_eq_of_grows hgrows
    cases step with
    | key name => exact (field?_eq_of_shape_eq hshape).trans hstep
    | index i =>
      simp only [child?, items?, hshape]
      exact hstep

/-- References lead to where they have led before nodes were added. -/
theorem Holds.dereference_eq_of_grows (hroot : s.Holds root D) (hv : s.Holds v V) (h : s.dereference root v = .ok w) :
    t.dereference root v = .ok w := by
  obtain ⟨n, hchain⟩ := dereference_eq_ok.mp h
  refine dereference_eq_ok.mpr ⟨n, (hchain.transfer (fun v => ∃ V, s.Holds v V) ⟨V, hv⟩ ?_ ?_).1⟩
  · rintro v ⟨V, hv⟩
    exact sameReference_of_shape_eq (hv.shape_eq_of_grows hgrows)
  · rintro v p u - - hresolve
    obtain ⟨names, path, hsteps, hpath, hat, hnull⟩ := resolve_eq_ok_iff_path.mp hresolve
    obtain ⟨U, -, hu⟩ := hroot.exists_tree_of_at? hat
    refine ⟨resolve_eq_ok_iff_path.mpr ⟨names, path, hsteps, hpath, hroot.at?_eq_of_grows hgrows hat, ?_⟩, U, hu⟩
    rw [isNull, hu.shape_eq_of_grows hgrows]
    exact hnull

end

/-! ## Groups -/

/-- The item of a list of parameters declares a parameter, or refers to what does. -/
structure DeclaresParameter (s : Store) (root item : Value) (p : Parameter) : Prop where
  holds : ∃ V, s.Holds item V
  leads : ∃ w fields, s.dereference root item = .ok w ∧ s.Holds w (.object fields) ∧ p.IsDeclaredBy fields

/-- The group is that of some parameters. -/
structure Gathers (s : Store) (group : ParameterGroup) (ps : List Parameter) : Prop where
  properties : List.Forall₂ s.HoldsEntry group.properties (Parameter.properties ps)
  required : group.required = (Parameter.requiredNames ps).map .text

/-- The groups are those of some parameters by location. -/
structure Divides (s : Store) (groups : ParameterGroups) (ps : List Parameter) : Prop where
  nodup : groups.keys.Nodup
  mem_keys : ∀ key, key ∈ groups.keys ↔ ∃ p ∈ ps, p.locationKey = key
  gathers : ∀ key : Scalar, key.Exact → s.Gathers ((groups.get? key).getD {}) (ps.filter fun p => p.locationKey = key)

theorem gathers_nil : s.Gathers {} [] := ⟨.nil, rfl⟩

theorem divides_nil : s.Divides [] [] := ⟨.nil, by simp, fun _ _ => gathers_nil⟩

theorem Gathers.of_grows {group : ParameterGroup} (h : s.Gathers group ps) (hgrows : s.Grows t) : t.Gathers group ps where
  properties := h.properties.imp fun _ _ he => ⟨he.1, he.2.extend hgrows⟩
  required := h.required

theorem Divides.of_grows {groups : ParameterGroups} (h : s.Divides groups ps) (hgrows : s.Grows t) : t.Divides groups ps where
  nodup := h.nodup
  mem_keys := h.mem_keys
  gathers key hkey := (h.gathers key hkey).of_grows hgrows

/-- A parameter is added to a group. -/
theorem Gathers.add {group : ParameterGroup} (h : s.Gathers group ps) (hv : s.Holds v p.property) :
    s.Gathers { properties := group.properties.put (.text p.name) v
                required := group.required ++ if p.isRequired then [.text p.name] else [] } (ps ++ [p]) where
  properties := Parameter.properties_append_singleton ps p ▸ holds_put h.properties hv
  required := by
    rw [h.required, Parameter.requiredNames, Parameter.requiredNames, List.filter_append, List.map_append, List.map_append]
    cases hp : p.isRequired <;> simp [hp]

/-- A parameter is added to the group of its location. -/
theorem Divides.add {groups : ParameterGroups} {group : ParameterGroup} (h : s.Divides groups ps) (hgrows : s.Grows t)
    (hgroup : t.Gathers group ((ps.filter fun q => q.locationKey = p.locationKey) ++ [p])) :
    t.Divides (groups.put p.locationKey group) (ps ++ [p]) where
  nodup := Entries.nodup_keys_put_any h.nodup
  mem_keys key := by
    rw [Entries.mem_keys_put_of_exact p.exact_locationKey, h.mem_keys]
    simp [or_and_right, exists_or, eq_comm]
  gathers key hkey := by
    rw [Entries.get?_put_of_exact p.exact_locationKey hkey, List.filter_append]
    by_cases heq : p.locationKey = key
    · subst heq
      simpa using hgroup
    · simpa [heq] using (h.gathers key hkey).of_grows hgrows

/-- The value under a key holds the tree under it, and nothing where there is none. -/
theorem holds_getD {values : Entries Value} {entries : List (Scalar × Tree)} (h : List.Forall₂ s.HoldsEntry values entries)
    (key : Scalar) : s.Holds ((values.get? key).getD .null) ((Entries.get? key entries).getD .null) := by
  rcases get?_of_holds key h with ⟨hnone, hnone'⟩ | ⟨w, t, hw, ht, hheld⟩
  · rw [hnone, hnone']
    exact holds_scalar.mpr rfl
  · rw [hw, ht]
    exact hheld

end Store

namespace Edit

open Store

variable {s s' t : Store} {root v w item declared : Value} {D : Tree} {p : Parameter} {ps done : List Parameter}
  {groups : ParameterGroups} {items : List Value} {u : Unit}

/-! ## Running the steps -/

theorem runs_overlay_object {entries others : Entries Value} {id id' : Nat} (hv : s.shape v = .object id entries)
    (hw : s.shape w = .object id' others) :
    Runs (overlay v w) s u s' ↔ s.set id (.object (entries.putAll others)) = s' := by
  rw [overlay, (runs_objectOf.mpr ⟨hv, rfl⟩).bind_iff, (runs_look.mpr ⟨hw, rfl⟩).bind_iff]
  exact runs_modify

/-- The schema of a parameter is an object, if there is one. -/
theorem isObject_of_isDeclaredBy {parameter : Entries Value} {fields : Entries Tree} {schema : Value}
    (hheld : List.Forall₂ s.HoldsEntry parameter fields) (hp : p.IsDeclaredBy fields)
    (hget : parameter.get? "schema" = some schema) : s.IsObject schema := by
  obtain ⟨tree, htree, hholds⟩ := exists_tree_of_get? hheld hget
  rw [hp.schema] at htree
  obtain ⟨entries, -, rfl⟩ := Option.map_eq_some_iff.mp htree
  obtain ⟨id, values, hshape, -⟩ := hholds.shape_object
  exact ⟨id, values, hshape⟩

/-- A property begins with the description of the parameter, unless that counts as nothing. -/
theorem holds_describedBy {parameter : Entries Value} {fields : Entries Tree}
    (hheld : List.Forall₂ s.HoldsEntry parameter fields) (hp : p.IsDeclaredBy fields) :
    List.Forall₂ s.HoldsEntry (describedBy s parameter)
      (if (p.description.getD .null).isTruthy then [(.text "description", p.description.getD .null)] else []) := by
  have hdescription := holds_getD hheld "description"
  rw [hp.description] at hdescription
  rw [describedBy, hdescription.isTruthy_eq_tree]
  split
  · exact .cons ⟨rfl, hdescription⟩ .nil
  · exact .nil

/-- The property of a parameter that is declared is its schema. -/
theorem exists_runs_propertyOf_of_isDeclaredBy {parameter : Entries Value} {fields : Entries Tree}
    (hheld : List.Forall₂ s.HoldsEntry parameter fields) (hp : p.IsDeclaredBy fields) :
    ∃ v t, Runs (propertyOf parameter) s v t ∧ s.Grows t ∧ t.Holds v p.property := by
  have hschema := holds_getD hheld "schema"
  rw [hp.schema] at hschema
  have hdescribed := holds_describedBy hheld hp
  obtain ⟨v, t, hrun, hgrows⟩ := exists_runs_propertyOf fun _ => isObject_of_isDeclaredBy hheld hp
  refine ⟨v, t, hrun, hgrows, ?_⟩
  rw [Parameter.property_eq]
  obtain ⟨t₁, hnew, hcases⟩ := runs_propertyOf hrun
  obtain ⟨rfl, rfl⟩ := runs_newObject.mp hnew
  have hextend : ∀ {values : Entries Value} {entries : List (Scalar × Tree)}, List.Forall₂ s.HoldsEntry values entries →
      List.Forall₂ t.HoldsEntry values entries := fun h => h.imp fun _ _ he => ⟨he.1, he.2.extend hgrows⟩
  have hcell : ((s.add (.object (describedBy s parameter))).2).cells[s.cells.size]? =
      some (.object (describedBy s parameter)) := by
    rw [cells_add, if_pos rfl]
  rw [(hschema.extend (.add s _)).isTruthy_eq_tree] at hcases
  cases hfields : p.schema with
  | none =>
    simp only [hfields, Option.map_none, Option.getD_none] at hcases
    rcases hcases with ⟨htruthy, -⟩ | ⟨-, rfl⟩
    · cases htruthy
    · exact holds_object.mpr ⟨_, _, rfl, hcell, hextend hdescribed⟩
  | some entries =>
    rw [hfields] at hschema hcases
    obtain ⟨id, values, hshape, hvalues⟩ := hschema.shape_object
    rcases hcases with ⟨-, hoverlay⟩ | ⟨hfalsy, rfl⟩
    · have hshape' := (hschema.shape_eq_of_grows (.add s (.object (describedBy s parameter)))).trans hshape
      obtain rfl := (runs_overlay_object (shape_node hcell) hshape').mp hoverlay
      refine holds_object.mpr ⟨_, _, rfl, ?_, holds_putAll (hextend hdescribed) (hextend hvalues)⟩
      rw [cells_set, if_pos ⟨rfl, lt_size_of_cell hcell⟩]
    · obtain rfl : entries = [] := by simpa [Tree.isTruthy] using hfalsy
      exact holds_object.mpr ⟨_, _, rfl, hcell, hextend hdescribed⟩

section

variable (hroot : s.Holds root D)
include hroot

/-- A declared parameter comes into the group of its location. -/
theorem exists_runs_addParameter_of_declares (hgrows : s.Grows t) (hp : s.DeclaresParameter root item p)
    (hgroups : t.Divides groups ps) : ∃ groups' t', Runs (addParameter root groups item) t groups' t' ∧ t.Grows t' ∧
      t'.Divides groups' (ps ++ [p]) := by
  obtain ⟨⟨V, hV⟩, w, fields, hw, hheld, hdeclared⟩ := hp
  obtain ⟨id, parameter, hshape, hentries⟩ := (hheld.extend hgrows).shape_object
  have hlocation : (parameter.get? "in").getD .null = .scalar p.locationKey := by
    have hin := holds_getD hentries "in"
    rw [hdeclared.location] at hin
    unfold Parameter.locationKey
    cases hlocation : p.location <;> simpa [hlocation] using hin
  obtain ⟨x, hname, hx⟩ := exists_value_of_get? hentries hdeclared.name
  obtain rfl := holds_scalar.mp hx
  obtain ⟨v, t', hproperty, hgrows', hv⟩ := exists_runs_propertyOf_of_isDeclaredBy hentries hdeclared
  have hrequired : t'.isTruthy ((parameter.get? "required").getD .null) = p.isRequired := by
    rw [((holds_getD hentries "required").extend hgrows').isTruthy_eq_tree, hdeclared.required, Parameter.isRequired]
  refine ⟨_, t', ?_, hgrows', hgroups.add hgrows' (((hgroups.gathers _ p.exact_locationKey).of_grows hgrows').add hv)⟩
  rw [addParameter]
  refine runs_bind.mpr ⟨w, t, runs_dereference.mpr ⟨hroot.dereference_eq_of_grows hgrows hV hw, rfl⟩, ?_⟩
  refine runs_bind.mpr ⟨parameter, t, runs_entriesOf.mpr ⟨⟨id, hshape⟩, rfl⟩, ?_⟩
  refine runs_bind.mpr ⟨p.locationKey, t, runs_keyOf.mpr ⟨by rw [hlocation]; rfl, rfl⟩, ?_⟩
  refine runs_bind.mpr ⟨v, t', hproperty, ?_⟩
  rw [hname]
  refine runs_bind.mpr ⟨.text p.name, t', runs_keyOf.mpr ⟨rfl, rfl⟩, ?_⟩
  refine runs_bind.mpr ⟨p.isRequired, t', runs_isTruthy.mpr ⟨hrequired, rfl⟩, runs_pure.mpr ⟨?_, rfl⟩⟩
  cases p.isRequired <;> simp

/-- Declared parameters come into the groups of their locations. -/
theorem exists_runs_foldlM_of_declares (hgrows : s.Grows t)
    (hps : List.Forall₂ (s.DeclaresParameter root) items ps) (hgroups : t.Divides groups done) :
    ∃ groups' t', Runs (items.foldlM (addParameter root) groups) t groups' t' ∧ t.Grows t' ∧
      t'.Divides groups' (done ++ ps) := by
  induction hps generalizing t groups done with
  | nil => exact ⟨groups, t, runs_foldlM_nil.mpr ⟨rfl, rfl⟩, .refl t, by simpa using hgroups⟩
  | @cons item p items ps hp _ ih =>
    obtain ⟨groups₁, t₁, hadd, hgrows₁, hgroups₁⟩ := exists_runs_addParameter_of_declares hroot hgrows hp hgroups
    obtain ⟨groups', t', hrest, hgrows', hgroups'⟩ := ih (hgrows.trans hgrows₁) hgroups₁
    exact ⟨groups', t', runs_foldlM_cons.mpr ⟨groups₁, t₁, hadd, hrest⟩, hgrows₁.trans hgrows', by simpa using hgroups'⟩

end

/-- The schema of a group is that of its parameters. -/
theorem holds_of_groupSchema {group : ParameterGroup} (h : Runs (groupSchema group) s v s') (hgroup : s.Gathers group ps) :
    s'.Holds v (Parameter.schemaOf ps) := by
  obtain ⟨x, s₁, hproperties, hcases⟩ := runs_groupSchema h
  obtain ⟨rfl, rfl⟩ := runs_newObject.mp hproperties
  have hobject : (s.add (.object group.properties)).2.Holds (s.add (.object group.properties)).1
      (.object (Parameter.properties ps)) :=
    holds_object.mpr ⟨_, _, rfl, by rw [cells_add, if_pos rfl], (hgroup.of_grows (.add s _)).properties⟩
  rw [hgroup.required] at hcases
  unfold Parameter.schemaOf
  rcases hcases with ⟨hempty, hnew⟩ | ⟨required, s₂, hsome, hrequired, hnew⟩
  · obtain ⟨rfl, rfl⟩ := runs_newObject.mp hnew
    rw [if_pos (List.map_eq_nil_iff.mp hempty)]
    refine holds_object.mpr ⟨_, _, rfl, by rw [cells_add, if_pos rfl], ?_⟩
    exact .cons ⟨rfl, holds_scalar.mpr rfl⟩ (.cons ⟨rfl, hobject.extend (.add _ _)⟩ .nil)
  · obtain ⟨rfl, rfl⟩ := runs_newList.mp hrequired
    obtain ⟨rfl, rfl⟩ := runs_newObject.mp hnew
    rw [if_neg fun hempty => hsome (List.map_eq_nil_iff.mpr hempty)]
    refine holds_object.mpr ⟨_, _, rfl, by rw [cells_add, if_pos rfl], ?_⟩
    refine .cons ⟨rfl, holds_scalar.mpr rfl⟩ (.cons ⟨rfl, hobject.extend ((Grows.add _ _).trans (.add _ _))⟩
      (.cons ⟨rfl, ?_⟩ .nil))
    refine Holds.extend (holds_list.mpr ⟨_, _, rfl, by rw [cells_add, if_pos rfl], ?_⟩) (.add _ _)
    simp [List.forall₂_map_left_iff, List.forall₂_map_right_iff, List.forall₂_same]

/-- The schema at a location is that of the parameters there. -/
theorem rel_of_groupSchema? {location : String} {schema : Option Value} (hgroups : s.Divides groups ps)
    (h : Runs (groupSchema? (groups.get? (.text location))) s schema s') :
    Option.Rel s'.Holds schema (Parameter.schemaAt location ps) := by
  have hgathers := hgroups.gathers _ (Scalar.exact_text location)
  have hmem := hgroups.mem_keys (.text location)
  rw [Parameter.filter_locationKey] at hgathers
  have hsome : .text location ∈ groups.keys ↔ Parameter.located location ps ≠ [] := by
    simp [hmem, Parameter.located, Parameter.locationKey_eq_text]
  unfold Parameter.schemaAt
  cases hget : groups.get? (.text location) with
  | none =>
    rw [hget] at h
    obtain ⟨rfl, -⟩ := runs_pure.mp h
    rw [if_pos (not_not.mp (mt hsome.mpr (Entries.get?_eq_none.mp hget)))]
    exact .none
  | some group =>
    rw [hget] at h hgathers
    obtain ⟨v, t, hgroup, hdone⟩ := runs_bind.mp h
    obtain ⟨rfl, rfl⟩ := runs_pure.mp hdone
    rw [if_neg (hsome.mp (Entries.has_text.mp (by simp [Entries.has, hget])))]
    exact .some (holds_of_groupSchema hgroup hgathers)

/-! ## Other locations -/

theorem runs_mapM_textOf_display {keys : List Scalar} (h : ∀ key ∈ keys, key.hasText = true) :
    Runs (keys.mapM textOf) s (keys.map Scalar.display) s := by
  induction keys with
  | nil => exact runs_mapM_nil.mpr ⟨rfl, rfl⟩
  | cons key rest ih =>
    obtain ⟨hkey, hrest⟩ := List.forall_mem_cons.mp h
    exact runs_mapM_cons.mpr ⟨_, s, runs_textOf.mpr ⟨⟨hkey, rfl⟩, rfl⟩, _, ih hrest, rfl⟩

theorem haveText_map_scalar {keys : List Scalar} (h : ∀ key ∈ keys, key.hasText = true) :
    Tree.haveText (keys.map .scalar) = true := by
  induction keys with
  | nil => rfl
  | cons key rest ih =>
    obtain ⟨hkey, hrest⟩ := List.forall_mem_cons.mp h
    simp [Tree.haveText, Tree.hasText, hkey, ih hrest]

/-- No group is left beside those of the path and of the query just if no parameter is located elsewhere. -/
theorem remove_eq_nil_of_divides (h : s.Divides groups ps) : Entries.remove "query" (Entries.remove "path" groups) = [] ↔
    ∀ p ∈ ps, p.location = some "path" ∨ p.location = some "query" := by
  have hnodup : (Entries.remove "path" groups).keys.Nodup := by
    rw [Entries.remove_eq_filter h.nodup]
    exact h.nodup.sublist (List.filter_sublist.map Prod.fst)
  rw [Entries.remove_eq_filter hnodup, Entries.remove_eq_filter h.nodup, List.filter_filter, List.filter_eq_nil_iff]
  have hkeys : (∀ key ∈ groups.keys, key = .text "path" ∨ key = .text "query") ↔
      ∀ p ∈ ps, p.location = some "path" ∨ p.location = some "query" := by
    simp only [h.mem_keys, forall_exists_index, and_imp, forall_apply_eq_imp_iff₂, Parameter.locationKey_eq_text]
  rw [← hkeys, Entries.keys, List.forall_mem_map]
  refine forall₂_congr fun e _ => ?_
  simp only [Bool.and_eq_true, decide_eq_true_eq, not_and, not_not, ne_eq]
  tauto

/-- Where a parameter is located elsewhere, the locations are refused, with the names of the parameters there. -/
theorem runOn_groupParameters_of_others {others : ParameterGroups} (hitems : s.elements declared = .ok items)
    (hruns : Runs (items.foldlM (addParameter root) []) s groups t) (hgroups : t.Divides groups ps)
    (hothers : Entries.remove "query" (Entries.remove "path" groups) = others) (hne : others ≠ []) :
    (groupParameters root declared).runOn s =
      (.error (.violation (.parameterLocations (Text.sorted (others.keys.map Scalar.display))
        (.list (others.values.flatMap fun group => group.properties.keys.map .scalar)))), t) := by
  have hold : ∀ e ∈ others, e ∈ groups := fun e he =>
    Entries.mem_of_mem_remove (Entries.mem_of_mem_remove (hothers ▸ he))
  have hkeys : ∀ key ∈ others.keys, key.hasText = true := by
    intro key hkey
    obtain ⟨e, he, rfl⟩ := List.mem_map.mp hkey
    obtain ⟨p, -, hp⟩ := (hgroups.mem_keys e.1).mp (List.mem_map_of_mem (hold e he))
    exact hp ▸ p.hasText_locationKey
  have hnames : ∀ key ∈ others.values.flatMap fun group => group.properties.keys, key.hasText = true := by
    intro key hkey
    obtain ⟨group, hgroup, hkey⟩ := List.mem_flatMap.mp hkey
    obtain ⟨e, he, rfl⟩ := List.mem_map.mp hgroup
    obtain ⟨p, -, hp⟩ := (hgroups.mem_keys e.1).mp (List.mem_map_of_mem (hold e he))
    have hexact : e.1.Exact := hp ▸ p.exact_locationKey
    have hgathers := hgroups.gathers e.1 hexact
    rw [Entries.get?_of_mem_of_exact hexact hgroups.nodup (hold e he), Option.getD_some] at hgathers
    rw [keys_eq_of_holds hgathers.properties] at hkey
    obtain ⟨n, rfl⟩ := (Parameter.textKeyed_properties _).exists_text key hkey
    rfl
  have htext : (Tree.list (others.values.flatMap fun group => group.properties.keys.map .scalar)).hasText = true := by
    simpa [Tree.hasText, List.map_flatMap] using haveText_map_scalar hnames
  rw [groupParameters, (runs_elementsOf.mpr ⟨hitems, rfl⟩).runOn_bind, hruns.runOn_bind]
  dsimp only
  rw [hothers, if_neg (by simpa using hne), (runs_mapM_textOf_display hkeys).runOn_bind, if_pos htext]
  rfl

/-- **Grouping divides parameters by location.** Parameters are refused just if one of them is located neither in the path
nor in the query. Otherwise there is a schema for each of the two locations just if a parameter is located there. It has
the names of the parameters at the location for properties, in order of first occurrence and as the last parameter of each
name has it, and lists the names of the required ones. -/
theorem groupParameters_partitions (hroot : s.Holds root D) (hlist : s.items? declared = some items)
    (hps : List.Forall₂ (s.DeclaresParameter root) items ps) :
    ((∃ violation t, (groupParameters root declared).runOn s = (.error (.violation violation), t)) ↔
      ∃ p ∈ ps, p.location ≠ some "path" ∧ p.location ≠ some "query") ∧
    ((∀ p ∈ ps, p.location = some "path" ∨ p.location = some "query") → ∃ path query s',
      Runs (groupParameters root declared) s (path, query) s' ∧ s.Grows s' ∧
        Option.Rel s'.Holds path (Parameter.schemaAt "path" ps) ∧
        Option.Rel s'.Holds query (Parameter.schemaAt "query" ps)) := by
  obtain ⟨id, hshape⟩ := items?_eq_some.mp hlist
  have hitems : s.elements declared = .ok items := by rw [elements, hshape]
  obtain ⟨groups, t, hruns, hgrows, hgroups⟩ := exists_runs_foldlM_of_declares hroot (.refl s) hps divides_nil
  rw [List.nil_append] at hgroups
  have hgrouped : (∀ p ∈ ps, p.location = some "path" ∨ p.location = some "query") → ∃ path query s',
      Runs (groupParameters root declared) s (path, query) s' ∧ s.Grows s' ∧
        Option.Rel s'.Holds path (Parameter.schemaAt "path" ps) ∧
        Option.Rel s'.Holds query (Parameter.schemaAt "query" ps) := by
    intro hlocations
    obtain ⟨path, t₁, hpath⟩ := exists_runs_groupSchema? (groups.get? "path") t
    obtain ⟨query, t₂, hquery⟩ := exists_runs_groupSchema? (groups.get? "query") t₁
    have hgrows₁ := grows_groupSchema? hpath
    have hgrows₂ := grows_groupSchema? hquery
    refine ⟨path, query, t₂, ?_, (hgrows.trans hgrows₁).trans hgrows₂, ?_, ?_⟩
    · rw [groupParameters]
      refine runs_bind.mpr ⟨items, s, runs_elementsOf.mpr ⟨hitems, rfl⟩, runs_bind.mpr ⟨groups, t, hruns, ?_⟩⟩
      rw [if_pos (by rw [(remove_eq_nil_of_divides hgroups).mpr hlocations]; rfl)]
      exact runs_bind.mpr ⟨path, t₁, hpath, runs_bind.mpr ⟨query, t₂, hquery, runs_pure.mpr ⟨rfl, rfl⟩⟩⟩
    · have hrel := rel_of_groupSchema? hgroups hpath
      generalize Parameter.schemaAt "path" ps = schema at hrel ⊢
      cases hrel with
      | none => exact .none
      | some h => exact .some (h.extend hgrows₂)
    · exact rel_of_groupSchema? (hgroups.of_grows hgrows₁) hquery
  refine ⟨⟨?_, ?_⟩, hgrouped⟩
  · rintro ⟨violation, u, hfault⟩
    by_contra hnone
    push Not at hnone
    obtain ⟨path, query, s', hrun, -⟩ := hgrouped fun p hp => or_iff_not_imp_left.mpr (hnone p hp)
    rw [show (groupParameters root declared).runOn s = _ from hrun] at hfault
    cases hfault
  · rintro ⟨p, hp, hpath, hquery⟩
    refine ⟨_, t, runOn_groupParameters_of_others hitems hruns hgroups rfl fun hnil => ?_⟩
    exact ((remove_eq_nil_of_divides hgroups).mp hnil p hp).elim hpath hquery

/-- A document with a parameter to refer to. -/
def limited : Tree := .ofFields [("limit", .ofFields [("name", .text "limit"), ("in", .text "query")])]

/-- A list of parameters that has one twice and refers to another one. -/
def limitedParameters : List Tree :=
  [.ofFields [("name", .text "id"), ("in", .text "path"), ("required", .bool true),
      ("schema", .ofFields [("type", .text "string")])],
    .ofFields [(referenceKey, .text "#/limit")],
    .ofFields [("name", .text "id"), ("in", .text "path"), ("description", .text "A number."),
      ("schema", .ofFields [("type", .text "integer"), ("description", .text "Not negative.")])]]

/-- The parameters that the list declares. -/
def limitedDeclared : List Parameter :=
  [⟨"id", some "path", none, some [(.text "type", .text "string")], some (.bool true), by simp; decide⟩,
    ⟨"limit", some "query", none, none, none, by simp⟩,
    ⟨"id", some "path", some (.text "A number."),
      some [(.text "type", .text "integer"), (.text "description", .text "Not negative.")], none, by simp; decide⟩]

theorem groupParameters_partitions_limited :
    let start := Store.empty.load limited
    let listed := start.2.load (.list limitedParameters)
    ∃ path query s', Runs (groupParameters start.1 listed.1) listed.2 (some path, some query) s' ∧
      s'.Holds path (.ofFields [("type", .text "object"),
        ("properties", .ofFields [("id", .ofFields [("description", .text "Not negative."), ("type", .text "integer")])]),
        ("required", .list [.text "id"])]) ∧
      s'.Holds query (.ofFields [("type", .text "object"), ("properties", .ofFields [("limit", .ofFields [])])]) := by
  intro start listed
  have hroot : listed.2.Holds start.1 limited := (holds_load (by decide) _).extend (houses_load (by decide) _).toGrows
  have hlist : listed.2.Holds listed.1 (.list limitedParameters) := holds_load (by decide) _
  have hplain : ∀ {item : Value} {fields : Entries Tree} {p : Parameter}, listed.2.Holds item (.object fields) →
      Entries.has fields referenceKey = false → p.IsDeclaredBy fields → listed.2.DeclaresParameter start.1 item p :=
    fun h hnot hp => ⟨⟨_, h⟩, _, _, dereference_eq_ok.mpr ⟨0, .nil (h.isReference_eq.trans hnot)⟩, h, hp⟩
  have hlimit : limited.at? [.key "limit"] = some (.ofFields [("name", .text "limit"), ("in", .text "query")]) := rfl
  obtain ⟨w, hat, hw⟩ := hroot.exists_at? hlimit
  have hresolve : listed.2.resolve start.1 "#/limit" = .ok w := resolve_eq_ok_iff_path.mpr
    ⟨["limit"], _, by decide, .cons (.key "limit") .nil, hat, hw.isNull_eq.trans rfl⟩
  obtain ⟨id, items, hid, hcell, hitems⟩ := holds_list.mp hlist
  obtain _ | ⟨hfirst, _ | ⟨hsecond, _ | ⟨hthird, _ | _⟩⟩⟩ := hitems
  have hentry : (Tree.ofFields [(referenceKey, .text "#/limit")]).child? (.key referenceKey) = some (.text "#/limit") := rfl
  obtain ⟨x, hpointer, hx⟩ := hsecond.exists_child? hentry
  obtain rfl := holds_scalar.mp hx
  have hreference : listed.2.dereference start.1 _ = .ok w :=
    dereference_eq_ok.mpr ⟨1, .cons hpointer hresolve (.nil (hw.isReference_eq.trans rfl))⟩
  have hps : List.Forall₂ (listed.2.DeclaresParameter start.1) _ limitedDeclared :=
    .cons (hplain hfirst rfl ⟨rfl, rfl, rfl, rfl, rfl⟩)
      (.cons ⟨⟨_, hsecond⟩, w, _, hreference, hw, ⟨rfl, rfl, rfl, rfl, rfl⟩⟩
        (.cons (hplain hthird rfl ⟨rfl, rfl, rfl, rfl, rfl⟩) .nil))
  obtain ⟨-, hgrouped⟩ := groupParameters_partitions hroot
    (items?_eq_some.mpr ⟨id, shape_eq_list.mpr ⟨hid, hcell⟩⟩) hps
  obtain ⟨path, query, s', hruns, -, hpath, hquery⟩ := hgrouped (by decide)
  have hpathTree : Parameter.schemaAt "path" limitedDeclared = some (.ofFields [("type", .text "object"),
      ("properties", .ofFields [("id", .ofFields [("description", .text "Not negative."), ("type", .text "integer")])]),
      ("required", .list [.text "id"])]) := rfl
  have hqueryTree : Parameter.schemaAt "query" limitedDeclared = some (.ofFields [("type", .text "object"),
      ("properties", .ofFields [("limit", .ofFields [])])]) := rfl
  rw [hpathTree] at hpath
  rw [hqueryTree] at hquery
  obtain ⟨hpath⟩ := hpath
  obtain ⟨hquery⟩ := hquery
  exact ⟨_, _, s', hruns, hpath, hquery⟩

end Edit

end DeviceApi
