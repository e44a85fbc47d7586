import DeviceApi.Proofs.Api.Runs
import DeviceApi.Proofs.Kinds.References

/-!
# Parameters in stores that differ in descriptions

The property that is made from a parameter has the description of the parameter, and so it is alike in two stores
that are alike. The groups of parameters have the same names and the same properties in both.
-/

namespace DeviceApi

variable {kinds kinds' ks : List Kind} {k k' : Kind} {s s' : Store} {root v w target further : Value}
  {entries entries' others others' : Entries Value} {key : Scalar}

namespace Kind

/-- What may stand in a property: what may stand in a schema. -/
theorem below_property (key : Option Scalar) : property.below key = schema.below key := by
  unfold below
  split <;> rfl

theorem plain_mem_below_property (key : Option Scalar) : plain ∈ property.below key := by
  have hall : ∀ ks ∈ property.items :: property.others :: property.fields.map Prod.snd, plain ∈ ks := by decide
  exact hall _ (below_mem _ key)

end Kind

namespace Value

/-- What says nothing about a type may stand anywhere in a property. -/
theorem IsOf.below_property (h : v.IsOf kinds [.plain]) (place : Option Scalar) :
    v.IsOf kinds (Kind.property.below place) :=
  h.of_subset fun _ hk => List.mem_singleton.mp hk ▸ Kind.plain_mem_below_property place

end Value

namespace Cell.Fits

/-- Entries may be put over others if they may stand there. -/
theorem putAll (h : (Cell.object entries).Fits kinds k) (hkeyed : others.TextKeyed)
    (hothers : ∀ e ∈ others, e.2.IsOf kinds (k.below (some e.1))) (hrefer : k.mayRefer = false) :
    (Cell.object (entries.putAll others)).Fits kinds k := by
  induction others generalizing entries with
  | nil => exact h
  | cons e rest ih =>
    obtain ⟨name, hname⟩ := hkeyed.exists_text e.1 List.mem_cons_self
    have he := hothers e List.mem_cons_self
    rw [hname] at he
    have hput : (Cell.object (Entries.put e.1 e.2 entries)).Fits kinds k :=
      hname ▸ h.put he fun hk => by simp [hrefer] at hk
    exact ih hput ⟨fun key hkey => hkeyed.exists_text key (List.mem_cons_of_mem _ hkey),
      (List.nodup_cons.mp hkeyed.nodup).2⟩ fun e' he' => hothers e' (List.mem_cons_of_mem _ he')

end Cell.Fits

namespace Store.Matches

variable (h : s.Matches kinds s')
include h

/-- A pair is the same in both stores, and so is what stands in it. -/
theorem pair_eq (hv : v.IsOf kinds [.plain]) : s'.pair v = s.pair v := by
  unfold pair
  rw [h.elements_eq hv (by decide)]
  cases hitems : s.elements v with
  | error m => rfl
  | ok items =>
    have hall : ∀ w ∈ items, w.IsOf kinds [.plain] := fun w hw => h.isOf_elements hv (by decide) hitems hw
    simp only [bind, Except.bind]
    split
    · next key value => rw [h.key_eq (hall key List.mem_cons_self)]
    · rfl

/-- A scalar of the document is one of JSON. -/
theorem isJson_key (hv : v.IsOf kinds [.plain]) (hkey : s.key v = .ok key) : key.isJson = true := by
  cases v with
  | scalar a =>
    obtain rfl : a = key := by simpa [Store.key, shape] using hkey
    exact hv.resolve_right (by decide)
  | node i =>
    obtain ⟨k, -, hi⟩ := hv
    obtain ⟨cell, -, hcell, -⟩ := h.cells i k hi
    cases cell <;> simp [Store.key, shape, hcell] at hkey

theorem isOf_pair (hv : v.IsOf kinds [.plain]) (hpair : s.pair v = .ok (key, w)) :
    key.isJson = true ∧ w.IsOf kinds [.plain] := by
  unfold pair at hpair
  cases hitems : s.elements v with
  | error m => simp [hitems, bind, Except.bind] at hpair
  | ok items =>
    have hall : ∀ u ∈ items, u.IsOf kinds [.plain] := fun u hu => h.isOf_elements hv (by decide) hitems hu
    simp only [hitems, bind, Except.bind] at hpair
    split at hpair
    · next first second =>
      cases hkey : s.key first with
      | error m => simp [hkey] at hpair
      | ok key' =>
        obtain ⟨rfl, rfl⟩ : key' = key ∧ second = w := by simpa [hkey, pure, Except.pure] using hpair
        exact ⟨h.isJson_key (hall first List.mem_cons_self) hkey, hall second (by simp)⟩
    · cases hpair

end Store.Matches

namespace Edit

namespace Agree

/-- The entries of a schema are put over those of a property. -/
theorem overlay (h : s.Matches kinds s') (htarget : target.IsOf kinds [.property])
    (hfurther : further.IsOf kinds [.schema, .plain]) :
    Agree kinds s s' (overlay target further) (Edit.overlay target further) (Same fun _ _ => True) := by
  unfold Edit.overlay
  refine objectOf_bind h htarget fun i k entries entries' hk hi _ _ halike => ?_
  obtain rfl := List.mem_singleton.mp hk
  dsimp only
  rcases h.object_cases hfurther with ⟨hnone, hnone'⟩ | ⟨j, k', others, others', hk', hj, hshape, hshape', hothers⟩
  · -- What is no object is gone through pair by pair.
    have hsame : s'.shape further = s.shape further := by
      rcases h.shape_cases hfurther with heq | ⟨j, k', others, others', -, -, -, hshape, -⟩
      · exact heq
      · exact absurd hshape (shape_ne_object hnone)
    refine look_bind hsame ?_
    split
    · next hshape => exact absurd hshape (shape_ne_object hnone)
    · refine elementsOf_bind h hfurther (l := [.plain]) (by decide) fun items hitems => ?_
      refine (forIn h fun item hitem kinds₁ t t' hgrown halike' => ?_).bind_same fun _ _ t t' _ halike' _ =>
        pure halike' ⟨rfl, trivial⟩
      have hof := (hitems item hitem).mono hgrown
      refine get_bind (ofExcept_bind (halike'.pair_eq hof) fun pair hpair => ?_)
      obtain ⟨key, value⟩ := pair
      obtain ⟨hjson, hvalue⟩ := halike'.isOf_pair hof hpair
      refine (putKey halike' (htarget.mono hgrown) fun k hk _ _ hentries => ?_).bind_same
        fun _ _ u u' _ halike'' _ => pure halike'' ⟨rfl, rfl⟩
      obtain rfl := List.mem_singleton.mp hk
      have hbelow : ∀ other : Scalar, other.sameKey key = true →
          value.IsOf kinds₁ (Kind.property.below (some other)) := fun other _ => hvalue.below_property _
      exact ⟨hentries.alike.put, by simp [Kind.isSteady], by simp [Kind.isDescribed],
        hentries.fits.putKey hjson (by simp [Kind.isTextKeyed]) hbelow (by simp [Kind.mayRefer]),
        hentries.fits'.putKey hjson (by simp [Kind.isTextKeyed]) hbelow (by simp [Kind.mayRefer])⟩
  · refine read_bind (x := .ok (.object j others)) (y := .ok (.object j others')) ?_ ?_ (.inr ⟨_, _, rfl, rfl, ?_⟩)
    · rw [runOn_look, hshape]
    · rw [runOn_look, hshape']
    · have hkinds : ∀ k ∈ [Kind.schema, .plain], k.isTextKeyed = true ∧ k.isSteady = true := by decide
      obtain ⟨htext, hsteady⟩ := hkinds k' hk'
      have hkeyed := hothers.fits.textKeyed htext
      have hkeyed' := hothers.fits'.textKeyed htext
      have hbelow : ∀ (place : Option Scalar) (v : Value), v.IsOf kinds (k'.below place) →
          v.IsOf kinds (Kind.property.below place) := fun place v hv => by
        rcases List.mem_pair.mp hk' with rfl | rfl
        · rwa [Kind.below_property]
        · exact (Kind.below_plain place ▸ hv).below_property place
      refine modify_set h hi ⟨?_, by simp [Kind.isSteady], by simp [Kind.isDescribed], ?_, ?_⟩
      · exact halike.alike.putAll hothers.alike hkeyed hkeyed' (hothers.keys hsteady)
      · exact halike.fits.putAll hkeyed (fun e he => hbelow _ _ (hothers.fits.entry he)) rfl
      · exact halike.fits'.putAll hkeyed' (fun e he => hbelow _ _ (hothers.fits'.entry he)) rfl

/-- The description of a parameter begins its property. -/
theorem alikeIn_described (h : s.Matches kinds s') (hk : k ∈ Kind.referred) (halike : entries.AlikeIn kinds k entries') :
    let first (s : Store) (entries : Entries Value) : Entries Value :=
      let description := (entries.get? descriptionKey).getD .null
      if s.isTruthy description then [(.text descriptionKey, description)] else []
    (first s entries).AlikeIn (kinds ++ [.property]) .property (first s' entries') := by
  intro first
  have hbelow : ∀ k ∈ Kind.referred, k.below (some (.text descriptionKey)) = [.plain] := by decide
  have hfits : ∀ {s : Store} {entries : Entries Value}, (Cell.object entries).Fits kinds k →
      (Cell.object (first s entries)).Fits (kinds ++ [.property]) .property := by
    intro s entries hfits
    have hvalue : ((entries.get? descriptionKey).getD .null).IsOf kinds [.plain] := by
      cases hget : entries.get? descriptionKey with
      | none => exact Value.isOf_null
      | some v => exact hbelow k hk ▸ hfits.get? hget
    simp only [first]
    split
    · refine .object ⟨by simp [Entries.keys], by simp [Entries.keys]⟩ (fun name v hmem => ?_) (by simp [Kind.mayRefer])
      obtain ⟨rfl, rfl⟩ : name = descriptionKey ∧ v = _ := by simpa using hmem
      exact (hvalue.mono (List.prefix_append _ _)).below_property _
    · exact .object ⟨by simp [Entries.keys], by simp [Entries.keys]⟩ (by simp) (by simp [Kind.mayRefer])
  refine ⟨⟨?_, ?_⟩, by simp [Kind.isSteady], by simp [Kind.isDescribed], hfits halike.fits, hfits halike.fits'⟩
  · have hnone : ∀ (s : Store) (entries : Entries Value), (first s entries).undescribed = [] := fun s entries => by
      simp only [first]
      split <;> simp [Entries.undescribed, Scalar.isOther]
    rw [hnone, hnone]
  · rcases halike.alike.description with heq | ⟨htext, htext'⟩
    · have hvalue : ((entries.get? descriptionKey).getD .null).IsOf kinds [.plain] := hbelow k hk ▸ halike.isOf_getD
      refine .inl ?_
      simp only [first, ← heq, h.isTruthy_eq hvalue (by decide)]
    · have hdescribed : ∀ {s : Store} {entries : Entries Value}, entries.IsDescribed →
          (first s entries).IsDescribed := by
        intro s entries hentries v hget
        cases hdescription : entries.get? descriptionKey with
        | none => simp [first, hdescription, Store.isTruthy, Store.shape, Scalar.isTruthy] at hget
        | some u =>
          obtain ⟨t, rfl⟩ := hentries u hdescription
          simp only [first, hdescription, Option.getD_some] at hget
          split at hget
          · exact ⟨t, (Option.some.inj (by simpa [Entries.get?] using hget)).symm⟩
          · simp [Entries.get?] at hget
      exact .inr ⟨hdescribed htext, hdescribed htext'⟩

/-- The property of a parameter is alike in both stores. -/
theorem propertyOf (h : s.Matches kinds s') (hk : k ∈ Kind.referred) (halike : entries.AlikeIn kinds k entries') :
    Agree kinds s s' (propertyOf entries) (Edit.propertyOf entries') (Same (OneOf [.property])) := by
  unfold Edit.propertyOf
  have hbelow : ∀ k ∈ Kind.referred, k.below (some (.text "schema")) ⊆ [.schema, .plain] := by decide
  have hschema : ((entries.get? (.text "schema")).getD .null).IsOf kinds [.schema, .plain] :=
    halike.isOf_getD.of_subset (hbelow k hk)
  refine read_bind (x := .ok _) (y := .ok _) rfl rfl (.inr ⟨_, _, rfl, rfl, ?_⟩)
  refine (newObject h (alikeIn_described h hk halike)).bind_same fun kinds₁ property t t' hgrown halike' hproperty => ?_
  dsimp only
  rw [halike.get?_eq (by decide)]
  refine isTruthy_bind halike' (hschema.mono hgrown) (by decide) fun c => ?_
  refine ite Iff.rfl (fun _ => ?_) fun _ => pure halike' ⟨rfl, hproperty⟩
  refine (overlay halike' hproperty (hschema.mono hgrown)).bind_same fun kinds₂ _ u u' hgrown' halike'' _ => ?_
  exact pure halike'' ⟨rfl, hproperty.mono hgrown'⟩

end Agree

end Edit

/-! ## Groups of parameters -/

/-- The properties of a group are made from parameters, and its required names are plain. -/
structure ParameterGroup.IsOf (kinds : List Kind) (group : ParameterGroup) : Prop where
  keys : ∀ key ∈ group.properties.keys, key.isJson = true
  nodup : group.properties.keys.Nodup
  properties : ∀ v ∈ group.properties.values, v.IsOf kinds [.property]
  required : ∀ v ∈ group.required, v.IsOf kinds [.plain]

namespace ParameterGroup

theorem isOf_empty : ParameterGroup.IsOf kinds {} := ⟨by simp [Entries.keys], by simp [Entries.keys],
  by simp [Entries.values], by simp⟩

variable {group : ParameterGroup} {property name : Value}

theorem IsOf.mono (h : group.IsOf kinds) (hgrown : kinds <+: kinds') : group.IsOf kinds' :=
  ⟨h.keys, h.nodup, fun v hv => (h.properties v hv).mono hgrown, fun v hv => (h.required v hv).mono hgrown⟩

theorem IsOf.put (h : group.IsOf kinds) (hkey : key.isJson = true) (hproperty : property.IsOf kinds [.property]) :
    ParameterGroup.IsOf kinds { group with properties := group.properties.put key property } where
  keys other hother := by
    rcases Entries.keys_put_cases with heq | ⟨-, heq⟩
    · exact h.keys other (heq ▸ hother)
    · rcases List.mem_append.mp (heq ▸ hother) with hmem | hmem
      · exact h.keys other hmem
      · exact List.mem_singleton.mp hmem ▸ hkey
  nodup := Entries.nodup_keys_put_any h.nodup
  properties v hv := by
    rcases Entries.mem_values_put hv with hold | rfl
    · exact h.properties v hold
    · exact hproperty
  required := h.required

theorem IsOf.require (h : group.IsOf kinds) (hname : name.IsOf kinds [.plain]) :
    ParameterGroup.IsOf kinds { group with required := group.required ++ [name] } where
  keys := h.keys
  nodup := h.nodup
  properties := h.properties
  required v hv := (List.mem_append.mp hv).elim (h.required v) fun hmem => List.mem_singleton.mp hmem ▸ hname

/-- The cell of the properties of a group. -/
theorem IsOf.fits (h : group.IsOf kinds) : (Cell.object group.properties).Fits kinds .properties where
  json _ := .object h.keys h.nodup
  keyed hkeyed := by simp [Kind.isTextKeyed] at hkeyed
  places e he := by
    obtain ⟨place, v⟩ := e
    obtain ⟨key, rfl, hmem⟩ := Cell.mem_places_object.mp he
    rw [Kind.below_properties]
    exact (h.properties v (List.mem_map_of_mem hmem)).of_subset (by decide)
  pointer hrefer := by simp [Kind.mayRefer] at hrefer

end ParameterGroup

/-- All groups are groups of parameters of the document. -/
def ParameterGroups.AreOf (kinds : List Kind) (groups : ParameterGroups) : Prop :=
  ∀ group ∈ groups.values, ParameterGroup.IsOf kinds group

namespace ParameterGroups

variable {groups : ParameterGroups}

theorem AreOf.mono (h : groups.AreOf kinds) (hgrown : kinds <+: kinds') : groups.AreOf kinds' := fun group hgroup =>
  (h group hgroup).mono hgrown

theorem AreOf.get? {group : ParameterGroup} (h : groups.AreOf kinds) (hget : groups.get? key = some group) :
    group.IsOf kinds :=
  h group (Entries.mem_values_of_get?_eq_some hget)

end ParameterGroups

namespace Edit

namespace Agree

/-- A parameter comes into the same group in both stores. -/
theorem addParameter {groups : ParameterGroups} (h : s.Matches kinds s') (hroot : root.IsOf kinds [.root])
    (hv : v.IsOf kinds Kind.referred) (hgroups : groups.AreOf kinds) :
    Agree kinds s s' (addParameter root groups v) (Edit.addParameter root groups v)
      (Same fun kinds groups => groups.AreOf kinds) := by
  have hplain : ∀ k ∈ Kind.referred, ∀ name ∈ ["in", "name", "required"], k.below (some (.text name)) = [.plain] := by
    decide
  unfold Edit.addParameter
  refine dereference_bind h hroot hv fun w _ hw => ?_
  refine entriesOf_bind h hw fun k entries entries' hk halike => ?_
  have hfield : ∀ name ∈ ["in", "name", "required"], ((entries.get? (.text name)).getD .null).IsOf kinds [.plain] :=
    fun name hname => hplain k hk name hname ▸ halike.isOf_getD
  rw [halike.get?_eq (show "in" ≠ descriptionKey by decide)]
  refine keyOf_bind h (hfield "in" (by simp)) fun location _ => ?_
  dsimp only
  refine (propertyOf h hk halike).bind_same fun kinds₁ property t t' hgrown halike' hproperty => ?_
  rw [halike.get?_eq (show "name" ≠ descriptionKey by decide)]
  cases hname : entries.get? (.text "name") with
  | none => exact misfit
  | some name =>
    have hplainName : name.IsOf kinds₁ [.plain] := by
      have hof := hfield "name" (by simp)
      rw [hname] at hof
      exact hof.mono hgrown
    have hgroup : ((groups.get? location).getD {}).IsOf kinds₁ := by
      cases hget : groups.get? location with
      | none => exact ParameterGroup.isOf_empty
      | some group => exact (hgroups.get? hget).mono hgrown
    dsimp only
    refine keyOf_bind halike' hplainName fun key hkey => ?_
    rw [halike.get?_eq (show "required" ≠ descriptionKey by decide)]
    refine isTruthy_bind halike' ((hfield "required" (by simp)).mono hgrown) (by decide) fun c => ?_
    refine pure halike' ⟨rfl, fun group hmem => ?_⟩
    rcases Entries.mem_values_put hmem with hold | rfl
    · exact (hgroups group hold).mono hgrown
    · have hput := hgroup.put (halike'.isJson_key hplainName hkey) hproperty
      split
      · exact hput.require hplainName
      · exact hput

/-- The schema of a group is the same in both stores. -/
theorem groupSchema {group : ParameterGroup} (h : s.Matches kinds s') (hgroup : group.IsOf kinds) :
    Agree kinds s s' (groupSchema group) (Edit.groupSchema group) (Same (OneOf [.schema])) := by
  have hfits : ∀ {kinds : List Kind} {properties : Value}, properties.IsOf kinds [.properties] →
      (Cell.object [(.text "type", .text "object"), (.text "properties", properties)]).Fits (kinds ++ [.schema]) .schema := by
    intro kinds properties hproperties
    refine .object ⟨by simp [Entries.keys], by simp [Entries.keys]⟩ (fun name v hmem => ?_) fun _ p hp => ?_
    · rcases List.mem_pair.mp hmem with heq | heq
      · obtain ⟨-, rfl⟩ := Prod.mk.inj heq
        exact Value.isOf_text
      · obtain ⟨hname, rfl⟩ := Prod.mk.inj heq
        obtain rfl := Scalar.text.inj hname
        exact (hproperties.mono (List.prefix_append _ _)).of_subset (by decide)
    · cases hp
  unfold Edit.groupSchema
  refine (newObject h (.refl (hgroup.fits.mono (List.prefix_append _ _)))).bind_same
    fun kinds₁ properties t t' hgrown halike hproperties => ?_
  dsimp only
  refine ite Iff.rfl (fun _ => ?_) fun _ => ?_
  · exact newObject halike (.refl (hfits hproperties))
  · refine (newList (k := .plain) halike fun w hw => (hgroup.required w hw).mono hgrown).bind_same
      fun kinds₂ required u u' hgrown' halike' hrequired => ?_
    have hbelow : required.IsOf (kinds₂ ++ [.schema]) (Kind.schema.below (some (.text "required"))) :=
      hrequired.mono (List.prefix_append _ _)
    exact newObject halike' (.refl ((hfits (hproperties.mono hgrown')).put hbelow (by decide)))

theorem groupSchema? {group : Option ParameterGroup} (h : s.Matches kinds s') (hgroup : ∀ g ∈ group, g.IsOf kinds) :
    Agree kinds s s' (groupSchema? group) (Edit.groupSchema? group)
      (Same fun kinds schema => ∀ v ∈ schema, v.IsOf kinds [.schema]) := by
  cases group with
  | none => exact pure h ⟨rfl, by simp⟩
  | some group =>
    refine (groupSchema h (hgroup group rfl)).bind_same fun kinds₁ schema t t' _ halike hschema => ?_
    exact pure halike ⟨rfl, fun v hv => Option.mem_some_iff.mp hv ▸ hschema⟩

/-- The parameters of an operation are grouped to the same schemas in both stores. -/
theorem groupParameters {parameters : Value} (h : s.Matches kinds s') (hroot : root.IsOf kinds [.root])
    (hparameters : parameters.IsOf kinds [.parameters]) :
    Agree kinds s s' (groupParameters root parameters) (Edit.groupParameters root parameters)
      (Same fun kinds schemas => ∀ v, schemas.1 = some v ∨ schemas.2 = some v → v.IsOf kinds [.schema]) := by
  unfold Edit.groupParameters
  refine elementsOf_bind h hparameters (l := [.described]) (by decide) fun items hitems => ?_
  refine (foldlM (I := fun kinds groups => groups.AreOf kinds) h (by simp [ParameterGroups.AreOf, Entries.values])
    fun declared hdeclared kinds₁ groups t t' hgrown halike hgroups => addParameter halike (hroot.mono hgrown)
      (((hitems declared hdeclared).mono hgrown).of_subset (by decide)) hgroups).bind_same
    fun kinds₁ groups t t' hgrown halike hgroups => ?_
  dsimp only
  refine ite Iff.rfl (fun _ => ?_) fun _ => ?_
  · refine (groupSchema? halike fun g hg => hgroups.get? hg).bind_same fun kinds₂ path u u' hgrown' halike' hpath => ?_
    refine (groupSchema? halike' fun g hg => (hgroups.get? hg).mono hgrown').bind_same
      fun kinds₃ query w w' hgrown'' halike'' hquery => ?_
    refine pure halike'' ⟨rfl, fun v hv => ?_⟩
    exact hv.elim (fun hv => (hpath v hv).mono hgrown'') (hquery v)
  · refine (mapM (P := fun _ key text => text = key.display) halike (fun _ _ _ _ _ => id) fun key _ kinds₂ u u' _ halike' => ?_).bind_same
      fun kinds₂ locations u u' _ halike' _ => ?_
    · exact textOf halike'
    · exact ite Iff.rfl (fun _ => refuse) fun _ => misfit

end Agree

end Edit

end DeviceApi
