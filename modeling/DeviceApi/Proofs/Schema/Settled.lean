import DeviceApi.Proofs.Schema.Catalogue
import DeviceApi.Proofs.Schema.Prepared

/-!
# Schemas in canonical form

Whether a schema can be brought into canonical form, and whether it is in canonical form already, can
be told from the tree that it holds. A schema that has been brought into canonical form can be brought
into it once more, and then every value holds what it held before.
-/

namespace DeviceApi

variable {s s' s'' : Store} {v v' w : Value} {t : Tree} {i i' id : Nat} {entries entries' : Entries Value}
  {trees : List (Scalar × Tree)} {region : Nat → Prop} {depth : Nat} {table : SchemaTable}

namespace Store

open Edit

/-- Values that hold the same tree count as present alike. -/
theorem Holds.isTruthy_eq (h : s.Holds v t) (h' : s'.Holds v' t) : s'.isTruthy v' = s.isTruthy v := by
  cases t with
  | scalar a =>
    obtain rfl := holds_scalar.mp h
    obtain rfl := holds_scalar.mp h'
    rfl
  | enclosing isObject => simp at h
  | list items =>
    obtain ⟨id, values, rfl, hcell, hheld⟩ := holds_list.mp h
    obtain ⟨id', values', rfl, hcell', hheld'⟩ := holds_list.mp h'
    have hlength := hheld.length_eq.trans hheld'.length_eq.symm
    simp only [isTruthy, shape, hcell, hcell']
    cases values <;> cases values' <;> simp_all
  | pair key value =>
    obtain ⟨id, k, x, rfl, hcell, -⟩ := holds_pair.mp h
    obtain ⟨id', k', x', rfl, hcell', -⟩ := holds_pair.mp h'
    simp [isTruthy, shape, hcell, hcell']
  | set members =>
    obtain ⟨id, rfl, hcell⟩ := holds_set.mp h
    obtain ⟨id', rfl, hcell'⟩ := holds_set.mp h'
    simp [isTruthy, shape, hcell, hcell']
  | object entries =>
    obtain ⟨id, values, rfl, hcell, hheld⟩ := holds_object.mp h
    obtain ⟨id', values', rfl, hcell', hheld'⟩ := holds_object.mp h'
    have hlength := hheld.length_eq.trans hheld'.length_eq.symm
    simp only [isTruthy, shape, hcell, hcell']
    cases values <;> cases values' <;> simp_all

section

variable (h : List.Forall₂ s.HoldsEntry entries trees) (h' : List.Forall₂ s'.HoldsEntry entries' trees)
include h h'

/-- Of two objects that hold the same trees, each has the like of what the other has under a key. -/
theorem exists_get?_like {key : Scalar} {w' : Value} (hw' : entries'.get? key = some w') :
    ∃ w u, entries.get? key = some w ∧ s.Holds w u ∧ s'.Holds w' u := by
  obtain ⟨u, hu, hwu'⟩ := exists_tree_of_get? h' hw'
  obtain ⟨w, hw, hwu⟩ := exists_value_of_get? h hu
  exact ⟨w, u, hw, hwu, hwu'⟩

theorem exists_value_like {w' : Value} (hw' : w' ∈ entries'.values) :
    ∃ w ∈ entries.values, ∃ u, s.Holds w u ∧ s'.Holds w' u := by
  obtain ⟨e', he', rfl⟩ := List.mem_map.mp hw'
  obtain ⟨f, hf, hef'⟩ := exists_mem_of_forall₂ h' he'
  obtain ⟨e, he, hef⟩ := exists_mem_of_forall₂_right h hf
  exact ⟨e.2, List.mem_map_of_mem he, f.2, hef.2, hef'.2⟩

theorem schemaType_like : schemaType s' entries' = schemaType s entries :=
  (schemaType_of_holds h').trans (schemaType_of_holds h).symm

end

/-- A value that holds the tree of an object is an object like it. -/
theorem Holds.exists_object_like (hv : s.Holds v t) (hv' : s'.Holds v' t) {id' : Nat} {entries' : Entries Value}
    (hid' : v' = .node id') (hcell' : s'.cells[id']? = some (.object entries')) :
    ∃ id entries trees, t = .object trees ∧ v = .node id ∧ s.cells[id]? = some (.object entries) ∧
      List.Forall₂ s.HoldsEntry entries trees ∧ List.Forall₂ s'.HoldsEntry entries' trees := by
  obtain ⟨trees, rfl, hheld'⟩ := hv'.object_of_shape (hid' ▸ shape_node hcell')
  obtain ⟨id, entries, hid, hcell, hheld⟩ := holds_object.mp hv
  exact ⟨id, entries, trees, rfl, hid, hcell, hheld, hheld'⟩

/-- What is visited in one of two values that hold the same tree has its like in the other. -/
theorem Visits.exists_like (h : s'.Visits v' i') (hv : s.Holds v t) (hv' : s'.Holds v' t) :
    ∃ i u, s.Visits v i ∧ s.Holds (.node i) u ∧ s'.Holds (.node i') u := by
  induction h generalizing v t with
  | here hcell' hown' =>
    obtain ⟨id, entries, trees, rfl, rfl, hcell, hheld, hheld'⟩ := hv.exists_object_like hv' rfl hcell'
    exact ⟨id, _, .here hcell ((has_of_holds hheld).trans ((has_of_holds hheld').symm.trans hown')), hv, hv'⟩
  | items hcell' hown' htype' hget' _ ih =>
    obtain ⟨id, entries, trees, rfl, rfl, hcell, hheld, hheld'⟩ := hv.exists_object_like hv' rfl hcell'
    have hown := (has_of_holds hheld).trans ((has_of_holds hheld').symm.trans hown')
    obtain ⟨x, u, hx, hxu, hxu'⟩ := exists_get?_like hheld hheld' hget'
    obtain ⟨i, y, hvisits, hy, hy'⟩ := ih hxu hxu'
    exact ⟨i, y, .items hcell hown (schemaType_like hheld hheld' ▸ htype') hx hvisits, hy, hy'⟩
  | property hcell' hown' htype' hget' hmap' hx' _ ih =>
    obtain ⟨id, entries, trees, rfl, rfl, hcell, hheld, hheld'⟩ := hv.exists_object_like hv' rfl hcell'
    have hown := (has_of_holds hheld).trans ((has_of_holds hheld').symm.trans hown')
    obtain ⟨m, u, hm, hmu, hmu'⟩ := exists_get?_like hheld hheld' hget'
    obtain ⟨map, properties, fields, rfl, rfl, hmap, hfields, hfields'⟩ := hmu.exists_object_like hmu' rfl hmap'
    obtain ⟨x, hx, y, hxy, hxy'⟩ := exists_value_like hfields hfields' hx'
    obtain ⟨i, z, hvisits, hz, hz'⟩ := ih hxy hxy'
    exact ⟨i, z, .property hcell hown (schemaType_like hheld hheld' ▸ htype') hm hmap hx hvisits, hz, hz'⟩

/-- Whether entries fit can be told from the trees that they hold. -/
theorem FitsAt.of_holds (hfits : s.FitsAt entries) (h : List.Forall₂ s.HoldsEntry entries trees)
    (h' : List.Forall₂ s'.HoldsEntry entries' trees) : s'.FitsAt entries' := by
  have htype : schemaType s' entries' = schemaType s entries := schemaType_like h h'
  refine ⟨?_, fun hobject w' hw' => ?_, fun hobject map' properties' hget' hmap' x' hx' => ?_⟩
  · rw [htype]
    refine Entries.exists_canonicalOfType_iff.mpr fun hinteger w' hw' => ?_
    obtain ⟨w, u, hw, hwu, hwu'⟩ := exists_get?_like h h' hw'
    obtain ⟨a, ha⟩ := Entries.exists_canonicalOfType_iff.mp hfits.form hinteger w hw
    exact ⟨a, by rw [hwu'.scalar?_eq, ← hwu.scalar?_eq, ha]⟩
  · obtain ⟨w, u, hw, hwu, hwu'⟩ := exists_get?_like h h' hw'
    rcases hfits.map (htype ▸ hobject) w hw with hfalse | ⟨map, properties, rfl, hmap⟩
    · exact .inl ((hwu.isTruthy_eq hwu').trans hfalse)
    · obtain ⟨map', properties', -, -, hid', hmap', -⟩ := hwu'.exists_object_like hwu rfl hmap
      exact .inr ⟨map', properties', hid', hmap'⟩
  · obtain ⟨w, u, hw, hwu, hwu'⟩ := exists_get?_like h h' hget'
    obtain ⟨map, properties, fields, rfl, rfl, hmap, hfields, hfields'⟩ := hwu.exists_object_like hwu' rfl hmap'
    obtain ⟨x, hx, y, hxy, hxy'⟩ := exists_value_like hfields hfields' hx'
    obtain ⟨id, inner, hid, hinner⟩ := hfits.properties (htype ▸ hobject) map properties hw hmap x hx
    obtain ⟨id', inner', -, -, hid', hinner', -⟩ := hxy'.exists_object_like hxy hid hinner
    exact ⟨id', inner', hid', hinner'⟩

/-- Whether a schema fits can be told from the tree that it holds. -/
theorem Fits.of_holds (h : s.Fits v) (hv : s.Holds v t) (hv' : s'.Holds v' t) : s'.Fits v' where
  exists_object := by
    obtain ⟨id, entries, hid, hcell⟩ := h.exists_object
    obtain ⟨id', entries', -, -, hid', hcell', -⟩ := hv'.exists_object_like hv hid hcell
    exact ⟨id', entries', hid', hcell'⟩
  fitsAt i' entries' hvisits' hcell' := by
    obtain ⟨i, u, hvisits, hu, hu'⟩ := hvisits'.exists_like hv hv'
    obtain ⟨_, entries, trees, rfl, heq, hcell, hheld, hheld'⟩ := hu.exists_object_like hu' rfl hcell'
    obtain rfl := Value.node.inj heq
    exact (h.fitsAt i entries hvisits hcell).of_holds hheld hheld'

/-- The schema fits, and all schemas that are visited are in canonical form already. -/
structure Settled (s : Store) (v : Value) : Prop extends Fits s v where
  form : ∀ (i : Nat) (trees : List (Scalar × Tree)), s.Visits v i → s.Holds (.node i) (.object trees) →
    Entries.canonicalOfType Tree.scalar? Tree.text (Tree.schemaType trees) trees = .ok trees

/-- Whether a schema is settled can be told from the tree that it holds. -/
theorem Settled.of_holds (h : s.Settled v) (hv : s.Holds v t) (hv' : s'.Holds v' t) : s'.Settled v' where
  toFits := h.toFits.of_holds hv hv'
  form i' trees hvisits' htrees' := by
    obtain ⟨i, u, hvisits, hu, hu'⟩ := hvisits'.exists_like hv hv'
    obtain rfl := hu'.unique htrees'
    exact h.form i trees hvisits hu

namespace Canonicalizes

variable (h : Canonicalizes s s' region)
include h

/-- A schema is settled once all nodes that are visited have been given the canonical form of their
entries. -/
theorem settled (hkeyed : s.KeyedOn region) (hfits : s.Fits v) (hregion : ∀ i, s.Visits v i → region i) :
    s'.Settled v where
  toFits := (h.resembles hkeyed).fits hfits
  form i trees hvisits htrees := by
    have hin := hregion i ((h.resembles hkeyed).visits_of_visits hfits hvisits)
    obtain ⟨entries, canonical, hcell, hcell', hform⟩ := h.canonical i hin
    obtain ⟨_, hsame, htype, -⟩ := h.object hkeyed hcell
    obtain rfl : canonical = _ := by simpa [hcell'] using hsame
    obtain ⟨_, heq, hheld⟩ := htrees.object_of_shape (shape_node hcell')
    obtain rfl := Tree.object.inj heq
    have hagain : canonical.canonicalOfType s'.scalar? .text (schemaType s' canonical) = .ok canonical := by
      rw [htype, h.scalar?_eq]
      exact Entries.canonicalOfType_canonical (hkeyed i entries hin hcell) hform fun _ => rfl
    obtain ⟨trees', hform', hheld'⟩ := holds_canonicalOfType hheld hagain
    obtain rfl : trees = trees' := by
      have hnode : s'.Holds (.node i) (.object trees') := holds_object.mpr ⟨i, canonical, rfl, hcell', hheld'⟩
      exact Tree.object.inj (htrees.unique hnode)
    rwa [schemaType_of_holds hheld] at hform'

/-- Giving nodes the canonical form of their entries changes no tree if they are in that form already. -/
theorem holds_of_settled (hsettled : ∀ (i : Nat) (trees : List (Scalar × Tree)), region i →
      s.Holds (.node i) (.object trees) →
      Entries.canonicalOfType Tree.scalar? Tree.text (Tree.schemaType trees) trees = .ok trees)
    (hv : s.Holds v t) : s'.Holds v t := by
  refine Holds.of_nodes (fun i t ht hbelow => ?_) hv
  by_cases hin : region i
  · obtain ⟨entries, canonical, hcell, hcell', hform⟩ := h.canonical i hin
    obtain ⟨trees, rfl, hheld⟩ := ht.object_of_shape (shape_node hcell)
    obtain ⟨trees', hform', hheld'⟩ := holds_canonicalOfType hheld hform
    rw [schemaType_of_holds hheld, hsettled i trees hin ht] at hform'
    obtain rfl := Except.ok.inj hform'
    refine .inr (holds_object.mpr ⟨i, canonical, rfl, hcell', ?_⟩)
    exact forall₂_imp_of_mem (fun e _ u hu he => ⟨he.1, hbelow e.2 u.2 (Tree.sizeOf_entry_lt hu) he.2⟩) hheld'
  · exact .inl (h.agree i hin)

end Canonicalizes

/-! ## Schemas that fit -/

/-- Going down from the value the bound on the depth is not met: enough of the nodes do not lie below
the value. -/
def Bounded (s : Store) (depth : Nat) (v : Value) : Prop :=
  ∃ used : Finset Nat, (∀ i ∈ used, i < s.cells.size ∧ ¬ s.Reaches v i) ∧ s.cells.size < depth + used.card

theorem bounded_size : s.Bounded (s.cells.size + 1) v := ⟨∅, by simp, by simp⟩

theorem not_bounded_zero : ¬ s.Bounded 0 v := by
  rintro ⟨used, hused, hlt⟩
  have hsub : used ⊆ Finset.range s.cells.size := fun i hi => Finset.mem_range.mpr (hused i hi).1
  have hcard := Finset.card_le_card hsub
  rw [Finset.card_range] at hcard
  omega

theorem Bounded.part {cell : Cell} (h : s.Bounded (depth + 1) (.node id)) (hproper : s.Proper (.node id))
    (hcell : s.cells[id]? = some cell) (hw : w ∈ cell.parts) : s.Bounded depth w := by
  obtain ⟨used, hused, hlt⟩ := h
  refine ⟨insert id used, fun i hi => ?_, ?_⟩
  · rcases Finset.mem_insert.mp hi with rfl | hi
    · exact ⟨lt_size_of_cell hcell, hproper.not_reaches_part hcell hw⟩
    · exact ⟨(hused i hi).1, fun hreach => (hused i hi).2 (.part hcell hw hreach)⟩
  · rw [Finset.card_insert_of_notMem fun hmem => (hused id hmem).2 (.here id)]
    omega

theorem Bounded.mono (h : s.Bounded depth v) : s.Bounded (depth + 1) v := by
  obtain ⟨used, hused, hlt⟩ := h
  exact ⟨used, hused, by omega⟩

theorem Bounded.trims (h : s.Bounded depth v) (htrims : s.Trims s' region) : s'.Bounded depth v := by
  obtain ⟨used, hused, hlt⟩ := h
  rw [← htrims.size_eq] at hlt
  exact ⟨used, fun i hi => ⟨htrims.size_eq ▸ (hused i hi).1, fun hreach =>
    (hused i hi).2 (htrims.reaches hreach)⟩, hlt⟩

end Store

namespace Edit

open Store

section

variable {canonical : Entries Value}
  (ih : ∀ {v : Value} {s : Store}, s.Proper v → s.Bounded depth v → s.Fits v →
    ∃ s', Runs (canonicalizeWithin depth v) s () s')
  (hproper : s.Proper (.node id)) (hbounded : s.Bounded (depth + 1) (.node id)) (hfits : s.Fits (.node id))
  (hcell : s.cells[id]? = some (.object entries)) (hown : entries.has referenceKey = false)
  (hset : s.Canonicalizes (s.set id (.object canonical)) (· = id))
include ih hproper hbounded hfits hcell hown hset

/-- The schemas of an object can be gone through one after the other. -/
theorem exists_runs_properties {map : Nat} {properties : Entries Value}
    (htype : schemaType s entries = .text "object") (hget : entries.get? "properties" = some (.node map))
    (hmap : s.cells[map]? = some (.object properties)) :
    ∃ s', Runs (foldEntries (.node map) () fun _ _ property => canonicalizeWithin depth property)
      (s.set id (.object canonical)) () s' := by
  have hpart : .node map ∈ (Cell.object entries).parts := Entries.mem_values_of_get? hget
  have hmapProper := hproper.part hcell hpart
  have hinit : s.Canonicalizes (s.set id (.object canonical)) (s.VisitsFirst id properties 0) :=
    hset.congr fun i => by simp [VisitsFirst]
  have hstep : ∀ k key w t, s.Canonicalizes t (s.VisitsFirst id properties k) →
      properties[k]? = some (key, w) → ∃ t', Runs (canonicalizeWithin depth w) t () t' ∧
        s.Canonicalizes t' (s.VisitsFirst id properties (k + 1)) := by
    intro k key w t hcanon hentry
    have hw : w ∈ (Cell.object properties).parts := List.mem_map_of_mem (List.mem_of_getElem? hentry)
    have hkeyed : s.KeyedOn (s.VisitsFirst id properties k) := fun i before hi =>
      hproper.keyed i before (hi.reaches_and_ne hproper hcell hget hmap).1
    have hproper' := hcanon.trims.proper (hmapProper.part hmap hw)
    have hfits' := (hcanon.resembles hkeyed).fits (hfits.property hcell hown htype hget hmap hw)
    have hbounded' := (hbounded.part hproper hcell hpart).mono.part hmapProper hmap hw
    obtain ⟨t', hrun⟩ := ih hproper' (hbounded'.trims hcanon.trims) hfits'
    obtain ⟨-, hcanon'⟩ := canonicalizes_canonicalizeWithin hproper' hrun
    exact ⟨t', hrun, (hcanon.next hkeyed hfits' hcanon').2.congr fun i => (visitsFirst_succ hentry).symm⟩
  have hloop : ∃ s', Runs (foldEntries (.node map) () fun _ _ property => canonicalizeWithin depth property)
      (s.set id (.object canonical)) () s' ∧ s.Canonicalizes s' (s.VisitsFirst id properties properties.length) :=
    exists_runs_foldEntries (fun k t => s.Canonicalizes t (s.VisitsFirst id properties k)) hinit
      (fun k t hcanon => hcanon.shape_properties hproper hcell hget hmap) hstep
  exact hloop.imp fun _ => And.left

/-- The schemas directly below a schema that fits can be brought into canonical form. -/
theorem exists_runs_canonicalizeBelow :
    ∃ s', Runs (canonicalizeBelow depth s entries) (s.set id (.object canonical)) () s' := by
  have hkeyed : s.KeyedOn (· = id) := fun i before hi => hproper.keyed i before (hi ▸ .here i)
  unfold canonicalizeBelow
  split
  · next htype =>
    split
    · next hitems =>
      obtain ⟨w, hget⟩ : ∃ w, entries.get? "items" = some w := by
        cases hget : entries.get? "items" with
        | none => simp [hget, Store.entries?, shape] at hitems
        | some w => exact ⟨w, rfl⟩
      have hpart : w ∈ (Cell.object entries).parts := Entries.mem_values_of_get? hget
      rw [hget, Option.getD_some] at hitems ⊢
      exact ih (hset.trims.proper (hproper.part hcell hpart))
        ((hbounded.part hproper hcell hpart).trims hset.trims)
        ((hset.resembles hkeyed).fits (hfits.items hcell hown htype hget hitems))
    · exact ⟨_, runs_pure.mpr ⟨rfl, rfl⟩⟩
  · next htype =>
    cases htruthy : (s.set id (.object canonical)).isTruthy ((entries.get? "properties").getD .null) with
    | false => exact ⟨_, runs_bind.mpr ⟨false, _, runs_isTruthy.mpr ⟨htruthy, rfl⟩, runs_pure.mpr ⟨rfl, rfl⟩⟩⟩
    | true =>
      obtain ⟨w, hget⟩ : ∃ w, entries.get? "properties" = some w := by
        cases hget : entries.get? "properties" with
        | none => simp [hget, Store.isTruthy, shape, Scalar.isTruthy] at htruthy
        | some w => exact ⟨w, rfl⟩
      have hpart : w ∈ (Cell.object entries).parts := Entries.mem_values_of_get? hget
      rcases (hfits.fitsAt id entries (.here hcell hown) hcell).map htype w hget with
        hfalse | ⟨map, properties, rfl, hmap⟩
      · obtain ⟨u, hu⟩ := (hproper.part hcell hpart).exists_holds
        have hsame := hu.isTruthy_eq (@Store.Holds.set s w u id (.object canonical) hu (hproper.not_reaches_part hcell hpart))
        rw [hget, Option.getD_some, hsame, hfalse] at htruthy
        cases htruthy
      · obtain ⟨s', hrun⟩ := exists_runs_properties ih hproper hbounded hfits hcell hown hset htype hget hmap
        exact ⟨s', runs_bind.mpr ⟨true, _, runs_isTruthy.mpr ⟨htruthy, rfl⟩, by rwa [hget]⟩⟩
  · exact ⟨_, runs_pure.mpr ⟨rfl, rfl⟩⟩

end

/-- A schema that fits can be brought into canonical form. -/
theorem exists_runs_canonicalizeWithin (hproper : s.Proper v) (hbounded : s.Bounded depth v)
    (hfits : s.Fits v) : ∃ s', Runs (canonicalizeWithin depth v) s () s' := by
  induction depth generalizing s v with
  | zero => exact absurd hbounded not_bounded_zero
  | succ depth ih =>
    cases hreference : s.isReference v with
    | true => exact ⟨s, runs_canonicalizeWithin.mpr (by rw [if_pos hreference])⟩
    | false =>
      obtain ⟨id, entries, rfl, hcell⟩ := hfits.exists_object
      have hown : entries.has referenceKey = false := by
        simpa [Store.isReference, entries?_eq_some.mpr ⟨id, shape_node hcell⟩] using hreference
      obtain ⟨canonical, hform⟩ := (hfits.fitsAt id entries (.here hcell hown) hcell).form
      obtain ⟨s', hrun⟩ := exists_runs_canonicalizeBelow ih hproper hbounded hfits hcell hown
        (canonicalizes_set hcell hform)
      refine ⟨s', runs_canonicalizeWithin.mpr ?_⟩
      rw [if_neg (by simp [hreference])]
      exact ⟨id, entries, canonical, shape_node hcell, hform, hrun⟩

theorem exists_runs_canonicalize (hproper : s.Proper v) (hfits : s.Fits v) :
    ∃ s', Runs (canonicalize v) s () s' := by
  obtain ⟨s', hrun⟩ := exists_runs_canonicalizeWithin hproper bounded_size hfits
  exact ⟨s', by rwa [canonicalize, runs_get_bind]⟩

/-- What has been brought into canonical form is settled. -/
theorem settled_of_canonicalize (hproper : s.Proper v) (h : Runs (canonicalize v) s () s') : s'.Settled v := by
  obtain ⟨hfits, hcanon⟩ := canonicalizes_canonicalize hproper h
  exact hcanon.settled (fun i entries hi => hproper.keyed i entries hi.reaches) hfits fun _ => id

/-- Bringing a schema into canonical form once more changes no tree. -/
theorem holds_of_canonicalize (hproper : s.Proper v) (hsettled : s.Settled v)
    (h : Runs (canonicalize v) s () s') (hw : s.Holds w t) : s'.Holds w t :=
  (canonicalizes_canonicalize hproper h).2.holds_of_settled hsettled.form hw

/-! ## Tables -/

section

variable {root T : Nat} {V : Entries Value} (h : Ready s root T V)
include h

/-- The schemas of a table behind gates hold trees without repeated keys. -/
theorem Ready.proper {e : Scalar × Value} (he : e ∈ V) : s.Proper e.2 := by
  obtain ⟨c, K, hgated, hsound⟩ := h.exists_gated
  have hfree := free_of_mem_values hgated h.cell (List.mem_map_of_mem he)
  exact ⟨hsound.exists_holds hfree.linked, fun i entries hi hcell =>
    hsound.nodup i entries (hgated.free_of_reaches passage_tableGates hfree hi i rfl).1 hcell⟩

variable (hnode : table.schemas = .node T)
include hnode

/-- Once the table has been brought into canonical form, its schemas are settled. -/
theorem Ready.settled_of_canonicalizeTable (hrun : Runs (Edit.canonicalizeTable table) s () s') :
    ∀ e ∈ V, s'.Settled e.2 := by
  rw [canonicalizeTable_eq] at hrun
  have hkeyed : ∀ done : Entries Value, (∀ e ∈ done, e ∈ V) →
      s.KeyedOn fun i => ∃ e ∈ done, s.Visits e.2 i := by
    rintro done hsub i entries ⟨e, he, hi⟩
    exact (h.proper (hsub e he)).keyed i entries hi.reaches
  obtain ⟨id, V', hshape, hfits, hcanon⟩ := hrun.forSchemas_induct
    (fun done t => (∀ e ∈ done, s.Fits e.2) ∧ s.Canonicalizes t fun i => ∃ e ∈ done, s.Visits e.2 i)
    ⟨by simp, (Canonicalizes.refl s).congr fun i => by simp⟩ (by
      rintro id V' done name schema rest t t' hshape hdone ⟨hfits, hcanon⟩ hcases
      obtain ⟨rfl, rfl⟩ : T = id ∧ V = V' := by simpa [hnode, Store.shape_node h.cell] using hshape
      have hmem : (name, schema) ∈ V := hdone ▸ by simp
      have hsub : ∀ e ∈ done, e ∈ V := fun e he => hdone ▸ List.mem_append_left _ he
      have hnext : s.Fits schema ∧ s.Canonicalizes t' fun i =>
          (∃ e ∈ done, s.Visits e.2 i) ∨ s.Visits schema i := by
        rcases hcases with ⟨hreference, rfl⟩ | ⟨-, hbody⟩
        · have hfits' : t.Fits schema := ⟨exists_object_of_isReference hreference,
            fun i _ hi => absurd hi (not_visits_of_isReference hreference)⟩
          exact hcanon.next (hkeyed done hsub) hfits' ((Canonicalizes.refl t).congr fun i => by
            simp [not_visits_of_isReference hreference])
        · obtain ⟨hfits', hstep⟩ := canonicalizes_canonicalize (hcanon.trims.proper (h.proper hmem)) hbody
          exact hcanon.next (hkeyed done hsub) hfits' hstep
      refine ⟨fun e he => ?_, hnext.2.congr fun i => ?_⟩
      · rcases List.mem_append.mp he with hold | hnew
        · exact hfits e hold
        · exact List.mem_singleton.mp hnew ▸ hnext.1
      · simp only [List.mem_append, List.mem_singleton, or_and_right, exists_or, exists_eq_left])
  obtain ⟨rfl, rfl⟩ : T = id ∧ V = V' := by simpa [hnode, Store.shape_node h.cell] using hshape
  exact fun e he => hcanon.settled (hkeyed V fun _ he => he) (hfits e he) fun i hi => ⟨e, he, hi⟩

/-- A table whose schemas are settled can be brought into canonical form once more, and then every value
holds what it held before. -/
theorem Ready.exists_runs_canonicalizeTable (hsettled : ∀ e ∈ V, s.Settled e.2) :
    ∃ s', Runs (Edit.canonicalizeTable table) s () s' ∧ ∀ v t, s.Holds v t → s'.Holds v t := by
  have hshape : s.shape table.schemas = .object T V := hnode ▸ Store.shape_node h.cell
  have hstep : ∀ e ∈ V, ∀ t, (s.Trims t (fun _ => True) ∧ ∀ v u, s.Holds v u → t.Holds v u) →
      t.isReference e.2 = false → ∃ t', Runs (canonicalize e.2) t () t' ∧
        (s.Trims t' (fun _ => True) ∧ ∀ v u, s.Holds v u → t'.Holds v u) := by
    rintro e he t ⟨htrims, hkept⟩ -
    obtain ⟨u, hu⟩ := (h.proper he).exists_holds
    have hproper := htrims.proper (h.proper he)
    have hsettled' := (hsettled e he).of_holds hu (hkept _ _ hu)
    obtain ⟨t', hrun⟩ := exists_runs_canonicalize hproper hsettled'.toFits
    exact ⟨t', hrun, htrims.trans ((trims_canonicalize hrun).mono fun _ _ => trivial),
      fun v u hv => holds_of_canonicalize hproper hsettled' hrun (hkept v u hv)⟩
  have hloop : ∃ s', Runs (forSchemas table fun _ schema => canonicalize schema) s () s' ∧
      s.Trims s' (fun _ => True) ∧ ∀ v u, s.Holds v u → s'.Holds v u :=
    exists_runs_forSchemas hshape (fun t => s.Trims t (fun _ => True) ∧ ∀ v u, s.Holds v u → t.Holds v u)
      ⟨.refl s _, fun _ _ hv => hv⟩ hstep
  exact hloop.imp fun _ h => ⟨h.1, h.2.2⟩

end

end Edit

namespace Procedure

open Edit

variable {E : List (Scalar × Tree)} {C : Entries Value} {t t' : Session} (hE : ∀ e ∈ E, e.2.IsJson)
include hE

/-- The schemas of a catalogue that has been loaded are settled. -/
theorem settled_of_loadCatalogue (h : Runs (loadCatalogue (.object E)) t C t') :
    ∀ v ∈ C.values, t'.store.Settled v := by
  unfold loadCatalogue at h
  induction E generalizing t C with
  | nil =>
    obtain ⟨rfl, rfl⟩ := runs_pure.mp h
    simp [Entries.values]
  | cons e rest ih =>
    obtain ⟨first, t₁, hfirst, schemas, hrest, rfl⟩ := runs_mapM_cons.mp h
    simp only [runs_bind, runs_monadLift, runs_loadTree, runs_pure] at hfirst
    obtain ⟨node, _, ⟨_, ⟨rfl, rfl⟩, rfl⟩, _, _, ⟨store, hcanonical, rfl⟩, rfl, rfl⟩ := hfirst
    have hproper := (Store.holds_load (hE e List.mem_cons_self) t.store).proper (hE e List.mem_cons_self)
    obtain ⟨u, hu⟩ := ((trims_canonicalize hcanonical).proper hproper).exists_holds
    have hgrows := (adds_loadCatalogue (E := rest) hrest).2.toGrows
    rintro v (- | ⟨-, hv⟩)
    · exact (settled_of_canonicalize hproper hcanonical).of_holds hu (hu.extend hgrows)
    · exact ih (fun e he => hE e (List.mem_cons_of_mem _ he)) hrest v hv

/-- A catalogue that has been loaded once can be loaded again. -/
theorem exists_runs_loadCatalogue {u : Session} (h : Runs (loadCatalogue (.object E)) t C t') :
    ∃ C' u', Runs (loadCatalogue (.object E)) u C' u' := by
  unfold loadCatalogue at h ⊢
  induction E generalizing t C u with
  | nil => exact ⟨[], u, runs_pure.mpr ⟨rfl, rfl⟩⟩
  | cons e rest ih =>
    obtain ⟨first, t₁, hfirst, schemas, hrest, rfl⟩ := runs_mapM_cons.mp h
    simp only [runs_bind, runs_monadLift, runs_loadTree, runs_pure] at hfirst
    obtain ⟨node, _, ⟨_, ⟨rfl, rfl⟩, rfl⟩, _, _, ⟨store, hcanonical, rfl⟩, rfl, rfl⟩ := hfirst
    have hjson := hE e List.mem_cons_self
    have hload := Store.holds_load hjson t.store
    have hload' := Store.holds_load hjson u.store
    have hfits := (canonicalizes_canonicalize (hload.proper hjson) hcanonical).1.of_holds hload hload'
    obtain ⟨store', hcanonical'⟩ := exists_runs_canonicalize (hload'.proper hjson) hfits
    obtain ⟨C', u', hrest'⟩ := ih (fun e he => hE e (List.mem_cons_of_mem _ he)) hrest
      (u := { u with store := store' })
    refine ⟨(e.1, (u.store.load e.2).1) :: C', u', runs_mapM_cons.mpr ⟨_, { u with store := store' }, ?_, C', hrest', rfl⟩⟩
    simp only [runs_bind, runs_monadLift, runs_loadTree, runs_pure]
    exact ⟨_, _, ⟨_, ⟨rfl, rfl⟩, rfl⟩, _, _, ⟨store', hcanonical', rfl⟩, rfl, rfl⟩

end Procedure

end DeviceApi
