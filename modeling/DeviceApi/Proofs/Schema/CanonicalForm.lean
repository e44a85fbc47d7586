import DeviceApi.Proofs.Document.Effects
import DeviceApi.Proofs.Document.Places
import DeviceApi.Proofs.Schema.Visits

/-!
# The canonical form of a tree

The canonical form of a schema can be told from the tree of the schema alone. A value that holds a
tree and shares no nodes below it holds the canonical form of the tree once all nodes that are
visited have been given theirs.
-/

namespace DeviceApi

namespace Tree

/-- The scalar that a tree is. -/
def scalar? : Tree → Option Scalar
  | .scalar a => some a
  | _ => none

/-- The type that the entries of a schema state. -/
def schemaType (entries : List (Scalar × Tree)) : Scalar :=
  ((Entries.get? "type" entries).bind scalar?).getD .null

mutual

/-- The tree in canonical form. What is no schema, and a schema without a canonical form, stays as
it is. -/
def canonical : Tree → Tree
  | .object entries =>
    if Entries.has entries referenceKey then .object entries
    else
      match schemaType entries with
      | .text "array" => .object (canonicalItems entries)
      | .text "object" => .object (canonicalProperties entries)
      | type =>
        match Entries.canonicalOfType scalar? text type entries with
        | .ok canonical => .object canonical
        | .error _ => .object entries
  | t => t

/-- The entries of an array in canonical form. -/
def canonicalItems : List (Scalar × Tree) → List (Scalar × Tree)
  | [] => []
  | (key, t) :: rest =>
    (key, if key = .text "items" then canonical t else t) :: canonicalItems rest

/-- The entries of an object in canonical form. -/
def canonicalProperties : List (Scalar × Tree) → List (Scalar × Tree)
  | [] => []
  | (key, .object schemas) :: rest =>
    (key, .object (if key = .text "properties" then canonicalSchemas schemas else schemas)) ::
      canonicalProperties rest
  | (key, t) :: rest => (key, t) :: canonicalProperties rest

/-- The schemas of an object in canonical form. -/
def canonicalSchemas : List (Scalar × Tree) → List (Scalar × Tree)
  | [] => []
  | (key, t) :: rest => (key, canonical t) :: canonicalSchemas rest

end

/-- The canonical form of an object is an object. -/
theorem exists_canonical_object {entries : List (Scalar × Tree)} :
    ∃ entries', canonical (.object entries) = .object entries' := by
  rw [canonical]
  repeat' split
  all_goals exact ⟨_, rfl⟩

end Tree

namespace Store

variable {s s' : Store} {v w : Value} {t : Tree} {i j id : Nat} {key : Scalar}
  {values : Entries Value} {entries : List (Scalar × Tree)} {region : Nat → Prop}

theorem Holds.scalar?_eq (h : s.Holds v t) : s.scalar? v = t.scalar? := by
  cases t with
  | scalar a =>
    obtain rfl := holds_scalar.mp h
    rfl
  | enclosing isObject => simp at h
  | list items =>
    obtain ⟨id, values, rfl, hcell, -⟩ := holds_list.mp h
    simp [scalar?, shape, hcell, Tree.scalar?]
  | pair key value =>
    obtain ⟨id, k, w, rfl, hcell, -⟩ := holds_pair.mp h
    simp [scalar?, shape, hcell, Tree.scalar?]
  | set members =>
    obtain ⟨id, rfl, hcell⟩ := holds_set.mp h
    simp [scalar?, shape, hcell, Tree.scalar?]
  | object entries =>
    obtain ⟨id, values, rfl, hcell, -⟩ := holds_object.mp h
    simp [scalar?, shape, hcell, Tree.scalar?]

section

variable (h : List.Forall₂ s.HoldsEntry values entries)
include h

theorem bind_scalar?_of_holds : (values.get? key).bind s.scalar? =
    (Entries.get? key entries).bind Tree.scalar? := by
  rcases get?_of_holds key h with ⟨hnone, hnone'⟩ | ⟨w, u, hw, hu, hheld⟩
  · rw [hnone, hnone']
    rfl
  · rw [hw, hu]
    exact hheld.scalar?_eq

theorem schemaType_of_holds : Edit.schemaType s values = Tree.schemaType entries := by
  rw [Edit.schemaType, Tree.schemaType, bind_scalar?_of_holds h]

/-- Entries hold what follows from what they held if each of them does. -/
theorem holds_map {f : Scalar × Tree → Tree}
    (hentry : ∀ e ∈ values, ∀ u ∈ entries, s.HoldsEntry e u → s'.Holds e.2 (f u)) :
    List.Forall₂ s'.HoldsEntry values (entries.map fun u => (u.1, f u)) :=
  List.forall₂_map_right_iff.mpr
    (forall₂_imp_of_mem (fun e he u hu hold => ⟨hold.1, hentry e he u hu hold⟩) h)

theorem holds_dropIf {p : Scalar → Bool} : List.Forall₂ s.HoldsEntry
    (values.dropIf s.scalar? key p) (Entries.dropIf Tree.scalar? key p entries) := by
  unfold Entries.dropIf
  rw [bind_scalar?_of_holds h]
  split
  · split
    · exact holds_remove h
    · exact h
  · exact h

theorem holds_dropBounds {format : Scalar} : List.Forall₂ s.HoldsEntry
    (Entries.canonicalInteger.dropBounds s.scalar? format values)
    (Entries.canonicalInteger.dropBounds Tree.scalar? format entries) := by
  unfold Entries.canonicalInteger.dropBounds
  split
  · exact h
  · exact holds_dropIf (holds_dropIf h)

theorem holds_canonicalInteger {canonical : Entries Value}
    (hform : values.canonicalInteger s.scalar? .text = .ok canonical) :
    ∃ entries', Entries.canonicalInteger Tree.scalar? Tree.text entries = .ok entries' ∧
      List.Forall₂ s.HoldsEntry canonical entries' := by
  unfold Entries.canonicalInteger at hform ⊢
  rcases get?_of_holds (.text "format") h with ⟨hnone, hnone'⟩ | ⟨w, u, hw, hu, hheld⟩
  · rw [hnone] at hform
    rw [hnone']
    obtain rfl := Except.ok.inj hform
    exact ⟨_, rfl, holds_dropBounds (holds_put h (holds_scalar.mpr rfl))⟩
  · rw [hw] at hform
    rw [hu]
    dsimp only at hform ⊢
    rw [hheld.scalar?_eq] at hform
    split at hform
    · cases hform
    · obtain rfl := Except.ok.inj hform
      exact ⟨_, rfl, holds_dropBounds h⟩

/-- The canonical form of entries that spell out trees spells out the canonical form of these. -/
theorem holds_canonicalOfType {type : Scalar} {canonical : Entries Value}
    (hform : values.canonicalOfType s.scalar? .text type = .ok canonical) :
    ∃ entries', Entries.canonicalOfType Tree.scalar? Tree.text type entries = .ok entries' ∧
      List.Forall₂ s.HoldsEntry canonical entries' := by
  unfold Entries.canonicalOfType at hform ⊢
  split at hform
  · obtain rfl := Except.ok.inj hform
    exact ⟨_, rfl, holds_dropIf h⟩
  · obtain rfl := Except.ok.inj hform
    exact ⟨_, rfl, holds_dropIf h⟩
  · obtain rfl := Except.ok.inj hform
    exact ⟨_, rfl, holds_dropIf h⟩
  · cases hinteger : values.canonicalInteger s.scalar? .text with
    | error m =>
      rw [hinteger] at hform
      cases hform
    | ok middle =>
      rw [hinteger] at hform
      obtain rfl := Except.ok.inj hform
      obtain ⟨middle', hmiddle', hheld⟩ := holds_canonicalInteger h hinteger
      exact ⟨_, by rw [hmiddle']; rfl, holds_dropIf hheld⟩
  · obtain rfl := Except.ok.inj hform
    exact ⟨_, rfl, h⟩

end

/-- Entries of one object below the value that have nodes in common have the same value, and the same key if it is a
text. -/
def Unshared (s : Store) (v : Value) : Prop :=
  ∀ (i : Nat) (entries : Entries Value), s.Reaches v i → s.cells[i]? = some (.object entries) →
    ∀ e ∈ entries, ∀ e' ∈ entries, ∀ j, s.Reaches e.2 j → s.Reaches e'.2 j →
      e.2 = e'.2 ∧ ∀ key : String, e.1 = .text key → e'.1 = .text key

theorem Unshared.part {cell : Cell} (h : s.Unshared (.node id)) (hcell : s.cells[id]? = some cell)
    (hpart : w ∈ cell.parts) : s.Unshared w := fun i entries hi =>
  h i entries (.part hcell hpart hi)

/-- What is visited below an object lies below its items or below one of its properties. -/
theorem Unshared.of_visitsBelow (h : s.Unshared (.node id)) (hcell : s.cells[id]? = some (.object values))
    {e : Scalar × Value} (he : e ∈ values) (hi : s.Reaches e.2 i) (hbelow : s.VisitsBelow values i) :
    (Edit.schemaType s values = .text "array" ∧ e.1 = .text "items" ∧ s.Visits e.2 i) ∨
      Edit.schemaType s values = .text "object" ∧ e.1 = .text "properties" ∧ ∃ map properties w,
        e.2 = .node map ∧ s.cells[map]? = some (.object properties) ∧ w ∈ properties.values ∧
          s.Visits w i := by
  rcases hbelow with ⟨htype, w, hget, hvisits⟩ | ⟨htype, map, properties, w, hget, hmap, hw, hvisits⟩
  · obtain ⟨rfl, hkey⟩ := h id values (.here id) hcell _ (Entries.mem_of_get? hget) _ he i hvisits.reaches hi
    exact .inl ⟨htype, hkey _ rfl, hvisits⟩
  · obtain ⟨heq, hkey⟩ := h id values (.here id) hcell _ (Entries.mem_of_get? hget) _ he i
      (.part hmap hw hvisits.reaches) hi
    exact .inr ⟨htype, hkey _ rfl, map, properties, w, heq.symm, hmap, hw, hvisits⟩

theorem canonicalItems_eq : Tree.canonicalItems entries =
    entries.map fun u => (u.1, if u.1 = .text "items" then u.2.canonical else u.2) := by
  induction entries with
  | nil => rfl
  | cons u rest ih => rw [Tree.canonicalItems, ih, List.map_cons]

theorem canonicalSchemas_eq :
    Tree.canonicalSchemas entries = entries.map fun u => (u.1, u.2.canonical) := by
  induction entries with
  | nil => rfl
  | cons u rest ih => rw [Tree.canonicalSchemas, ih, List.map_cons]

theorem canonicalProperties_eq : Tree.canonicalProperties entries =
    entries.map fun u => (u.1, match u.2 with
      | .object schemas =>
        .object (if u.1 = .text "properties" then Tree.canonicalSchemas schemas else schemas)
      | t => t) := by
  induction entries with
  | nil => rfl
  | cons u rest ih =>
    obtain ⟨key, t⟩ := u
    cases t <;> rw [Tree.canonicalProperties, ih, List.map_cons] <;> simp

namespace Canonicalizes

section

variable (h : s.Canonicalizes s' region) (hv : s.Holds (.node id) (.object entries))
  (hcell : s.cells[id]? = some (.object values)) (hheld : List.Forall₂ s.HoldsEntry values entries)
  (hkeyed : s.KeyedOn (s.Reaches (.node id))) (hunshared : s.Unshared (.node id))
  (hregion : ∀ i, s.Reaches (.node id) i → (region i ↔ i = id ∨ s.VisitsBelow values i))
  (ih : ∀ w u, sizeOf u < sizeOf (Tree.object entries) → s.Holds w u → s.KeyedOn (s.Reaches w) →
    s.Unshared w → (∀ i, s.Reaches w i → (region i ↔ s.Visits w i)) → s'.Holds w u.canonical)
include h hv hcell hheld hkeyed hunshared hregion

omit h hheld in
/-- Below an entry the nodes of the region are those that are visited below the object. -/
theorem region_below {e : Scalar × Value} (he : e ∈ values) (hi : s.Reaches e.2 i) :
    region i ↔ s.VisitsBelow values i := by
  have hpart : e.2 ∈ (Cell.object values).parts := List.mem_map_of_mem he
  rw [hregion i (.part hcell hpart hi), or_iff_right]
  rintro rfl
  exact hv.not_reaches_of_part hcell hpart hi

omit hheld in
/-- An entry below which nothing is visited holds what it held. -/
theorem holds_entry {e : Scalar × Value} (he : e ∈ values) (hold : s.Holds e.2 t)
    (hnot : ∀ i, s.Reaches e.2 i → ¬ s.VisitsBelow values i) : s'.Holds e.2 t :=
  hold.frame fun i hi => h.agree i fun hin =>
    hnot i hi ((region_below hv hcell hkeyed hunshared hregion he hi).mp hin)

include ih

/-- The items of an array are brought into canonical form. -/
theorem holds_canonicalItems (htype : Edit.schemaType s values = .text "array") :
    List.Forall₂ s'.HoldsEntry values (Tree.canonicalItems entries) := by
  have hnodup := hkeyed id values (.here id) hcell
  rw [canonicalItems_eq]
  refine holds_map hheld fun e he u hu hold => ?_
  have hpart : e.2 ∈ (Cell.object values).parts := List.mem_map_of_mem he
  by_cases hkey : u.1 = .text "items"
  · rw [if_pos hkey]
    have hget : values.get? "items" = some e.2 := Entries.get?_of_mem hnodup (hkey ▸ hold.1 ▸ he)
    refine ih e.2 u.2 (Tree.sizeOf_entry_lt hu) hold.2 (fun i before hi => hkeyed i before (.part hcell hpart hi))
      (hunshared.part hcell hpart) fun i hi => ?_
    rw [region_below hv hcell hkeyed hunshared hregion he hi]
    simp [VisitsBelow, htype, hget]
  · rw [if_neg hkey]
    refine holds_entry h hv hcell hkeyed hunshared hregion he hold.2 fun i hi hbelow => ?_
    rcases hunshared.of_visitsBelow hcell he hi hbelow with ⟨-, hitems, -⟩ | ⟨htype', -⟩
    · exact hkey (hold.1.symm.trans hitems)
    · simp [htype] at htype'

/-- The schemas of an object are brought into canonical form. -/
theorem holds_canonicalProperties (htype : Edit.schemaType s values = .text "object") :
    List.Forall₂ s'.HoldsEntry values (Tree.canonicalProperties entries) := by
  have hnodup := hkeyed id values (.here id) hcell
  rw [canonicalProperties_eq]
  refine holds_map hheld ?_
  rintro ⟨key, w⟩ he ⟨_, t⟩ hu ⟨rfl, hw⟩
  dsimp only at hu hw ⊢
  have hpart : w ∈ (Cell.object values).parts := List.mem_map_of_mem he
  have hframe : (∀ schemas, t = .object schemas → key ≠ .text "properties") → s'.Holds w t := by
    intro hnot
    refine holds_entry h hv hcell hkeyed hunshared hregion he hw fun i hi hbelow => ?_
    rcases hunshared.of_visitsBelow hcell he hi hbelow with
      ⟨htype', -⟩ | ⟨-, hkey, map, properties, x, hnode, hmap, -⟩
    · simp [htype] at htype'
    · obtain ⟨schemas, heq, -⟩ := hw.object_of_shape (hnode ▸ shape_node hmap)
      exact hnot schemas heq hkey
  cases t with
  | object schemas =>
    dsimp only
    by_cases hkey : key = .text "properties"
    · rw [if_pos hkey]
      obtain ⟨map, properties, rfl, hmap, hinner⟩ := holds_object.mp hw
      have hbelow : ∀ i, s.Reaches (.node map) i → (region i ↔ ∃ x ∈ properties.values, s.Visits x i) := by
        intro i hi
        have hget : values.get? "properties" = some (.node map) := Entries.get?_of_mem hnodup (hkey ▸ he)
        rw [region_below hv hcell hkeyed hunshared hregion he hi]
        simp [VisitsBelow, htype, hget, hmap]
      have hmap' : s'.cells[map]? = some (.object properties) := by
        refine (h.agree map fun hin => ?_).trans hmap
        obtain ⟨x, hx, hvisits⟩ := (hbelow map (.here map)).mp hin
        exact hw.not_reaches_of_part hmap hx hvisits.reaches
      rw [canonicalSchemas_eq]
      refine holds_object.mpr ⟨map, properties, rfl, hmap', holds_map hinner fun p hp q hq hschema => ?_⟩
      have hin : p.2 ∈ (Cell.object properties).parts := List.mem_map_of_mem hp
      refine ih p.2 q.2 ((Tree.sizeOf_entry_lt hq).trans (Tree.sizeOf_entry_lt hu)) hschema.2
        (fun i before hi => hkeyed i before (.part hcell hpart (.part hmap hin hi)))
        ((hunshared.part hcell hpart).part hmap hin) fun i hi => ?_
      rw [hbelow i (.part hmap hin hi)]
      refine ⟨?_, fun hvisits => ⟨p.2, hin, hvisits⟩⟩
      rintro ⟨x, hx, hvisits⟩
      obtain ⟨p', hp', rfl⟩ := List.mem_map.mp hx
      obtain ⟨heq, -⟩ := hunshared map properties (.part hcell hpart (.here map)) hmap p hp p' hp' i hi hvisits.reaches
      exact heq ▸ hvisits
    · rw [if_neg hkey]
      exact hframe fun _ _ => hkey
  | _ => exact hframe (by simp)

end

/-- A value below which no node is shared holds the canonical form of its tree once the nodes that
are visited from it, and no others below it, have been given theirs. -/
theorem holds_canonical (h : s.Canonicalizes s' region) (hv : s.Holds v t)
    (hkeyed : s.KeyedOn (s.Reaches v)) (hunshared : s.Unshared v)
    (hregion : ∀ i, s.Reaches v i → (region i ↔ s.Visits v i)) : s'.Holds v t.canonical := by
  induction hsize : sizeOf t using Nat.strong_induction_on generalizing v t with
  | _ n ih =>
    have hframe : (∀ i, ¬ s.Visits v i) → s'.Holds v t := fun hnot =>
      hv.frame fun i hi => h.agree i fun hin => hnot i ((hregion i hi).mp hin)
    have hother : (∀ entries, t ≠ .object entries) → s'.Holds v t := by
      intro hne
      refine hframe fun i hi => ?_
      obtain ⟨id, values, rfl, hcell, -⟩ := hi.exists_object
      obtain ⟨entries, rfl, -⟩ := hv.object_of_shape (shape_node hcell)
      exact hne entries rfl
    cases t with
    | object entries => 
      obtain ⟨id, values, rfl, hcell, hheld⟩ := holds_object.mp hv
      cases hown : values.has referenceKey with
      | true =>
        have hreference : Entries.has entries referenceKey = true := has_of_holds hheld ▸ hown
        rw [Tree.canonical, if_pos hreference]
        refine hframe fun i => not_visits_of_isReference ?_
        rw [Store.isReference, entries?_eq_some.mpr ⟨id, shape_node hcell⟩]
        exact hown
      | false =>
        have hreference : Entries.has entries referenceKey = false := has_of_holds hheld ▸ hown
        have hregion' : ∀ i, s.Reaches (.node id) i →
            (region i ↔ i = id ∨ s.VisitsBelow values i) := fun i hi =>
          (hregion i hi).trans (visits_node hcell hown)
        obtain ⟨before, canonical, hbefore, hcell', hform⟩ := h.canonical id
          ((hregion' id (.here id)).mpr (.inl rfl))
        obtain rfl : values = before := by simpa [hcell] using hbefore
        have ih' : ∀ w u, sizeOf u < sizeOf (Tree.object entries) → s.Holds w u →
            s.KeyedOn (s.Reaches w) → s.Unshared w →
            (∀ i, s.Reaches w i → (region i ↔ s.Visits w i)) → s'.Holds w u.canonical :=
          fun w u hlt hw hkeyed hunshared hregion => ih _ (hsize ▸ hlt) hw hkeyed hunshared hregion rfl
        rw [Tree.canonical, if_neg (by simp [hreference]), ← schemaType_of_holds hheld]
        split
        · next htype =>
          obtain rfl : values = canonical := Except.ok.inj (by rw [← hform, htype]; rfl)
          exact holds_object.mpr ⟨id, values, rfl, hcell',
            holds_canonicalItems h hv hcell hheld hkeyed hunshared hregion' ih' htype⟩
        · next htype =>
          obtain rfl : values = canonical := Except.ok.inj (by rw [← hform, htype]; rfl)
          exact holds_object.mpr ⟨id, values, rfl, hcell',
            holds_canonicalProperties h hv hcell hheld hkeyed hunshared hregion' ih' htype⟩
        · next harray hobject =>
          obtain ⟨entries', hform', hcanonical⟩ := holds_canonicalOfType hheld hform
          rw [hform']
          refine holds_object.mpr ⟨id, canonical, rfl, hcell', forall₂_imp_of_mem ?_ hcanonical⟩
          refine fun e he u _ hold => ⟨hold.1, ?_⟩
          rcases Entries.mem_canonicalOfType hform he with hmem | rfl
          · refine holds_entry h hv hcell hkeyed hunshared hregion' hmem hold.2 fun i hi hbelow => ?_
            rcases hbelow with ⟨htype, -⟩ | ⟨htype, -⟩
            · exact harray htype
            · exact hobject htype
          · exact hold.2.frame fun i hi => absurd hi not_reaches_scalar
    | _ => exact hother (by simp)

end Canonicalizes

/-! ## Values that unfold -/

/-- In an object that a JSON tree is read off no key comes twice. -/
theorem keyedOn_of_isJson (hv : s.Holds v t) (ht : t.IsJson) : s.KeyedOn (s.Reaches v) := by
  intro i values hreach hcell
  induction hreach generalizing t with
  | here id =>
    obtain ⟨entries, rfl, hheld⟩ := hv.object_of_shape (shape_node hcell)
    have hkeys : values.keys = Entries.keys entries := keys_eq_of_holds hheld
    exact hkeys ▸ ht.1.nodup
  | part hcell' hpart _ ih =>
    obtain ⟨u, hu, hheld⟩ := hv.exists_part hcell' hpart
    exact ih hheld (ht.part hu) hcell

/-- Below a value that unfolds no node is shared. -/
theorem Unfolds.unshared (h : s.Unfolds v) (hv : s.Holds v t) (hkeyed : s.KeyedOn (s.Reaches v)) :
    s.Unshared v := by
  rintro i entries hi hcell ⟨k, w⟩ he ⟨k', w'⟩ he' j hj hj'
  have hnode : ∀ {w : Value}, s.Reaches w j → ∃ x, w = .node x := by
    intro w hw
    cases w with
    | scalar a => exact absurd hw not_reaches_scalar
    | node x => exact ⟨x, rfl⟩
  obtain ⟨x, rfl⟩ := hnode hj
  obtain ⟨x', rfl⟩ := hnode hj'
  have hkey := h.key_eq hv hi ((stands_object hcell).mpr ⟨k, rfl, he⟩)
    ((stands_object hcell).mpr ⟨k', rfl, he'⟩) hj hj'
  obtain rfl : k = k' := by simpa using hkey
  exact ⟨congrArg Prod.snd (List.inj_on_of_nodup_map (hkeyed i entries hi hcell) he he' rfl), fun _ heq => heq⟩

/-- A JSON tree that is held has no key twice in an object. -/
theorem Holds.proper (hv : s.Holds v t) (ht : t.IsJson) : s.Proper v :=
  ⟨⟨t, hv⟩, keyedOn_of_isJson hv ht⟩

end Store

/-- A JSON tree that is loaded and brought into canonical form is held in canonical form. -/
theorem Edit.holds_canonical_of_load {s s' : Store} {t : Tree} {u : Unit} (ht : t.IsJson)
    (h : Runs (canonicalize (s.load t).1) (s.load t).2 u s') : s'.Holds (s.load t).1 t.canonical := by
  have hv := Store.holds_load ht s
  have hunfolds := Store.unfolds_load t s
  have hkeyed := Store.keyedOn_of_isJson hv ht
  obtain ⟨-, hcanonicalizes⟩ := canonicalizes_canonicalize (hv.proper ht) h
  exact hcanonicalizes.holds_canonical hv hkeyed (hunfolds.unshared hv hkeyed) fun i _ => .rfl

end DeviceApi
