import DeviceApi.Proofs.Kinds.Trees

/-!
# Shape keys of stores that differ in descriptions

A shape key is made from the tree of a schema without its descriptions, nor those of its properties and its
items. So a schema has the same shape key in two stores that are alike.
-/

namespace DeviceApi

/-- Both computations fail in the same way, or both answer as `R` says. -/
inductive Answers {ε α β : Type} (R : α → β → Prop) : Except ε α → Except ε β → Prop
  | error (e : ε) : Answers R (.error e) (.error e)
  | ok {a : α} {b : β} (h : R a b) : Answers R (.ok a) (.ok b)

namespace Answers

variable {ε α β γ δ : Type} {R : α → β → Prop} {S : γ → δ → Prop} {x : Except ε α} {y : Except ε β}

theorem map {f : α → γ} {g : β → δ} (h : Answers R x y) (hfg : ∀ a b, R a b → S (f a) (g b)) :
    Answers S (f <$> x) (g <$> y) := by
  cases h with
  | error e => exact .error e
  | ok h => exact .ok (hfg _ _ h)

theorem symm (h : Answers R x y) : Answers (fun b a => R a b) y x := by
  cases h with
  | error e => exact .error e
  | ok h => exact .ok h

theorem trans {T : α → γ → Prop} {S : β → γ → Prop} {z : Except ε γ} (h : Answers R x y) (h' : Answers S y z)
    (hT : ∀ a b c, R a b → S b c → T a c) : Answers T x z := by
  cases h with
  | error e =>
    cases h'
    exact .error e
  | ok h =>
    cases h' with
    | ok h' => exact .ok (hT _ _ _ h h')

theorem mapM {ι : Type} {f : ι → Except ε α} {g : ι → Except ε β} {items : List ι}
    (h : ∀ i ∈ items, Answers R (f i) (g i)) : Answers (List.Forall₂ R) (items.mapM f) (items.mapM g) := by
  induction items with
  | nil => exact .ok .nil
  | cons i rest ih =>
    have hrest := ih fun j hj => h j (List.mem_cons_of_mem _ hj)
    have hfirst := h i List.mem_cons_self
    rw [List.mapM_cons, List.mapM_cons]
    generalize f i = a at hfirst
    generalize g i = b at hfirst
    cases hfirst with
    | error e => exact .error e
    | ok hab =>
      generalize rest.mapM f = as at hrest
      generalize rest.mapM g = bs at hrest
      cases hrest with
      | error e => exact .error e
      | ok hall => exact .ok (.cons hab hall)

end Answers

namespace Tree

/-- The trees are the same schema but for its descriptions. -/
structure SameSchema (t t' : Tree) : Prop where
  eq : t'.withoutDescriptions = t.withoutDescriptions
  objects : (∃ entries entries', t = .object entries ∧ t' = .object entries') ∨ t' = t

/-- The values of a keyword are the same but for descriptions. -/
def SameKeyword (e e' : Scalar × Tree) : Prop := e'.1 = e.1 ∧ undescribed e.1 e'.2 = undescribed e.1 e.2

theorem sameSchema_refl (t : Tree) : t.SameSchema t := ⟨rfl, .inr rfl⟩

theorem sameKeyword_refl (e : Scalar × Tree) : SameKeyword e e := ⟨rfl, rfl⟩

theorem withoutDescriptionEntries_eq {entries entries' : List (Scalar × Tree)}
    (h : List.Forall₂ SameKeyword entries entries') :
    withoutDescriptionEntries entries' = withoutDescriptionEntries entries := by
  induction h with
  | nil => rfl
  | @cons e e' _ _ he _ ih =>
    obtain ⟨key, t⟩ := e
    obtain ⟨key', t'⟩ := e'
    obtain ⟨rfl, hvalue⟩ : key' = key ∧ undescribed key t' = undescribed key t := he
    rw [withoutDescriptionEntries, withoutDescriptionEntries, hvalue, ih]

theorem sameKeyword_properties {schemas schemas' : List (Scalar × Tree)}
    (h : List.Forall₂ (fun e e' : Scalar × Tree => e'.1 = e.1 ∧ e.2.SameSchema e'.2) schemas schemas') :
    SameKeyword ("properties", .object schemas) ("properties", .object schemas') := by
  have hproperties : withoutDescriptionProperties schemas' = withoutDescriptionProperties schemas := by
    induction h with
    | nil => rfl
    | @cons e e' _ _ he _ ih =>
      obtain ⟨name, t⟩ := e
      obtain ⟨name', t'⟩ := e'
      obtain ⟨rfl, hschema⟩ : name' = name ∧ t.SameSchema t' := he
      rw [withoutDescriptionProperties, withoutDescriptionProperties, hschema.eq, ih]
  refine ⟨rfl, ?_⟩
  simp only [undescribed, if_true, hproperties]

theorem SameSchema.items {t t' : Tree} (h : t.SameSchema t') : SameKeyword ("items", t) ("items", t') := by
  rcases h.objects with ⟨entries, entries', rfl, rfl⟩ | rfl
  · have heq := h.eq
    rw [withoutDescriptions, withoutDescriptions] at heq
    exact ⟨rfl, by simpa [undescribed] using heq⟩
  · exact sameKeyword_refl _

end Tree

variable {kinds ks : List Kind} {k : Kind} {s s' : Store} {i depth : Nat} {v w : Value}
  {entries entries' : Entries Value}

namespace Store

theorem entryTree_none {key : Scalar} (h : s.entries? w = none) :
    s.entryTree depth (key, w) = .ok (key, s.tree w) := by
  have hnot : ∀ i entries, s.shape w ≠ .object i entries := fun i entries hshape => by
    rw [entries?_eq_some.mpr ⟨i, hshape⟩] at h
    cases h
  unfold entryTree
  split
  · next id properties _ hshape => exact absurd hshape (hnot id properties)
  · next id properties _ hshape => exact absurd hshape (hnot id properties)
  · rfl

theorem schemaTree_none (h : s.entries? v = none) : s.schemaTree (depth + 1) v = .ok (s.tree v) := by
  rw [schemaTree]
  split
  · next i entries hshape =>
    rw [entries?_eq_some.mpr ⟨i, hshape⟩] at h
    cases h
  · rfl

theorem entryTree_other {key : Scalar} (hproperties : key ≠ "properties") (hitems : key ≠ "items") :
    s.entryTree depth (key, w) = .ok (key, s.tree w) := by
  unfold entryTree
  split
  · next hkey _ => exact absurd hkey hproperties
  · next hkey _ => exact absurd hkey hitems
  · rfl

theorem entryTree_properties (hshape : s.shape w = .object i entries) :
    s.entryTree depth ("properties", w) = (fun schemas => ((.text "properties", .object schemas) : Scalar × Tree)) <$>
      entries.mapM fun p => (fun t => (p.1, t)) <$> s.schemaTree depth p.2 := by
  simp only [entryTree, hshape, map_eq_pure_bind]

theorem entryTree_items (hshape : s.shape w = .object i entries) :
    s.entryTree depth ("items", w) =
      (fun t => ((.text "items", t) : Scalar × Tree)) <$> s.schemaTree depth w := by
  simp only [entryTree, hshape, map_eq_pure_bind]

/-- A description makes no difference to a schema without descriptions. -/
theorem answers_undescribed (s : Store) (depth : Nat) (entries : Entries Value) :
    Answers (fun found others => Tree.withoutDescriptionEntries found = Tree.withoutDescriptionEntries others)
      (entries.mapM (s.entryTree depth)) (entries.undescribed.mapM (s.entryTree depth)) := by
  unfold Entries.undescribed
  induction entries with
  | nil => exact .ok rfl
  | cons e rest ih =>
    obtain ⟨key, w⟩ := e
    cases hkey : key.isOther with
    | true =>
      rw [List.filter_cons_of_pos (by simp [hkey]), List.mapM_cons, List.mapM_cons]
      cases hentry : s.entryTree depth (key, w) with
      | error m => exact .error m
      | ok b =>
        generalize rest.mapM (s.entryTree depth) = found at ih
        generalize (rest.filter fun e => e.1.isOther).mapM (s.entryTree depth) = others at ih
        cases ih with
        | error m => exact .error m
        | ok heq =>
          refine .ok ?_
          rw [Tree.withoutDescriptionEntries, Tree.withoutDescriptionEntries, heq]
    | false =>
      obtain rfl : key = .text descriptionKey := by simpa [Scalar.isOther] using hkey
      rw [List.filter_cons_of_neg (by simp [hkey]), List.mapM_cons, entryTree_other (by decide) (by decide)]
      generalize rest.mapM (s.entryTree depth) = found at ih
      generalize (rest.filter fun e => e.1.isOther).mapM (s.entryTree depth) = others at ih
      cases ih with
      | error m => exact .error m
      | ok heq =>
        refine .ok ?_
        rw [Tree.withoutDescriptionEntries]
        simpa [descriptionKey] using heq

/-- An object is the same schema in both stores if the values of its keywords are. -/
theorem answers_schemaTree_object (hshape : s.shape v = .object i entries) (hshape' : s'.shape v = .object i entries')
    (halike : entries.Alike entries')
    (hentries : ∀ e ∈ entries.undescribed, Answers Tree.SameKeyword (s.entryTree depth e) (s'.entryTree depth e)) :
    Answers Tree.SameSchema (s.schemaTree (depth + 1) v) (s'.schemaTree (depth + 1) v) := by
  have hothers := Answers.mapM hentries
  have hleft := s.answers_undescribed depth entries
  have hright := s'.answers_undescribed depth entries'
  rw [← halike.others] at hright
  have hfound : Answers (fun found found' =>
      Tree.withoutDescriptionEntries found' = Tree.withoutDescriptionEntries found)
      (entries.mapM (s.entryTree depth)) (entries'.mapM (s'.entryTree depth)) := by
    refine (hleft.trans hothers fun _ _ _ heq hall => ?_).trans hright.symm fun _ _ _ heq heq' => heq'.trans heq
    exact (Tree.withoutDescriptionEntries_eq hall).trans heq.symm
  rw [schemaTree_object hshape, schemaTree_object hshape']
  refine hfound.map fun found found' heq => ⟨?_, .inl ⟨found, found', rfl, rfl⟩⟩
  rw [Tree.withoutDescriptions, Tree.withoutDescriptions, heq]

namespace Matches

variable (h : s.Matches kinds s')
include h

/-- A value that is no object has the same tree in both stores, if its kind has no lists of schemas. -/
theorem tree_eq_of_none (hv : v.IsOf kinds ks) (hks : ∀ k ∈ ks, k ≠ .loose ∧ k.items = [.plain])
    (hnone : s.entries? v = none) : s'.tree v = s.tree v := by
  cases v with
  | scalar a => simp [tree, treeInside, shape]
  | node i =>
    obtain ⟨k, hk, hi⟩ := hv
    obtain ⟨cell, cell', hcell, hcell', halike, hfits, -⟩ := h.cells i k hi
    cases hfits.json (hks k hk).1 with
    | list items => exact h.tree_eq_of_items hi (hks k hk).2 hcell
    | object hkeyed =>
      rw [entries?_eq_some.mpr ⟨i, shape_node hcell⟩] at hnone
      cases hnone

/-- What says nothing about a type, or belongs to a catalogue, is the same schema in both stores. -/
theorem schemaTree_eq (hv : v.IsOf kinds [.plain, .loose]) (depth : Nat) :
    s'.schemaTree depth v = s.schemaTree depth v :=
  schemaTree_eq_of_agree (fun _ hi => h.cell_eq_of_reaches hv hi) h.size_eq

/-- A keyword of a schema has the same value in both stores, descriptions aside, if the schemas below do. -/
theorem answers_entryTree {key : Scalar} (hk : k = .schema ∨ k = .property) (hkey : key.isOther = true)
    (hw : w.IsOf kinds (k.below (some key)))
    (ih : ∀ u : Value, u.IsOf kinds [.schema, .property, .plain, .loose] →
      Answers Tree.SameSchema (s.schemaTree depth u) (s'.schemaTree depth u)) :
    Answers Tree.SameKeyword (s.entryTree depth (key, w)) (s'.entryTree depth (key, w)) := by
  have hsame : s'.tree w = s.tree w → s.entryTree depth (key, w) = .ok (key, s.tree w) →
      s'.entryTree depth (key, w) = .ok (key, s'.tree w) →
      Answers Tree.SameKeyword (s.entryTree depth (key, w)) (s'.entryTree depth (key, w)) := fun htree hs hs' => by
    rw [hs, hs', htree]
    exact .ok (Tree.sameKeyword_refl _)
  by_cases hproperties : key = "properties"
  · subst hproperties
    have hbelow : k.below (some (.text "properties")) = [.properties, .plain] := by
      rcases hk with rfl | rfl <;> rfl
    rw [hbelow] at hw
    rcases h.object_cases hw with ⟨hnone, hnone'⟩ | ⟨i, k', schemas, schemas', hk', -, hshape, hshape', halike⟩
    · exact hsame (h.tree_eq_of_none hw (by decide) hnone) (entryTree_none hnone) (entryTree_none hnone')
    · have hplain : k'.isDescribed = false := by
        rcases List.mem_pair.mp hk' with rfl | rfl <;> rfl
      obtain rfl := halike.same hplain
      rw [entryTree_properties hshape, entryTree_properties hshape']
      refine Answers.map (Answers.mapM fun p hp => ?_) fun _ _ => Tree.sameKeyword_properties
      refine Answers.map (ih p.2 ?_) fun _ _ hschema => ⟨rfl, hschema⟩
      refine (halike.fits.places (some p.1, p.2) (Cell.mem_places_object.mpr ⟨_, rfl, hp⟩)).of_subset ?_
      rcases List.mem_pair.mp hk' with rfl | rfl <;> simp
  · by_cases hitems : key = "items"
    · subst hitems
      have hbelow : k.below (some (.text "items")) = [.schema, .plain] := by
        rcases hk with rfl | rfl <;> rfl
      rw [hbelow] at hw
      rcases h.object_cases hw with ⟨hnone, hnone'⟩ | ⟨i, k', schemas, schemas', -, -, hshape, hshape', -⟩
      · exact hsame (h.tree_eq_of_none hw (by decide) hnone) (entryTree_none hnone) (entryTree_none hnone')
      · rw [entryTree_items hshape, entryTree_items hshape']
        exact Answers.map (ih w (hw.of_subset (by decide))) fun _ _ => Tree.SameSchema.items
    · have hbelow : k.below (some key) = [.plain] := by
        rcases hk with rfl | rfl <;> exact Kind.below_of_forall_ne (by simp [Kind.fields, hproperties, hitems])
      rw [hbelow] at hw
      exact hsame (h.tree_eq (hw.of_subset (by decide))) (entryTree_other hproperties hitems)
        (entryTree_other hproperties hitems)

/-- A schema is the same in both stores, descriptions aside. -/
theorem answers_schemaTree (hv : v.IsOf kinds [.schema, .property, .plain, .loose]) :
    Answers Tree.SameSchema (s.schemaTree depth v) (s'.schemaTree depth v) := by
  induction depth generalizing v with
  | zero => exact .error _
  | succ depth ih =>
    have hsame : s'.schemaTree (depth + 1) v = s.schemaTree (depth + 1) v →
        Answers Tree.SameSchema (s.schemaTree (depth + 1) v) (s'.schemaTree (depth + 1) v) := fun heq => by
      rw [heq]
      cases s.schemaTree (depth + 1) v with
      | error m => exact .error m
      | ok t => exact .ok (Tree.sameSchema_refl t)
    cases v with
    | scalar a => exact hsame (by simp [schemaTree, tree, treeInside, shape])
    | node i =>
      obtain ⟨k, hk, hi⟩ := hv
      have hof : (Value.node i).IsOf kinds [k] := ⟨k, List.mem_singleton_self k, hi⟩
      by_cases hschema : k = .schema ∨ k = .property
      · rcases h.object_cases hof with ⟨hnone, hnone'⟩ | ⟨j, k', entries, entries', hk', -, hshape, hshape', halike⟩
        · have htree : s'.tree (.node i) = s.tree (.node i) :=
            h.tree_eq_of_none hof (by rcases hschema with rfl | rfl <;> decide) hnone
          exact hsame (by rw [schemaTree_none hnone, schemaTree_none hnone', htree])
        · obtain rfl := List.mem_singleton.mp hk'
          refine answers_schemaTree_object hshape hshape' halike.alike fun e he => ?_
          obtain ⟨hmem, hother⟩ := List.mem_filter.mp he
          exact h.answers_entryTree hschema hother
            (halike.fits.places (some e.1, e.2) (Cell.mem_places_object.mpr ⟨_, rfl, hmem⟩)) fun u hu => ih hu
      · have hrest : k = .plain ∨ k = .loose := by
          simp only [List.mem_cons, List.not_mem_nil, or_false] at hk
          tauto
        exact hsame (h.schemaTree_eq (hof.of_subset (by rcases hrest with rfl | rfl <;> decide)) _)

/-- A schema has the same shape key in both stores. -/
theorem shapeKey_eq (hv : v.IsOf kinds [.schema, .property, .plain, .loose]) :
    s'.shapeKey v = s.shapeKey v := by
  have hanswers : Answers Tree.SameSchema (s.schemaTree (s.cells.size + 1) v) (s'.schemaTree (s.cells.size + 1) v) :=
    h.answers_schemaTree hv
  unfold shapeKey
  rw [h.size_eq]
  generalize s.schemaTree (s.cells.size + 1) v = found at hanswers
  generalize s'.schemaTree (s.cells.size + 1) v = found' at hanswers
  cases hanswers with
  | error m => rfl
  | ok hsame =>
    simp only [Tree.shapeKey, bind, Except.bind, hsame.eq]

end Matches

end Store

end DeviceApi
