import DeviceApi.Proofs.Schema.Repeated

/-!
# What folding keeps

What folding keeps of a table can be told from the trees that the table and the catalogue hold. If repeated shapes
are folded as well, a schema is kept if no schema before it has its shape, and the schemas that are kept stay in
their order. Whether repeated shapes are folded makes no difference to whether folding succeeds.
-/

namespace DeviceApi

/-! ## Lists -/

/-- What holds of every item with the items before it holds so after one more item. -/
theorem forall_split_append {α : Type} {P : List α → α → Prop} {items : List α} {x : α}
    (h : ∀ before y after, items = before ++ y :: after → P before y) (hx : P items x) :
    ∀ before y after, items ++ [x] = before ++ y :: after → P before y := by
  intro before y after heq
  rcases after.eq_nil_or_concat with rfl | ⟨after, z, rfl⟩
  · obtain ⟨rfl, hlast⟩ := List.append_inj' heq rfl
    obtain rfl : x = y := by simpa using hlast
    exact hx
  · rw [List.concat_eq_append, ← List.cons_append, ← List.append_assoc] at heq
    exact h before y after (List.append_inj' heq rfl).1

/-- A list that is related to one with a given item has an item at its place. -/
theorem exists_split_of_forall₂ {α β : Type} {R : α → β → Prop} {as : List α} {before after : List β} {b : β}
    (h : List.Forall₂ R as (before ++ b :: after)) :
    ∃ as₁ a as₂, as = as₁ ++ a :: as₂ ∧ List.Forall₂ R as₁ before ∧ R a b := by
  induction before generalizing as with
  | nil =>
    obtain ⟨a, as₂, hab, -, rfl⟩ := List.forall₂_cons_right_iff.mp h
    exact ⟨[], a, as₂, rfl, .nil, hab⟩
  | cons b' before ih =>
    obtain ⟨a', as', hab', hrest, rfl⟩ := List.forall₂_cons_right_iff.mp h
    obtain ⟨as₁, a, as₂, rfl, hbefore, hab⟩ := ih hrest
    exact ⟨a' :: as₁, a, as₂, rfl, .cons hab' hbefore, hab⟩

/-- Related lists have the same image if related items have. -/
theorem filterMap_eq_of_forall₂ {α β γ : Type} {R : α → β → Prop} {f : α → Option γ} {g : β → Option γ} {as : List α}
    {bs : List β} (h : List.Forall₂ R as bs) (hfg : ∀ a b, R a b → f a = g b) : as.filterMap f = bs.filterMap g := by
  induction h with
  | nil => rfl
  | cons hab _ ih => rw [List.filterMap_cons, List.filterMap_cons, hfg _ _ hab, ih]

/-- Some of the entries of an object, in their order, are those under their keys. -/
theorem Entries.eq_filter_of_sublist {α : Type} {entries others : Entries α} (h : entries.Sublist others)
    (hnodup : others.keys.Nodup) : entries = others.filter fun e => decide (e.1 ∈ entries.keys) := by
  induction h with
  | slnil => rfl
  | @cons entries others e hsub ih =>
    obtain ⟨hnew, hnodup⟩ := List.nodup_cons.mp hnodup
    have hnot : e.1 ∉ Entries.keys entries := fun hmem => hnew ((hsub.map _).subset hmem)
    rw [List.filter_cons_of_neg (by simpa using hnot)]
    exact ih hnodup
  | @cons_cons entries others e hsub ih =>
    obtain ⟨hnew, hnodup⟩ := List.nodup_cons.mp hnodup
    rw [List.filter_cons_of_pos (by simp [Entries.keys])]
    refine congrArg (e :: ·) ((ih hnodup).trans (List.filter_congr fun e' he' => ?_))
    have hne : e'.1 ≠ e.1 := fun heq => hnew (heq ▸ List.mem_map_of_mem he')
    exact decide_eq_decide.mpr (List.mem_cons.trans (or_iff_right hne)).symm

/-- The key of an entry is none of those before it, if keys do not repeat. -/
theorem Entries.notMem_keys_of_split {α : Type} {entries before after : Entries α} {key : Scalar} {v : α}
    (hnodup : entries.keys.Nodup) (h : before ++ (key, v) :: after = entries) : key ∉ before.keys := by
  rw [← h, Entries.keys_append, List.nodup_append] at hnodup
  exact fun hmem => hnodup.2.2 key hmem key (by simp) rfl

/-- A table that holds a tree is a node, and its schemas lie apart from it. -/
theorem Store.Holds.exists_table {s : Store} {v : Value} {T : List (Scalar × Tree)} (h : s.Holds v (.object T))
    (hT : Entries.TextKeyed T) : ∃ id V, v = .node id ∧ s.cells[id]? = some (.object V) ∧
      List.Forall₂ s.HoldsEntry V T ∧ V.TextKeyed ∧ ∀ w ∈ V.values, s.Apart id w := by
  obtain ⟨id, V, rfl, hcell, hheld⟩ := Store.holds_object.mp h
  have hkeys : V.keys = Entries.keys T := Store.keys_eq_of_holds hheld
  refine ⟨id, V, rfl, hcell, hheld, ⟨hkeys ▸ hT.exists_text, hkeys ▸ hT.nodup⟩, fun w hw => ?_⟩
  obtain ⟨_, hw', -⟩ := h.of_part hcell hw
  exact hw'.apart (h.not_reaches_of_part hcell hw)

namespace Procedure

open Edit

variable {s s' t t' : Session} {table : SchemaTable} {st : Store} {V C done kept stays : Entries Value}
  {shapes : Entries Scalar} {merge : Bool} {state state' : FoldState} {n key : String} {schema : Value} {id : Nat}
  {T E : List (Scalar × Tree)} {replacements : Replacements} {duplicates : List DuplicateShape}

/-! ## Shapes of the catalogue -/

/-- Every schema of a catalogue can be found by its shape. -/
theorem catalogueShapes_complete (h : Runs (catalogueShapes C) s shapes s') :
    ∀ v ∈ C.values, ∃ key, s.store.shapeKey v = .ok key ∧ shapes.has (.text key) = true := by
  have hfound := Runs.foldlM_induct (fun done shapes t => t = s ∧
      ∀ e ∈ done, ∃ key, s.store.shapeKey e.2 = .ok key ∧ shapes.has (.text key) = true) h ⟨rfl, by simp⟩ ?_
  · intro v hv
    obtain ⟨e, he, rfl⟩ := List.mem_map.mp hv
    exact hfound.2 e he
  rintro done ⟨name, schema⟩ rest shapes t shapes' t' - ⟨rfl, hdone⟩ hrun
  simp only [runs_bind, runs_monadLift, runs_shapeKeyOf, runs_pure] at hrun
  obtain ⟨key, _, ⟨_, ⟨hkey, rfl⟩, rfl⟩, hshapes, rfl⟩ := hrun
  have hkept : ∀ key', shapes.has (.text key') = true ∨ key' = key → shapes'.has (.text key') = true := by
    intro key' hkey'
    subst hshapes
    split
    · next hhas => exact hkey'.elim id fun heq => heq ▸ hhas
    · rw [Entries.has_put]
      rcases hkey' with hold | rfl
      · simp [hold]
      · simp
  refine ⟨rfl, fun e he => ?_⟩
  rcases List.mem_append.mp he with hold | hnew
  · obtain ⟨key', hkey', hhas⟩ := hdone e hold
    exact ⟨key', hkey', hkept key' (.inl hhas)⟩
  · obtain rfl := List.mem_singleton.mp hnew
    exact ⟨key, hkey, hkept key (.inr rfl)⟩

/-- The shape keys of the schemas of a catalogue in canonical form. -/
def catalogueKeys (E : List (Scalar × Tree)) : List String :=
  E.filterMap fun e => e.2.canonical.shapeKey.toOption

/-- The shape key of an entry of a table that is neither a reference nor named like a schema of the catalogue and
has none of the shapes of the catalogue. -/
def ownShape? (E : List (Scalar × Tree)) (e : Scalar × Tree) : Option String :=
  if Entries.has E e.1 || e.2.isReference then none
  else e.2.shapeKey.toOption.filter fun key => decide (key ∉ catalogueKeys E)

/-- A catalogue in canonical form. -/
def canonicalCatalogue (E : List (Scalar × Tree)) : List (Scalar × Tree) := E.map fun e => (e.1, e.2.canonical)

theorem has_canonicalCatalogue {name : Scalar} : Entries.has (canonicalCatalogue E) name = Entries.has E name := by
  rw [Entries.has, canonicalCatalogue, Entries.get?_map, Option.isSome_map, ← Entries.has]

section

variable (hC : List.Forall₂ st.HoldsEntry C (canonicalCatalogue E))
include hC

theorem has_of_catalogue {name : Scalar} : C.has name = Entries.has E name :=
  (Store.has_of_holds hC).trans has_canonicalCatalogue

/-- A schema of a catalogue in canonical form has a value that holds it. -/
theorem exists_value_of_catalogue {e : Scalar × Tree} (he : e ∈ E) : ∃ v ∈ C.values, st.Holds v e.2.canonical := by
  obtain ⟨c, hc, hheld⟩ := exists_mem_of_forall₂_right hC (List.mem_map_of_mem he)
  exact ⟨c.2, List.mem_map_of_mem hc, hheld.2⟩

end

/-- The shape that is counted for a value can be told from the tree that it holds. -/
theorem countedShape_eq_ownShape? (hC : List.Forall₂ t.store.HoldsEntry C (canonicalCatalogue E))
    (hshapes : Runs (catalogueShapes C) t shapes t) {e : Scalar × Value} {x : Scalar × Tree}
    (he : t.store.HoldsEntry e x) : countedShape t.store C shapes e = ownShape? E x := by
  have hmem : ∀ key, shapes.has (.text key) = decide (key ∈ catalogueKeys E) := by
    intro key
    rw [Bool.eq_iff_iff, decide_eq_true_eq, catalogueKeys, List.mem_filterMap]
    constructor
    · intro hhas
      obtain ⟨name, hname⟩ := Option.isSome_iff_exists.mp hhas
      obtain ⟨v, hv, hkey⟩ := (catalogueShapes_sound hshapes).2 key name hname
      obtain ⟨_, hx, -, hheld⟩ := exists_mem_of_forall₂ hC hv
      obtain ⟨y, hy, rfl⟩ := List.mem_map.mp hx
      exact ⟨y, hy, by rw [← hheld.shapeKey_eq, hkey]; rfl⟩
    · rintro ⟨y, hy, hkey⟩
      obtain ⟨v, hv, hheld⟩ := exists_value_of_catalogue hC hy
      obtain ⟨key', hkey', hhas⟩ := catalogueShapes_complete hshapes v hv
      obtain rfl : key' = key := by
        rw [← hheld.shapeKey_eq, hkey'] at hkey
        exact Option.some.inj hkey
      exact hhas
  rw [countedShape, ownShape?, has_of_catalogue hC, he.1, he.2.isReference_eq, he.2.shapeKey_eq]
  split
  · rfl
  · cases x.2.shapeKey with
    | error m => rfl
    | ok key =>
      dsimp only [Except.toOption]
      rw [hmem]
      by_cases hkey : key ∈ catalogueKeys E <;> simp [Option.filter, hkey]

/-! ## The entries that stay -/

/-- An entry with the entries before it: it is of the catalogue or a reference, or no entry before it has its shape,
which is none of the catalogue. -/
def Leads (st : Store) (C : Entries Value) (shapes : Entries Scalar) (before : Entries Value) (e : Scalar × Value) :
    Prop :=
  (C.has e.1 = true ∨ st.isReference e.2 = true) ∨
    ∃ key, countedShape st C shapes e = some key ∧ key ∉ before.filterMap (countedShape st C shapes)

/-- What is known about the entries `stays` that are kept of the schemas `done`. -/
structure Sifted (st : Store) (C : Entries Value) (shapes : Entries Scalar) (merge : Bool) (done stays : Entries Value)
    (state : FoldState) : Prop where
  sublist : stays.Sublist done
  seen : ∀ key name, state.firstSeen.get? (.text key) = some name →
    name ∈ done.keys ∧ key ∈ done.filterMap (countedShape st C shapes)
  counted : ∀ key ∈ done.filterMap (countedShape st C shapes), state.firstSeen.has (.text key) = true
  stays_iff : merge = true → ∀ before e after, done = before ++ e :: after → (e ∈ stays ↔ Leads st C shapes before e)

namespace Sifted

theorem init : Sifted st C shapes merge [] [] {} where
  sublist := .slnil
  seen := by simp
  counted := by simp
  stays_iff _ before e after h := by simp at h

/-- One more entry, which is kept or not. If it is counted, its shape has been met. -/
theorem append {stays' : Entries Value} {e : Scalar × Value} (h : Sifted st C shapes merge done stays state)
    (hnew : e.1 ∉ done.keys)
    (hmet : state'.firstSeen = state.firstSeen ∧ countedShape st C shapes e = none ∨
      ∃ key, countedShape st C shapes e = some key ∧
        state'.firstSeen = state.firstSeen.put (.text key) ((state.firstSeen.get? (.text key)).getD e.1))
    (hstays : stays' = stays ++ [e] ∧ (merge = true → Leads st C shapes done e) ∨
      stays' = stays ∧ (merge = true → ¬ Leads st C shapes done e)) :
    Sifted st C shapes merge (done ++ [e]) stays' state' where
  sublist := by
    rcases hstays with ⟨rfl, -⟩ | ⟨rfl, -⟩
    · exact h.sublist.append (.refl _)
    · exact h.sublist.trans (List.sublist_append_left done [e])
  seen key name hname := by
    rw [Entries.keys_append, List.filterMap_append, List.mem_append, List.mem_append]
    rcases hmet with ⟨hsame, -⟩ | ⟨key', hkey', hput⟩
    · rw [hsame] at hname
      exact ⟨.inl (h.seen key name hname).1, .inl (h.seen key name hname).2⟩
    · rw [hput, Entries.get?_put] at hname
      split at hname
      · next heq =>
        obtain rfl := heq
        obtain rfl := Option.some.inj hname
        refine ⟨?_, .inr (by simp [hkey'])⟩
        cases hfirst : state.firstSeen.get? (.text key') with
        | none => exact .inr List.mem_cons_self
        | some first => exact .inl (h.seen key' first hfirst).1
      · exact ⟨.inl (h.seen key name hname).1, .inl (h.seen key name hname).2⟩
  counted key hkey := by
    rw [List.filterMap_append, List.mem_append] at hkey
    rcases hmet with ⟨hsame, hnone⟩ | ⟨key', hkey', hput⟩
    · rw [hsame]
      exact h.counted key (hkey.resolve_right (by simp [hnone]))
    · rw [hput, Entries.has_put]
      rcases hkey with hold | hlast
      · simp [h.counted key hold]
      · obtain rfl : key' = key := by simpa [hkey', eq_comm] using hlast
        simp
  stays_iff hmerge := by
    have hnot : e ∉ done := fun hmem => hnew (List.mem_map_of_mem hmem)
    refine forall_split_append (fun before y after hdone => ?_) ?_
    · rw [← h.stays_iff hmerge before y after hdone]
      have hne : y ≠ e := fun heq => hnot (heq ▸ hdone ▸ by simp)
      rcases hstays with ⟨rfl, -⟩ | ⟨rfl, -⟩
      · simp [hne]
      · rfl
    · rcases hstays with ⟨rfl, hleads⟩ | ⟨rfl, hleads⟩
      · exact iff_of_true (by simp) (hleads hmerge)
      · exact iff_of_false (fun hmem => hnot (h.sublist.subset hmem)) (hleads hmerge)

/-- One step of the loop keeps what is known. Nothing has been removed from the schemas `rest` yet. -/
theorem step {rest kept' : Entries Value} (h : Sifted st C shapes merge done stays state)
    (hkept : kept = stays ++ (.text n, schema) :: rest) (hnew : Scalar.text n ∉ done.keys)
    (hfolds : Folds st C shapes merge (.text n) schema state kept state' kept') :
    ∃ stays', Sifted st C shapes merge (done ++ [(.text n, schema)]) stays' state' ∧ kept' = stays' ++ rest := by
  have hremove : kept.remove (.text n) = stays ++ rest := by
    have hstays : Scalar.text n ∉ stays.keys := fun hmem => hnew ((h.sublist.map _).subset hmem)
    rw [hkept]
    exact Entries.remove_append_cons hstays
  cases hfolds with
  | skip hskip =>
    exact ⟨stays ++ [(.text n, schema)], h.append hnew (.inl ⟨rfl, countedShape_of_skip hskip⟩)
      (.inl ⟨rfl, fun _ => .inl hskip⟩), by simp [hkept]⟩
  | @replace key target hC hreference hkey htarget =>
    have hnone : countedShape st C shapes (.text n, schema) = none := by
      rw [countedShape_of_key hC hreference hkey, Entries.has, htarget]
      rfl
    refine ⟨stays, h.append hnew (.inl ⟨rfl, hnone⟩) (.inr ⟨rfl, fun _ => ?_⟩), hremove⟩
    rintro (hskip | ⟨key', hkey', -⟩)
    · simp [hC, hreference] at hskip
    · simp [hnone] at hkey'
  | @merge key first hC hreference hkey hunknown hmerge hfirst =>
    have hsome : countedShape st C shapes (.text n, schema) = some key := by
      rw [countedShape_of_key hC hreference hkey, Entries.has, hunknown]
      rfl
    refine ⟨stays, h.append hnew (.inr ⟨key, hsome, rfl⟩) (.inr ⟨rfl, fun _ => ?_⟩), hremove⟩
    rintro (hskip | ⟨key', hkey', hunmet⟩)
    · simp [hC, hreference] at hskip
    · obtain rfl := Option.some.inj (hsome.symm.trans hkey')
      exact hunmet (h.seen key first hfirst).2
  | @meet key hC hreference hkey hunknown hfirst =>
    have hsome : countedShape st C shapes (.text n, schema) = some key := by
      rw [countedShape_of_key hC hreference hkey, Entries.has, hunknown]
      rfl
    refine ⟨stays ++ [(.text n, schema)], h.append hnew (.inr ⟨key, hsome, rfl⟩)
      (.inl ⟨rfl, fun hmerge => .inr ⟨key, hsome, fun hmet => ?_⟩⟩), by simp [hkept]⟩
    -- The first schema of the shape would be another one.
    obtain ⟨first, hseen⟩ := Option.isSome_iff_exists.mp (h.counted key hmet)
    have hsame : first.same (.text n) = true := by simpa [hmerge, hseen] using hfirst
    exact hnew (Scalar.eq_text_of_same hsame ▸ (h.seen key first hseen).1)

end Sifted

/-! ## What is kept of a tree -/

/-- The entries `K` are what folding keeps of a table `T`, before the catalogue `E` is put over them. -/
structure Survivors (T E : List (Scalar × Tree)) (merge : Bool) (K : List (Scalar × Tree)) : Prop where
  sublist : K.Sublist T
  keyed : ∀ e ∈ T, Entries.has E e.1 = false → e.2.isReference = false → ∃ key, e.2.shapeKey = .ok key
  keyed_catalogue : ∀ e ∈ E, ∃ key, e.2.canonical.shapeKey = .ok key
  mem_iff : merge = true → ∀ before e after, T = before ++ e :: after →
    (e ∈ K ↔ (Entries.has E e.1 = true ∨ e.2.isReference = true) ∨
      ∃ key, ownShape? E e = some key ∧ key ∉ before.filterMap (ownShape? E))

/-- What is kept of values is kept of the trees that they hold. -/
theorem survivors_of_sifted (hV : List.Forall₂ t.store.HoldsEntry V T) (hnodup : V.keys.Nodup)
    (hC : List.Forall₂ t.store.HoldsEntry C (canonicalCatalogue E)) (hshapes : Runs (catalogueShapes C) t shapes t)
    (hfolded : Folded t.store V C V state kept) (hsifted : Sifted t.store C shapes merge V kept state) :
    ∃ K, List.Forall₂ t.store.HoldsEntry kept K ∧ Survivors T E merge K := by
  let K := T.filter fun e => decide (e.1 ∈ kept.keys)
  have hshape : ∀ e x, t.store.HoldsEntry e x → countedShape t.store C shapes e = ownShape? E x :=
    fun e x he => countedShape_eq_ownShape? hC hshapes he
  have hmem : ∀ v x, v ∈ V → t.store.HoldsEntry v x → x ∈ T → (x ∈ K ↔ v ∈ kept) := by
    intro v x hv hheld hx
    rw [List.mem_filter, and_iff_right hx, decide_eq_true_eq, ← hheld.1]
    refine ⟨fun hkey => ?_, fun hin => List.mem_map_of_mem hin⟩
    rw [Entries.eq_filter_of_sublist hsifted.sublist hnodup]
    exact List.mem_filter.mpr ⟨hv, by simpa using hkey⟩
  refine ⟨K, ?_, List.filter_sublist, fun x hx hname hreference => ?_, fun x hx => ?_, fun hmerge before x after hT => ?_⟩
  · rw [Entries.eq_filter_of_sublist hsifted.sublist hnodup]
    exact List.rel_filter (fun e x he => by simp only [he.1]) hV
  · obtain ⟨e, he, hheld⟩ := exists_mem_of_forall₂_right hV hx
    obtain ⟨key, hkey⟩ := hfolded.keyed e he (by rw [has_of_catalogue hC, hheld.1, hname])
      (by rw [hheld.2.isReference_eq, hreference])
    exact ⟨key, hheld.2.shapeKey_eq ▸ hkey⟩
  · obtain ⟨v, hv, hheld⟩ := exists_value_of_catalogue hC hx
    obtain ⟨key, hkey, -⟩ := catalogueShapes_complete hshapes v hv
    exact ⟨key, hheld.shapeKey_eq ▸ hkey⟩
  · subst hT
    obtain ⟨before', e, after', rfl, hbefore, he⟩ := exists_split_of_forall₂ hV
    rw [hmem e x (by simp) he (by simp), hsifted.stays_iff hmerge before' e after' rfl, Leads, has_of_catalogue hC,
      he.1, he.2.isReference_eq, hshape e x he, filterMap_eq_of_forall₂ hbefore hshape]

/-- **What folding leaves behind.** The catalogue in canonical form is put over what is kept of the table, and the
shapes that the table has of its own are counted. -/
theorem exists_survivors_of_foldSchemas
    (hrun : Runs (foldSchemas table (.object E) merge) s (replacements, duplicates) s')
    (htable : s.store.Holds table.schemas (.object T)) (hT : Entries.TextKeyed T) (hE : (Tree.object E).IsJson) :
    ∃ K, s'.store.Holds table.schemas (.object (Entries.putAll K (canonicalCatalogue E))) ∧ Survivors T E merge K ∧
      duplicates = (ShapeCounts.tally (T.filterMap (ownShape? E))).duplicates := by
  obtain ⟨id, V, hid, hcell, hheld, hV, hapart⟩ := htable.exists_table hT
  obtain ⟨C, t, shapes, state, kept, hload, hshapes,
      ⟨hfolded, rest, stays, hrest, hkept, htallied, hsifted⟩, -, hduplicates, hstore⟩ :=
    hrun.foldSchemas_induct hid hcell hV hE.1 hapart
      (fun st C shapes done state kept => Folded st V C done state kept ∧ ∃ rest stays, done ++ rest = V ∧
        kept = stays ++ rest ∧ Tallied st C shapes merge done stays state ∧ Sifted st C shapes merge done stays state)
      (fun _ _ _ => ⟨.init hV, V, [], by simp, by simp, .init, .init⟩) (by
        rintro st C shapes done n schema rest state kept state' kept' hC hsound hdone
          ⟨hfolded, rest', stays, hrest, hkept, htallied, hsifted⟩ hfolds
        obtain rfl : rest' = (.text n, schema) :: rest := List.append_cancel_left (hrest.trans hdone.symm)
        have hn : Scalar.text n ∉ done.keys := Entries.notMem_keys_of_split hV.nodup hdone
        obtain ⟨stays', htallied', hkept'⟩ := htallied.step hkept hfolded.textKeyed.nodup hn hfolds
        obtain ⟨stays'', hsifted', hkept''⟩ := hsifted.step hkept hn hfolds
        obtain rfl : stays' = stays'' := List.append_cancel_right (hkept'.symm.trans hkept'')
        exact ⟨hfolded.step hV hC hsound ⟨rest, hdone⟩ hfolds, rest, stays', by simpa using hdone, hkept', htallied',
          hsifted'⟩)
  obtain rfl : rest = [] := by simpa using hrest
  obtain rfl : kept = stays := by simpa using hkept
  obtain ⟨hkeysC, hadds⟩ := adds_loadCatalogue hload
  obtain ⟨hheldC, -⟩ := holds_loadCatalogue (Tree.entriesAreJson_iff.mp hE.2) hload
  have hC : C.TextKeyed := ⟨hkeysC ▸ hE.1.exists_text, hkeysC ▸ hE.1.nodup⟩
  have hheld' : List.Forall₂ t.store.HoldsEntry V T :=
    hheld.imp fun _ _ he => ⟨he.1, he.2.extend hadds.toGrows⟩
  obtain ⟨K, hK, hsurvivors⟩ := survivors_of_sifted hheld' hV.nodup hheldC hshapes hfolded hsifted
  refine ⟨K, ?_, hsurvivors, ?_⟩
  · have hlt : id < t.store.cells.size := (Store.lt_size_of_cell hcell).trans_le hadds.size_le
    have hnot : ∀ v ∈ (kept.putAll C).values, ¬ t.store.Reaches v id := by
      intro v hv
      rcases hfolded.mem_values_putAll hC hv with hold | hnew
      · exact ((hapart v hold).grow hadds.toGrows).not_reaches
      · exact (hadds.apart (Store.lt_size_of_cell hcell) hnew).not_reaches
    rw [hstore, hid]
    refine Store.holds_object.mpr ⟨id, _, rfl, by rw [Store.cells_set, if_pos ⟨rfl, hlt⟩], ?_⟩
    exact forall₂_imp_of_mem (fun e he x _ hex => ⟨hex.1, hex.2.set (hnot e.2 (List.mem_map_of_mem he))⟩)
      (Store.holds_putAll hK hheldC)
  · rw [← hduplicates, htallied.counts,
      filterMap_eq_of_forall₂ hheld' fun e x he => countedShape_eq_ownShape? hheldC hshapes he]

/-! ## Whether folding succeeds -/

/-- A schema of the table can be removed in favour of another one. -/
theorem exists_runs_foldInto {m : String} (hshape : s.store.shape table.schemas = .object id kept)
    (hhas : kept.has (.text n) = true) :
    ∃ state' s', Runs (foldInto table state (.text n) (.text m)) s state' s' := by
  simp only [foldInto, SchemaTable.remove, runs_bind, runs_monadLift, runs_removeField, runs_textOf, runs_report,
    runs_pure]
  exact ⟨_, _, (), _, ⟨_, ⟨id, kept, hshape, hhas, rfl⟩, rfl⟩, _, _, ⟨_, ⟨⟨rfl, rfl⟩, rfl⟩, rfl⟩, _, _,
    ⟨_, ⟨⟨rfl, rfl⟩, rfl⟩, rfl⟩, (), _, rfl, rfl, rfl⟩

/-- A schema that has the shape of one of the catalogue is folded into that one. -/
theorem runs_foldSchema_of_target {name target : Scalar} (hC : C.has name = false)
    (hreference : s.store.isReference schema = false) (hkey : s.store.shapeKey schema = .ok key)
    (htarget : shapes.get? (.text key) = some target) (hrun : Runs (foldInto table state name target) s state' s') :
    Runs (foldSchema table C shapes merge state name schema) s state' s' := by
  refine runs_bind.mpr ⟨s.store.isReference schema, s, runs_monadLift.mpr ⟨_, runs_isReference.mpr ⟨rfl, rfl⟩, rfl⟩, ?_⟩
  rw [if_neg (by simp [hC, hreference])]
  refine runs_bind.mpr ⟨key, s, runs_monadLift.mpr ⟨_, runs_shapeKeyOf.mpr ⟨hkey, rfl⟩, rfl⟩, ?_⟩
  rw [htarget]
  exact hrun

/-- A schema whose shape was met under another name is folded into that one, if duplicates are merged. -/
theorem runs_foldSchema_of_repeated {name first : Scalar} (hC : C.has name = false)
    (hreference : s.store.isReference schema = false) (hkey : s.store.shapeKey schema = .ok key)
    (hnew : shapes.get? (.text key) = none) (hfirst : state.firstSeen.get? (.text key) = some first)
    (hother : first.same name = false)
    (hrun : Runs (foldInto table (state.meet key name) name first) s state' s') :
    Runs (foldSchema table C shapes true state name schema) s state' s' := by
  refine runs_bind.mpr ⟨s.store.isReference schema, s, runs_monadLift.mpr ⟨_, runs_isReference.mpr ⟨rfl, rfl⟩, rfl⟩, ?_⟩
  rw [if_neg (by simp [hC, hreference])]
  refine runs_bind.mpr ⟨key, s, runs_monadLift.mpr ⟨_, runs_shapeKeyOf.mpr ⟨hkey, rfl⟩, rfl⟩, ?_⟩
  rw [hnew]
  dsimp only
  rw [hfirst, Option.getD_some, if_pos (by rw [hother]; rfl)]
  simpa [FoldState.meet, hfirst] using hrun

/-- A schema of the table that has a shape key, if it is to be compared, can be folded. -/
theorem exists_runs_foldSchema (hshape : s.store.shape table.schemas = .object id kept)
    (hhas : kept.has (.text n) = true)
    (hkeyed : C.has (.text n) = false → s.store.isReference schema = false → ∃ key, s.store.shapeKey schema = .ok key)
    (htargets : ∀ key target, shapes.get? (.text key) = some target → ∃ m, target = .text m)
    (hfirsts : ∀ key first, state.firstSeen.get? (.text key) = some first → ∃ m, first = .text m) :
    ∃ state' s', Runs (foldSchema table C shapes merge state (.text n) schema) s state' s' := by
  by_cases hskip : C.has (.text n) = true ∨ s.store.isReference schema = true
  · exact ⟨state, s, runs_foldSchema_of_skip hskip⟩
  simp only [not_or, Bool.not_eq_true] at hskip
  obtain ⟨hC, hreference⟩ := hskip
  obtain ⟨key, hkey⟩ := hkeyed hC hreference
  cases htarget : shapes.get? (.text key) with
  | some target =>
    obtain ⟨m, rfl⟩ := htargets key target htarget
    obtain ⟨state', s', hrun⟩ := exists_runs_foldInto hshape hhas
    exact ⟨state', s', runs_foldSchema_of_target hC hreference hkey htarget hrun⟩
  | none =>
    by_cases hmeet : merge = false ∨ ((state.firstSeen.get? (.text key)).getD (.text n)).same (.text n) = true
    · exact ⟨_, s, runs_foldSchema_of_new hC hreference hkey htarget hmeet⟩
    obtain ⟨hmerge, hother⟩ := not_or.mp hmeet
    cases hseen : state.firstSeen.get? (.text key) with
    | none => simp [hseen] at hother
    | some first =>
      obtain ⟨m, rfl⟩ := hfirsts key first hseen
      rw [hseen, Option.getD_some, Bool.not_eq_true] at hother
      obtain rfl : merge = true := by simpa using hmerge
      obtain ⟨state', s', hrun⟩ := exists_runs_foldInto hshape hhas
      exact ⟨state', s', runs_foldSchema_of_repeated hC hreference hkey htarget hseen hother hrun⟩

/-- The rest of a table can be folded after its first schemas. -/
theorem exists_runs_foldRest {rest : Entries Value} (htable : table.schemas = .node id)
    (hid : id < st.cells.size) (hV : V.TextKeyed) (hC : C.TextKeyed)
    (hsound : ∀ key name, shapes.get? (.text key) = some name → ∃ v, (name, v) ∈ C ∧ st.shapeKey v = .ok key)
    (hapart : ∀ v ∈ V.values, st.Apart id v)
    (hkeyed : ∀ e ∈ V, C.has e.1 = false → st.isReference e.2 = false → ∃ key, st.shapeKey e.2 = .ok key)
    (hdone : done ++ rest = V) (hfolded : Folded st V C done state kept)
    (hstore : s.store = st.set id (.object kept)) :
    ∃ state' s' kept', Runs (rest.foldlM (fun state e => foldSchema table C shapes merge state e.1 e.2) state) s state' s' ∧
      s'.store = st.set id (.object kept') := by
  induction rest generalizing done state s kept with
  | nil => exact ⟨state, s, kept, runs_pure.mpr ⟨rfl, rfl⟩, hstore⟩
  | cons e rest ih =>
    have hmem : e ∈ V := hdone ▸ by simp
    obtain ⟨name, schema⟩ := e
    obtain ⟨n, rfl⟩ := hV.exists_text name (List.mem_map_of_mem hmem)
    have hschema := hapart schema (List.mem_map_of_mem hmem)
    have hnew : Scalar.text n ∉ done.keys := Entries.notMem_keys_of_split hV.nodup hdone
    have hhas : kept.has (.text n) = true := by
      rw [Entries.has, hfolded.get?_kept, hfolded.not_replaced hnew, Entries.get?_of_mem hV.nodup hmem]
      rfl
    have hshape : s.store.shape table.schemas = .object id kept := by
      rw [hstore, htable]
      exact Store.shape_node (by rw [Store.cells_set, if_pos ⟨rfl, hid⟩])
    obtain ⟨state', s', hstep⟩ := exists_runs_foldSchema hshape hhas
      (by
        rw [hstore, hschema.isReference_set, hschema.shapeKey_set]
        exact hkeyed _ hmem)
      (fun key target htarget => by
        obtain ⟨v, hv, -⟩ := hsound key target htarget
        exact hC.exists_text target (List.mem_map_of_mem hv))
      (fun key first hfirst => (hfolded.first key first hfirst).imp fun _ h => h.1)
    obtain ⟨kept', hfolds, hstore'⟩ := folds_of_runs htable hid hschema hstore hstep
    obtain ⟨state'', s'', kept'', hrest, hstore''⟩ := ih (by simpa using hdone)
      (hfolded.step hV hC hsound ⟨rest, hdone⟩ hfolds) hstore'
    exact ⟨state'', s'', kept'', by rw [List.foldlM_cons]; exact runs_bind.mpr ⟨state', s', hstep, hrest⟩, hstore''⟩

/-- Folding succeeds if the table has been gone through and the catalogue is merged into it. -/
theorem exists_runs_foldSchemas_of_merged {catalogue : Tree} (h : Runs (do
      let catalogue ← loadCatalogue catalogue
      let shapes ← catalogueShapes catalogue
      let state ← (← table.entries).foldlM (fun state e => foldSchema table catalogue shapes merge state e.1 e.2) {}
      table.merge catalogue
      return state) s state t) :
    ∃ s', Runs (foldSchemas table catalogue merge) s (state.replacements, state.counts.duplicates) s' := by
  simp only [runs_bind, runs_pure] at h
  obtain ⟨C, s₁, hload, shapes, s₂, hshapes, V, s₃, hentries, state, s₄, hloop, _, s₅, hmerged, rfl, rfl⟩ := h
  obtain ⟨s', hreport⟩ := exists_runs_forIn_report .warning
    (fun duplicate => s!"Found {duplicate.count} schemas with the same shape: {duplicate.key}")
    state.counts.duplicates s₅
  exact ⟨s', runs_bind.mpr ⟨C, s₁, hload, runs_bind.mpr ⟨shapes, s₂, hshapes, runs_bind.mpr ⟨V, s₃, hentries,
    runs_bind.mpr ⟨state, s₄, hloop, runs_bind.mpr ⟨(), s₅, hmerged, runs_bind.mpr ⟨PUnit.unit, s', hreport,
      runs_pure.mpr ⟨rfl, rfl⟩⟩⟩⟩⟩⟩⟩⟩

/-- Whether repeated shapes are folded makes no difference to whether folding succeeds. -/
theorem exists_runs_foldSchemas_of_runs {merge' : Bool}
    (hrun : Runs (foldSchemas table (.object E) merge) s (replacements, duplicates) s')
    (htable : s.store.Holds table.schemas (.object T)) (hT : Entries.TextKeyed T) (hE : (Tree.object E).IsJson) :
    ∃ replacements' duplicates' s'', Runs (foldSchemas table (.object E) merge') s (replacements', duplicates') s'' := by
  obtain ⟨id, V, hid, hcell, hheld, hV, hapart⟩ := htable.exists_table hT
  obtain ⟨C, t, shapes, _, _, hload, hshapes, hfolded, -⟩ := hrun.foldSchemas_induct hid hcell hV hE.1 hapart
    (fun st C _ done state kept => Folded st V C done state kept) (fun _ _ _ => .init hV)
    fun st C shapes done n schema rest state kept state' kept' hC hsound hdone hI hfolds =>
      hI.step hV hC hsound ⟨rest, hdone⟩ hfolds
  obtain ⟨hkeysC, hadds⟩ := adds_loadCatalogue hload
  have hC : C.TextKeyed := ⟨hkeysC ▸ hE.1.exists_text, hkeysC ▸ hE.1.nodup⟩
  have hcell' : t.store.cells[id]? = some (.object V) :=
    (hadds.agree id (Store.lt_size_of_cell hcell)).trans hcell
  have hlt : id < t.store.cells.size := Store.lt_size_of_cell hcell'
  obtain ⟨state, u, kept, hloop, hstore⟩ := exists_runs_foldRest hid hlt hV hC
    (catalogueShapes_sound hshapes).2 (fun v hv => (hapart v hv).grow hadds.toGrows) hfolded.keyed
    (List.nil_append V) (.init hV) (Store.set_self hcell').symm
  have hshape : u.store.shape table.schemas = .object id kept := by
    rw [hstore, hid]
    exact Store.shape_node (by rw [Store.cells_set, if_pos ⟨rfl, hlt⟩])
  have hmerged : Runs (liftM (table.merge C)) u () { u with store := u.store.set id (.object (kept.putAll C)) } :=
    runs_liftM.mpr ⟨_, Edit.runs_bind.mpr ⟨(id, kept), u.store, runs_objectOf.mpr ⟨hshape, rfl⟩, runs_modify.mpr rfl⟩, rfl⟩
  have hentries : Runs (liftM table.entries) t V t :=
    runs_liftM.mpr ⟨t.store, runs_entriesOf.mpr ⟨⟨id, hid ▸ Store.shape_node hcell'⟩, rfl⟩, rfl⟩
  obtain ⟨s'', hfolds⟩ := exists_runs_foldSchemas_of_merged (runs_bind.mpr ⟨C, t, hload,
    runs_bind.mpr ⟨shapes, t, hshapes, runs_bind.mpr ⟨V, t, hentries, runs_bind.mpr ⟨state, u, hloop,
      runs_bind.mpr ⟨(), _, hmerged, runs_pure.mpr ⟨rfl, rfl⟩⟩⟩⟩⟩⟩)
  exact ⟨state.replacements, state.counts.duplicates, s'', hfolds⟩

/-! ## Names of the catalogue -/

/-- Under the names of the catalogue `E` the table `T'` has the schemas of the catalogue, whatever the table `T` had
there, and under other names it has no other schemas than `T`. -/
structure PrefersCatalogue (T E T' : Entries Tree) (replacements : Replacements) : Prop where
  /-- The schema of the catalogue takes the place of one of the same name. -/
  clash : ∀ n t e, T.get? (.text n) = some t → E.get? (.text n) = some e → T'.get? (.text n) = some e.canonical
  /-- So the shape of the schema is kept only if that of the catalogue has the same one. -/
  shape_iff : ∀ n t e, T.get? (.text n) = some t → E.get? (.text n) = some e →
    ((∃ t', T'.get? (.text n) = some t' ∧ t'.shapeKey = t.shapeKey) ↔ e.canonical.shapeKey = t.shapeKey)
  /-- Nothing is recorded of that. -/
  not_replaced : ∀ n, E.has (.text n) = true → replacements.has (.text (pointerTo n)) = false
  /-- All other schemas are those that the table had under the same names. -/
  own : ∀ n t', E.has (.text n) = false → T'.get? (.text n) = some t' → T.get? (.text n) = some t'

/-- No name of the catalogue is replaced. -/
theorem not_replaced_of_foldSchemas
    (hrun : Runs (foldSchemas table (.object E) merge) s (replacements, duplicates) s')
    (htable : s.store.Holds table.schemas (.object T)) (hT : Entries.TextKeyed T) (hE : Entries.TextKeyed E)
    (hn : Entries.has E (.text n) = true) : replacements.has (.text (pointerTo n)) = false := by
  obtain ⟨id, V, hid, hcell, -, hV, hapart⟩ := htable.exists_table hT
  obtain ⟨C, t, state, kept, hload, hfolded, rfl, -⟩ := folded_of_foldSchemas hrun hid hcell hV hE hapart
  have hhas : C.has (.text n) = true := (Entries.has_eq_of_keys_eq (adds_loadCatalogue hload).1).trans hn
  rw [Entries.has_eq_false]
  by_contra hsome
  obtain ⟨q, hq⟩ := Option.ne_none_iff_exists'.mp hsome
  simp [(hfolded.replaced n q hq).2.1] at hhas

/-- **The catalogue prevails.** If folding a table with a catalogue succeeds, then a schema of the table that is named
like one of the catalogue gives way to that one, whatever their shapes, and no other schema is changed. -/
theorem foldSchemas_prefers_catalogue
    (hrun : Runs (foldSchemas table (.object E) merge) s (replacements, duplicates) s')
    (htable : s.store.Holds table.schemas (.object T)) (hT : Entries.TextKeyed T) (hE : (Tree.object E).IsJson) :
    ∃ T', s'.store.Holds table.schemas (.object T') ∧ PrefersCatalogue T E T' replacements := by
  obtain ⟨K, hholds, hsurvivors, -⟩ := exists_survivors_of_foldSchemas hrun htable hT hE
  have hkeys : Entries.keys (canonicalCatalogue E) = Entries.keys E := by simp [Entries.keys, canonicalCatalogue]
  have hcatalogue : Entries.TextKeyed (canonicalCatalogue E) :=
    ⟨hkeys ▸ hE.1.exists_text, hkeys ▸ hE.1.nodup⟩
  have hget (n : String) : Entries.get? (.text n) (Entries.putAll K (canonicalCatalogue E)) =
      ((Entries.get? (.text n) E).map Tree.canonical).or (Entries.get? (.text n) K) := by
    rw [Entries.get?_putAll hcatalogue, canonicalCatalogue, Entries.get?_map]
  have hclash (n : String) (e : Tree) (he : Entries.get? (.text n) E = some e) :
      Entries.get? (.text n) (Entries.putAll K (canonicalCatalogue E)) = some e.canonical := by
    rw [hget, he]
    rfl
  refine ⟨_, hholds, fun n _ e _ he => hclash n e he, fun n t e _ he => ?_, fun n hn =>
    not_replaced_of_foldSchemas hrun htable hT hE.1 hn, fun n t' hn ht' => ?_⟩
  · rw [hclash n e he]
    simp
  · rw [hget, Entries.has_eq_false.mp hn] at ht'
    exact Entries.get?_of_mem hT.nodup (hsurvivors.sublist.subset (Entries.mem_of_get? ht'))

/-- A schema with a name of the catalogue and another one. -/
def shadowedTable : List (Scalar × Tree) :=
  [("Label", .ofFields [("type", .text "boolean")]), ("Name", .ofFields [("type", .text "string")])]

/-- A catalogue with another schema of that name. -/
def shadowingCatalogue : List (Scalar × Tree) := [("Name", .ofFields [("type", .text "integer")])]

theorem exists_runs_shadowed : ∃ replacements duplicates s',
    Runs (foldSchemas ⟨(Store.empty.load (.object shadowedTable)).1⟩ (.object shadowingCatalogue) false)
      { store := (Store.empty.load (.object shadowedTable)).2 } (replacements, duplicates) s' := by
  have hruns : ((foldSchemas ⟨(Store.empty.load (.object shadowedTable)).1⟩ (.object shadowingCatalogue) false).runOn
      { store := (Store.empty.load (.object shadowedTable)).2 }).1.toOption.map (fun _ => true) = some true := by
    decide +kernel
  obtain ⟨⟨replacements, duplicates⟩, s', hrun, -⟩ := exists_runs hruns
  exact ⟨replacements, duplicates, s', hrun⟩

theorem foldSchemas_prefers_catalogue_shadowed :
    ∃ replacements duplicates s' T',
      Runs (foldSchemas ⟨(Store.empty.load (.object shadowedTable)).1⟩ (.object shadowingCatalogue) false)
        { store := (Store.empty.load (.object shadowedTable)).2 } (replacements, duplicates) s' ∧
      s'.store.Holds (Store.empty.load (.object shadowedTable)).1 (.object T') ∧
      Entries.get? "Name" T' = some (.ofFields [("type", .text "integer"), ("format", .text "int32")]) := by
  have hjson : (Tree.object shadowedTable).IsJson := by decide
  obtain ⟨replacements, duplicates, s', hrun⟩ := exists_runs_shadowed
  obtain ⟨T', hT', hprefers⟩ :=
    foldSchemas_prefers_catalogue hrun (Store.holds_load hjson Store.empty) hjson.1 (by decide)
  exact ⟨replacements, duplicates, s', T', hrun, hT', hprefers.clash "Name" _ _ rfl rfl⟩

/-- So a schema of the table may give way to one of another shape. -/
theorem foldSchemas_overrides_shape :
    ¬ ∀ (T E : List (Scalar × Tree)) (merge : Bool) (replacements : Replacements) (duplicates : List DuplicateShape)
      (s' : Session) (T' : List (Scalar × Tree)), (Tree.object T).IsJson → (Tree.object E).IsJson →
      Runs (foldSchemas ⟨(Store.empty.load (.object T)).1⟩ (.object E) merge)
        { store := (Store.empty.load (.object T)).2 } (replacements, duplicates) s' →
      s'.store.Holds (Store.empty.load (.object T)).1 (.object T') →
        ∀ n t, Entries.get? (.text n) T = some t → t.isReference = false → Entries.has E (.text n) = true →
          ∃ t', Entries.get? (.text n) T' = some t' ∧ t'.shapeKey = t.shapeKey := by
  intro hkeeps
  have hjson : (Tree.object shadowedTable).IsJson := by decide
  have hjson' : (Tree.object shadowingCatalogue).IsJson := by decide
  obtain ⟨replacements, duplicates, s', hrun⟩ := exists_runs_shadowed
  obtain ⟨K, hholds, -, -⟩ :=
    exists_survivors_of_foldSchemas hrun (Store.holds_load hjson Store.empty) hjson.1 hjson'
  obtain ⟨t', ht', hkey⟩ := hkeeps _ _ _ _ _ _ _ hjson hjson' hrun hholds "Name" _ rfl rfl rfl
  have hget : Entries.get? "Name" (Entries.putAll K (canonicalCatalogue shadowingCatalogue)) =
      some (.ofFields [("type", .text "integer"), ("format", .text "int32")]) :=
    Entries.get?_put_self
  obtain rfl := Option.some.inj (hget.symm.trans ht')
  have hne : (Tree.ofFields [("type", .text "integer"), ("format", .text "int32")]).shapeKey.toOption ≠
      (Tree.ofFields [("type", .text "string")]).shapeKey.toOption := by decide
  exact hne (congrArg Except.toOption hkey)

end Procedure

end DeviceApi
