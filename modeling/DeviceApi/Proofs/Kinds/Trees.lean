import DeviceApi.Proofs.Kinds.Stores
import DeviceApi.Proofs.Schema.Optional

/-!
# Trees of stores that differ in descriptions

What says nothing about a type holds the same tree in two stores that are alike. The tree of a schema may
differ in descriptions, and these count neither when optional keywords are left out nor in its shape key.
-/

namespace DeviceApi

variable {kinds ks : List Kind} {k : Kind} {s s' : Store} {i : Nat} {v w : Value} {entries entries' : Entries Value}

namespace Store.Matches

section

variable (h : s.Matches kinds s')
include h

/-- What lies below such a value is the same in both stores. -/
theorem cell_eq_of_reaches (hv : v.IsOf kinds [.plain, .loose]) (hi : s.Reaches v i) :
    s'.cells[i]? = s.cells[i]? := by
  induction hi with
  | here i =>
    obtain ⟨k, hk, hkind⟩ := hv
    refine h.cell_eq hkind ?_
    rcases List.mem_pair.mp hk with rfl | rfl <;> rfl
  | @part i j cell w hcell hpart _ ih =>
    obtain ⟨k, hk, hkind⟩ := hv
    rw [← cell.map_snd_places] at hpart
    obtain ⟨e, he, rfl⟩ := List.mem_map.mp hpart
    refine ih (((h.fits hkind hcell).places e he).of_subset ?_)
    rcases List.mem_pair.mp hk with rfl | rfl <;> simp

theorem size_eq : s'.cells.size = s.cells.size := by rw [h.size, h.size']

theorem tree_eq (hv : v.IsOf kinds [.plain, .loose]) : s'.tree v = s.tree v :=
  tree_eq_of_agree (fun _ hi => h.cell_eq_of_reaches hv hi) h.size_eq

/-- A list of what says nothing about a type is the same in both stores, with all that lies below it. -/
theorem tree_eq_of_items (hi : kinds[i]? = some k) (hk : k.items = [.plain]) {items : List Value}
    (hcell : s.cells[i]? = some (.list items)) : s'.tree (.node i) = s.tree (.node i) := by
  have hcell' : s'.cells[i]? = some (.list items) := by
    obtain ⟨cell, cell', hcell₁, hcell', halike, -, -⟩ := h.cells i k hi
    obtain rfl : cell = .list items := by simpa [hcell] using hcell₁.symm
    cases halike with
    | refl => exact hcell'
  refine tree_eq_of_agree (fun j hj => ?_) h.size_eq
  cases hj with
  | here => rw [hcell, hcell']
  | part hcell₁ hpart hreach =>
    obtain rfl : _ = Cell.list items := by simpa [hcell] using hcell₁.symm
    refine h.cell_eq_of_reaches ?_ hreach
    refine ((h.fits hi hcell).places (none, _) (List.mem_map.mpr ⟨_, hpart, rfl⟩)).of_subset ?_
    rw [Kind.below, hk]
    simp

end

end Store.Matches

/-! ## Without optional keywords -/

namespace Tree

theorem withoutOptionalEntry_eq_ok {key : Scalar} {t : Tree} {b : Scalar × Tree}
    (h : withoutOptionalEntry (key, t) = .ok b) :
    ∃ text, Json.keyText key = .ok text ∧ b.1 = .text (String.ofList (Text.joinHalves text.toList)) := by
  obtain ⟨text, u, htext, -, rfl⟩ := withoutOptionalEntry_eq_ok_iff.mp h
  exact ⟨text, htext, rfl⟩

theorem withoutOptionalEntry_eq_error {name : String} {t : Tree} {m : Misfit} :
    withoutOptionalEntry (.text name, t) = .error m ↔ t.withoutOptional = .error m := by
  unfold withoutOptionalEntry
  cases ht : t.withoutOptional <;> simp [Json.keyText, reread, bind, Except.bind, pure, Except.pure]

/-- The only reason for which the tree has no form without optional keywords is its content. -/
def Regular (t : Tree) : Prop := ∀ m, t.withoutOptional = .error m → m = .badContent

theorem badContent_of_keyText {a : Scalar} {m : Misfit} (ha : a.isJson = true) (h : Json.keyText a = .error m) :
    m = .badContent := by
  cases a with
  | int i =>
    simp only [Json.keyText] at h
    split at h
    · cases h
    · exact (Except.error.inj h).symm
  | octets | stamp | undefined => simp [Scalar.isJson] at ha
  | _ => cases h

/-- An entry that has no form without optional keywords has an unfit content, if its key is a scalar of JSON. -/
theorem badContent_of_withoutOptionalEntry {key : Scalar} {t : Tree} {m : Misfit} (hkey : key.isJson = true)
    (ht : Regular t) (h : withoutOptionalEntry (key, t) = .error m) : m = .badContent := by
  unfold withoutOptionalEntry at h
  cases htext : Json.keyText key with
  | error e =>
    obtain rfl : e = m := by simpa [htext, bind, Except.bind] using h
    exact badContent_of_keyText hkey htext
  | ok text =>
    refine ht m ?_
    cases hvalue : t.withoutOptional with
    | error e => simpa [htext, hvalue, reread, bind, Except.bind] using h
    | ok u => simp [htext, hvalue, reread, bind, Except.bind, pure, Except.pure] at h

theorem regular_scalar {a : Scalar} (ha : a.isJson = true) : Regular (.scalar a) := by
  intro m hm
  cases a with
  | int i =>
    cases htext : Json.keyText (.int i) with
    | error e =>
      obtain rfl : e = m := by simpa [withoutOptional, reread, htext, bind, Except.bind] using hm
      exact badContent_of_keyText ha htext
    | ok text => simp [withoutOptional, reread, htext, bind, Except.bind, pure, Except.pure] at hm
  | octets | stamp | undefined => simp [Scalar.isJson] at ha
  | _ => simp [withoutOptional, reread, Json.keyText, bind, Except.bind, pure, Except.pure] at hm

end Tree

/-- Going through a list ends with an answer for each item, or else with the one fault that an item may have. -/
theorem mapM_cases {ε α β : Type} {f : α → Except ε β} {fault : ε} {as : List α}
    (h : ∀ a ∈ as, ∀ e, f a = .error e → e = fault) :
    (∃ bs, as.mapM f = .ok bs ∧ List.Forall₂ (fun a b => f a = .ok b) as bs) ∨
      as.mapM f = .error fault ∧ ∃ a ∈ as, f a = .error fault := by
  induction as with
  | nil => exact .inl ⟨[], rfl, .nil⟩
  | cons a as ih =>
    rw [List.mapM_cons]
    cases ha : f a with
    | error e =>
      obtain rfl := h a List.mem_cons_self e ha
      exact .inr ⟨rfl, a, List.mem_cons_self, ha⟩
    | ok b =>
      rcases ih fun a' ha' => h a' (List.mem_cons_of_mem _ ha') with ⟨bs, hbs, hall⟩ | ⟨herror, a', ha', hfault⟩
      · rw [hbs]
        exact .inl ⟨b :: bs, rfl, .cons ha hall⟩
      · rw [herror]
        exact .inr ⟨rfl, a', List.mem_cons_of_mem _ ha', hfault⟩

/-- What is left without optional keywords of an entry whose value is read as a tree. -/
def optionalFree (f : Value → Tree) (e : Scalar × Value) : Except Misfit (Scalar × Tree) :=
  Tree.withoutOptionalEntry (e.1, f e.2)

/-- The trees are the same without optional keywords. -/
structure Tree.SameShape (t t' : Tree) : Prop where
  eq : t'.withoutOptional = t.withoutOptional
  regular : t.Regular

theorem Tree.sameShape_iff {t t' : Tree} : t.SameShape t' ↔ t'.withoutOptional = t.withoutOptional ∧
    ∀ m, t.withoutOptional = .error m → m = .badContent :=
  ⟨fun h => ⟨h.eq, h.regular⟩, fun h => ⟨h.1, h.2⟩⟩

theorem Tree.SameShape.symm {t t' : Tree} (h : t.SameShape t') : t'.SameShape t :=
  ⟨h.eq.symm, fun m hm => h.regular m (h.eq ▸ hm)⟩

section

variable {f f' : Value → Tree} {found found' : List (Scalar × Tree)}

theorem optionalFree_eq {e : Scalar × Value} (h : (f e.2).SameShape (f' e.2)) :
    optionalFree f' e = optionalFree f e := by
  simp only [optionalFree, Tree.withoutOptionalEntry, h.eq]

theorem badContent_of_optionalFree {e : Scalar × Value} {m : Misfit} (he : e.1.isJson = true)
    (h : (f e.2).Regular) (hm : optionalFree f e = .error m) : m = .badContent :=
  Tree.badContent_of_withoutOptionalEntry he h hm

/-- Descriptions may be left out of what is left. -/
theorem exists_undescribed_of_forall₂ (h : List.Forall₂ (fun e b => optionalFree f e = .ok b) entries found) :
    ∃ others, List.Forall₂ (fun e b => optionalFree f e = .ok b) entries.undescribed others ∧
      (found.filter fun e => !isOptionalKeyword e.1) = others.filter fun e => !isOptionalKeyword e.1 := by
  have hoptional : isOptionalKeyword (.text (String.ofList (Text.joinHalves descriptionKey.toList))) = true := by
    decide
  induction h with
  | nil => exact ⟨[], .nil, rfl⟩
  | @cons e b rest bs he _ ih =>
    obtain ⟨others, hothers, hfilter⟩ := ih
    unfold Entries.undescribed at hothers ⊢
    cases hkey : e.1.isOther with
    | true =>
      refine ⟨b :: others, ?_, ?_⟩
      · rw [List.filter_cons_of_pos (by simpa using hkey)]
        exact .cons he hothers
      · rw [List.filter_cons, List.filter_cons, hfilter]
    | false =>
      have hdescription : e.1 = .text descriptionKey := by simpa [Scalar.isOther] using hkey
      obtain ⟨text, htext, hb⟩ := Tree.withoutOptionalEntry_eq_ok he
      rw [hdescription] at htext
      obtain rfl : descriptionKey = text := Except.ok.inj htext
      refine ⟨others, ?_, ?_⟩
      · rwa [List.filter_cons_of_neg (by simp [hkey])]
      · rw [List.filter_cons_of_neg (by simp [hb, hoptional]), hfilter]

/-- What counts is the same before and after keys are brought together. -/
theorem filter_ofPairs (h : List.Forall₂ (fun e b => optionalFree f e = .ok b) entries found) :
    ((Entries.ofPairs found).filter fun e => !isOptionalKeyword e.1) =
      Entries.ofPairs (found.filter fun e => !isOptionalKeyword e.1) := by
  refine Entries.filter_putAll (p := fun key => !isOptionalKeyword key) fun key hkey => ?_
  obtain ⟨b, hb, rfl⟩ := List.mem_map.mp hkey
  obtain ⟨e, -, hok⟩ := exists_mem_of_forall₂_right h hb
  obtain ⟨text, -, heq⟩ := Tree.withoutOptionalEntry_eq_ok hok
  exact ⟨_, heq⟩

variable (halike : entries.Alike entries') (hnodup : entries.keys.Nodup)
  (hread : ∀ e ∈ entries, (f e.2).SameShape (f' e.2)) (htext : ∀ t m, (f (.text t)).withoutOptional ≠ .error m)
include halike hnodup hread htext

/-- An entry of the one object cannot be read if one of the other object cannot be read. -/
theorem exists_error_of_exists_error (h : ∃ e ∈ entries, ∃ m, optionalFree f e = .error m) :
    ∃ e ∈ entries', ∃ m, optionalFree f' e = .error m := by
  obtain ⟨⟨key, x⟩, he, m, hm⟩ := h
  by_cases hkey : key = .text descriptionKey
  · subst hkey
    have hget := Entries.get?_of_mem hnodup he
    rcases halike.description with heq | ⟨htexts, -⟩
    · exact ⟨_, Entries.mem_of_get? (heq ▸ hget), m, (optionalFree_eq (hread _ he)).trans hm⟩
    · obtain ⟨t, rfl⟩ := htexts x hget
      exact absurd (Tree.withoutOptionalEntry_eq_error.mp hm) (htext t m)
  · have hother : (key, x) ∈ entries.undescribed :=
      List.mem_filter.mpr ⟨he, by simpa [Scalar.isOther] using hkey⟩
    rw [halike.others] at hother
    exact ⟨_, (List.mem_filter.mp hother).1, m, (optionalFree_eq (hread _ he)).trans hm⟩

/-- Two objects that are alike are the same without optional keywords. -/
theorem sameShape_object (hjson : ∀ key ∈ entries.keys, key.isJson = true) (hnodup' : entries'.keys.Nodup)
    (hjson' : ∀ key ∈ entries'.keys, key.isJson = true) (hread' : ∀ e ∈ entries', (f e.2).SameShape (f' e.2))
    (htext' : ∀ t m, (f' (.text t)).withoutOptional ≠ .error m) :
    (Tree.object (entries.map fun e => (e.1, f e.2))).SameShape
      (.object (entries'.map fun e => (e.1, f' e.2))) := by
  have hsymm : Entries.Alike entries' entries :=
    ⟨halike.others.symm, halike.description.imp Eq.symm And.symm⟩
  have hcases := mapM_cases fun e he m =>
    badContent_of_optionalFree (hjson e.1 (List.mem_map_of_mem he)) (hread e he).regular
  have hcases' := mapM_cases fun e he m =>
    badContent_of_optionalFree (hjson' e.1 (List.mem_map_of_mem he)) (hread' e he).symm.regular
  have hmap : ∀ (es : Entries Value) (f : Value → Tree),
      (es.map fun e => (e.1, f e.2)).mapM Tree.withoutOptionalEntry = es.mapM (optionalFree f) :=
    fun es f => List.mapM_map
  rw [Tree.sameShape_iff, Tree.withoutOptional_object, Tree.withoutOptional_object, hmap, hmap]
  rcases hcases with ⟨found, hfound, hall⟩ | ⟨herror, e, he, hfails⟩
  · rcases hcases' with ⟨found', hfound', hall'⟩ | ⟨-, e, he, hfails⟩
    · obtain ⟨others, hrest, hfilter⟩ := exists_undescribed_of_forall₂ hall
      obtain ⟨others', hrest', hfilter'⟩ := exists_undescribed_of_forall₂ hall'
      have heq : others = others' := by
        refine forall₂_right_unique_of_mem (fun b _ e c hb hc => Except.ok.inj (hb.symm.trans hc)) hrest ?_
        rw [← halike.others] at hrest'
        refine forall₂_imp_of_mem (fun e he b _ hb => ?_) hrest'
        exact (optionalFree_eq (hread e (List.mem_filter.mp he).1)).symm.trans hb
      rw [hfound, hfound']
      simp only [Except.map_ok, filter_ofPairs hall, filter_ofPairs hall', hfilter, hfilter', heq,
        true_and]
      simp
    · obtain ⟨e₁, he₁, m, hfails₁⟩ := exists_error_of_exists_error hsymm hnodup'
        (fun e he => (hread' e he).symm) htext' ⟨e, he, _, hfails⟩
      obtain ⟨b, -, hb⟩ := exists_mem_of_forall₂ hall he₁
      simp [hb] at hfails₁
  · rcases hcases' with ⟨found', hfound', hall'⟩ | ⟨herror', -⟩
    · obtain ⟨e₁, he₁, m, hfails₁⟩ := exists_error_of_exists_error halike hnodup hread htext ⟨e, he, _, hfails⟩
      obtain ⟨b, -, hb⟩ := exists_mem_of_forall₂ hall' he₁
      simp [hb] at hfails₁
    · rw [herror, herror']
      exact ⟨rfl, fun m hm => by simpa [eq_comm] using hm⟩

end

theorem Tree.sameShape_list {items : List Value} {f f' : Value → Tree}
    (h : ∀ v ∈ items, (f v).SameShape (f' v)) : (Tree.list (items.map f)).SameShape (.list (items.map f')) := by
  have hlist : ∀ f : Value → Tree, (Tree.list (items.map f)).withoutOptional =
      Tree.list <$> items.mapM fun v => (f v).withoutOptional := by
    intro f
    rw [withoutOptional, withoutOptionalItems_eq, List.mapM_map, map_eq_pure_bind]
    rfl
  have heq : (items.mapM fun v => (f' v).withoutOptional) = items.mapM fun v => (f v).withoutOptional :=
    mapM_congr_of_mem fun v hv => (h v hv).eq
  rw [sameShape_iff, hlist, hlist, heq]
  refine ⟨rfl, fun m hm => ?_⟩
  rcases mapM_cases fun v hv m => (h v hv).regular m with ⟨found, hfound, -⟩ | ⟨herror, -⟩
  · simp [hfound] at hm
  · simpa [herror, eq_comm] using hm

theorem Tree.sameShape_self {t : Tree} (h : t.Regular) : t.SameShape t := ⟨rfl, h⟩

namespace Store

theorem treeInside_text (depth : Nat) (around : List Nat) (t : String) (m : Misfit) :
    (s.treeInside depth around (.text t)).withoutOptional ≠ .error m := by
  cases depth <;>
    simp [treeInside, shape, Tree.withoutOptional, reread, Json.keyText, bind, Except.bind, pure, Except.pure]

theorem treeInside_list {depth : Nat} {around : List Nat} {items : List Value}
    (hi : around.contains i = false) (hshape : s.shape v = .list i items) :
    s.treeInside (depth + 1) around v = .list (items.map (s.treeInside depth (i :: around))) := by
  rw [treeInside, hshape]
  simp only [hi, Bool.false_eq_true, if_false]

theorem treeInside_object {depth : Nat} {around : List Nat} (hi : around.contains i = false)
    (hshape : s.shape v = .object i entries) : s.treeInside (depth + 1) around v =
      .object (entries.map fun e => (e.1, s.treeInside depth (i :: around) e.2)) := by
  rw [treeInside, hshape]
  simp only [hi, Bool.false_eq_true, if_false]

/-- The trees of a value that is no schema of a catalogue are the same without optional keywords. -/
theorem Matches.sameShape_treeInside (h : s.Matches kinds s') (depth : Nat) {around : List Nat} (hv : v.IsOf kinds ks)
    (hloose : .loose ∉ ks) : (s.treeInside depth around v).SameShape (s'.treeInside depth around v) := by
  have henclosing : ∀ {isObject : Bool}, (Tree.enclosing isObject).SameShape (.enclosing isObject) :=
    ⟨rfl, fun m hm => by simpa [Tree.withoutOptional, eq_comm] using hm⟩
  induction depth generalizing around v ks with
  | zero => exact Tree.sameShape_self (Tree.regular_scalar rfl)
  | succ depth ih =>
    cases v with
    | scalar a => exact Tree.sameShape_self (Tree.regular_scalar (hv.resolve_right hloose))
    | node i =>
      obtain ⟨k, hk, hi⟩ := hv
      have hne : k ≠ .loose := fun heq => hloose (heq ▸ hk)
      obtain ⟨cell, cell', hcell, hcell', halike, hfits, hfits'⟩ := h.cells i k hi
      have hbelow : ∀ {key : Option Scalar} {w : Value} {around : List Nat}, w.IsOf kinds (k.below key) →
          (s.treeInside depth around w).SameShape (s'.treeInside depth around w) := fun hof =>
        ih hof (Kind.loose_notMem_below hne _)
      cases hfits.json hne with
      | list items =>
        cases halike with
        | refl =>
          cases hin : around.contains i with
          | true =>
            simp only [treeInside, shape, hcell, hcell', hin, if_true]
            exact henclosing
          | false =>
            rw [treeInside_list hin (shape_eq_list.mpr ⟨rfl, hcell⟩),
              treeInside_list hin (shape_eq_list.mpr ⟨rfl, hcell'⟩)]
            refine Tree.sameShape_list fun w hw => ?_
            exact hbelow (hfits.places (none, w) (List.mem_map.mpr ⟨w, hw, rfl⟩))
      | @object entries hkeys hnodup =>
        obtain ⟨entries', hcell₁, hentries⟩ := h.exists_object hi hcell
        cases hin : around.contains i with
        | true =>
          simp only [treeInside, shape, hcell, hcell₁, hin, if_true]
          exact henclosing
        | false =>
          rw [treeInside_object hin (shape_node hcell), treeInside_object hin (shape_node hcell₁)]
          cases hentries.fits'.json hne with
          | object hkeys' hnodup' =>
            exact sameShape_object hentries.alike hnodup (fun e he => hbelow (hentries.fits.entry he))
              (treeInside_text _ _) hkeys hnodup' hkeys' (fun e he => hbelow (hentries.fits'.entry he))
              (treeInside_text _ _)

theorem Matches.withoutOptional_tree_eq (h : s.Matches kinds s') (hv : v.IsOf kinds ks) (hloose : .loose ∉ ks) :
    (s'.tree v).withoutOptional = (s.tree v).withoutOptional := by
  unfold tree
  rw [h.size_eq]
  exact (h.sameShape_treeInside _ hv hloose).eq

end Store

end DeviceApi
