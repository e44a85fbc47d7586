import DeviceApi.Proofs.Api.Grouping
import DeviceApi.Proofs.Document.Mirrors

/-!
# What parameters contribute to their groups

A parameter adds one node, the object of its property, and puts it into the group of its location. What it contributes is
read from the document as it was before all grouping. So the groups of an operation are told by the list of contributions
and by the number of the first new node, and grouping the same parameters again leads to groups that are alike.
-/

namespace DeviceApi

variable {s t t' : Store} {v w : Value} {entries parameter : Entries Value} {u : Unit}

namespace Store

/-- The entries of an object after those of a further value have been put over them: of an object, or of a collection of
pairs. -/
def overlaid (s : Store) (entries : Entries Value) (further : Value) : Except Misfit (Entries Value) :=
  match s.shape further with
  | .object _ others => .ok (entries.putAll others)
  | _ => do
    let items ← s.elements further
    items.foldlM (fun entries item => do
      let (key, value) ← s.pair item
      return entries.put key value) entries

/-- The entries of the property that a parameter becomes. -/
def propertyFields (s : Store) (parameter : Entries Value) : Except Misfit (Entries Value) :=
  let schema := (parameter.get? "schema").getD .null
  if s.isTruthy schema then s.overlaid (Edit.describedBy s parameter) schema
  else .ok (Edit.describedBy s parameter)

/-! ## Reading after a change -/

theorem key_eq_of_lt (hv : ∀ i, v = .node i → i < s.cells.size) (hle : s.cells.size ≤ t.cells.size) :
    t.key v = s.key v := by
  have hnode : ∀ {s : Store} {i : Nat}, i < s.cells.size → s.key (.node i) = .error .wrongOperand := by
    intro s i hi
    have hcell : s.cells[i]? = some s.cells[i] := Array.getElem?_eq_getElem hi
    cases hc : s.cells[i] <;> simp [key, shape, hcell, hc]
  cases v with
  | scalar a => rfl
  | node i => rw [hnode (hv i rfl), hnode ((hv i rfl).trans_le hle)]

theorem elements_eq_of_shape_eq (h : t.shape v = s.shape v) : t.elements v = s.elements v := by
  simp only [elements, h]

theorem isTruthy_eq_of_shape_eq (h : t.shape v = s.shape v) : t.isTruthy v = s.isTruthy v := by
  simp only [isTruthy, h]

theorem pair_eq_of_shape_eq (h : t.shape v = s.shape v) (hle : s.cells.size ≤ t.cells.size)
    (hlt : ∀ items, s.elements v = .ok items → ∀ w ∈ items, ∀ i, w = .node i → i < s.cells.size) :
    t.pair v = s.pair v := by
  unfold pair
  rw [elements_eq_of_shape_eq h]
  cases helements : s.elements v with
  | error m => rfl
  | ok items =>
    match items with
    | [key, value] =>
      have hkey := key_eq_of_lt (hlt _ helements key List.mem_cons_self) hle
      simp only [bind, Except.bind, hkey]
    | [] | [_] | _ :: _ :: _ :: _ => rfl

theorem overlaid_eq_of_shape_eq (h : t.shape v = s.shape v)
    (hpair : ∀ items, s.elements v = .ok items → ∀ item ∈ items, t.pair item = s.pair item) :
    t.overlaid entries v = s.overlaid entries v := by
  unfold overlaid
  rw [h, elements_eq_of_shape_eq h]
  split
  · rfl
  · cases helements : s.elements v with
    | error m => rfl
    | ok items =>
      have hitems := hpair items helements
      clear helements hpair
      simp only [bind, Except.bind]
      induction items generalizing entries with
      | nil => rfl
      | cons item items ih =>
        simp only [List.foldlM_cons, hitems item List.mem_cons_self, bind, Except.bind]
        cases s.pair item with
        | error m => rfl
        | ok pair => exact ih fun item hitem => hitems item (List.mem_cons_of_mem _ hitem)

end Store

/-- What a parameter contributes to the groups. -/
structure Contribution where
  location : Scalar
  key : Scalar
  /-- The name as it stands in the list of those that are required. -/
  name : Value
  /-- The entries of the property. -/
  fields : Entries Value
  isRequired : Bool

/-- The groups after the property of a contribution has been put into the group of its location. -/
def Contribution.into (d : Contribution) (groups : ParameterGroups) (property : Value) : ParameterGroups :=
  groups.put d.location
    { properties := ((groups.get? d.location).getD {}).properties.put d.key property
      required := ((groups.get? d.location).getD {}).required ++ if d.isRequired then [d.name] else [] }

/-- The groups after a list of contributions, the properties of which are nodes with one number after the other. -/
def gather (groups : ParameterGroups) (n : Nat) : List Contribution → ParameterGroups
  | [] => groups
  | d :: ds => gather (d.into groups (.node n)) (n + 1) ds

namespace Store

/-- What a declared parameter contributes. -/
def Contributes (s : Store) (root declared : Value) (d : Contribution) : Prop :=
  ∃ w id parameter, s.dereference root declared = .ok w ∧ s.shape w = .object id parameter ∧
    s.key ((parameter.get? "in").getD .null) = .ok d.location ∧ s.propertyFields parameter = .ok d.fields ∧
    parameter.get? "name" = some d.name ∧ s.key d.name = .ok d.key ∧
    s.isTruthy ((parameter.get? "required").getD .null) = d.isRequired

theorem Contributes.unique {root : Value} {d d' : Contribution} (h : s.Contributes root v d)
    (h' : s.Contributes root v d') : d = d' := by
  obtain ⟨w, id, parameter, hw, hshape, hlocation, hfields, hname, hkey, hrequired⟩ := h
  obtain ⟨w', id', parameter', hw', hshape', hlocation', hfields', hname', hkey', hrequired'⟩ := h'
  obtain rfl := Except.ok.inj (hw.symm.trans hw')
  obtain ⟨rfl, rfl⟩ : id = id' ∧ parameter = parameter' := by rwa [hshape, Shape.object.injEq] at hshape'
  obtain ⟨location, key, name, fields, isRequired⟩ := d
  obtain ⟨location', key', name', fields', isRequired'⟩ := d'
  obtain rfl : location = location' := Except.ok.inj (hlocation.symm.trans hlocation')
  obtain rfl : fields = fields' := Except.ok.inj (hfields.symm.trans hfields')
  obtain rfl : name = name' := Option.some.inj (hname.symm.trans hname')
  obtain rfl : key = key' := Except.ok.inj (hkey.symm.trans hkey')
  obtain rfl : isRequired = isRequired' := hrequired.symm.trans hrequired'
  rfl

/-- The store with the objects of the properties. -/
def addProperties (t : Store) : List Contribution → Store
  | [] => t
  | d :: ds => addProperties (t.add (.object d.fields)).2 ds

theorem grows_addProperties {ds : List Contribution} : t.Grows (t.addProperties ds) := by
  induction ds generalizing t with
  | nil => exact .refl t
  | cons d ds ih => exact (Grows.add t _).trans ih

@[simp] theorem size_addProperties {ds : List Contribution} : (t.addProperties ds).cells.size = t.cells.size + ds.length := by
  induction ds generalizing t with
  | nil => rfl
  | cons d ds ih =>
    rw [addProperties, ih, size_add, List.length_cons]
    omega

theorem cells_addProperties {ds : List Contribution} {k : Nat} {d : Contribution} (hd : ds[k]? = some d) :
    (t.addProperties ds).cells[t.cells.size + k]? = some (.object d.fields) := by
  induction ds generalizing t k with
  | nil => cases hd
  | cons d' ds ih =>
    cases k with
    | zero =>
      obtain rfl := Option.some.inj hd
      rw [addProperties, Nat.add_zero, grows_addProperties.agree _ (by simp), cells_add, if_pos rfl]
    | succ k =>
      have hsize := @size_add t (.object d'.fields)
      have hrest := ih (t := (t.add (.object d'.fields)).2) hd
      rw [hsize] at hrest
      rwa [addProperties, Nat.add_succ, ← Nat.succ_add]

end Store

namespace Edit

variable {root : Nat} {gates : Set Gate} {K : Set Nat} {items : List Value} {path query : Option Value}
  {groups groups' : ParameterGroups}

/-- Going through pairs puts them into an object that has just been added. -/
theorem runs_forIn_put_iff (hnew : ∀ fields : Entries Value, (t.add (.object fields)).2.shape v = .object t.cells.size fields)
    (hpair : ∀ fields : Entries Value, ∀ item ∈ items, (t.add (.object fields)).2.pair item = s.pair item) :
    Runs (forIn items PUnit.unit fun item _ => do
      let (key, value) ← ofExcept ((← get).pair item)
      putField v key value
      pure (ForInStep.yield PUnit.unit)) (t.add (.object entries)).2 u t' ↔
      ∃ fields, items.foldlM (fun entries item => do
        let (key, value) ← s.pair item
        return Entries.put key value entries) entries = .ok fields ∧ t' = (t.add (.object fields)).2 := by
  induction items generalizing entries with
  | nil =>
    rw [List.forIn_nil, List.foldlM_nil, runs_pure]
    exact ⟨fun h => ⟨entries, rfl, h.2.symm⟩, fun ⟨_, hfields, h⟩ => ⟨rfl, (Except.ok.inj hfields ▸ h).symm⟩⟩
  | cons item items ih =>
    have hrest := fun fields => @ih fields fun fields item hitem => hpair fields item (List.mem_cons_of_mem _ hitem)
    rw [List.forIn_cons, List.foldlM_cons, runs_bind]
    simp only [runs_bind, runs_get, runs_ofExcept, runs_putField, runs_pure]
    constructor
    · rintro ⟨_, _, ⟨_, _, ⟨rfl, rfl⟩, ⟨key, value⟩, _, ⟨hvalue, rfl⟩, _, _, ⟨_, _, hobject, rfl⟩, rfl, rfl⟩, hloop⟩
      obtain ⟨rfl, rfl⟩ := Shape.object.inj ((hnew entries).symm.trans hobject)
      rw [hpair entries item List.mem_cons_self] at hvalue
      rw [Store.add_set] at hloop
      rw [hvalue]
      exact (hrest _).mp hloop
    · rintro ⟨fields, hfields, rfl⟩
      cases hvalue : s.pair item with
      | error m => simp [hvalue, bind, Except.bind] at hfields
      | ok pair =>
        obtain ⟨key, value⟩ := pair
        rw [hvalue] at hfields
        refine ⟨_, _, ⟨_, _, ⟨rfl, rfl⟩, (key, value), _, ⟨(hpair entries item List.mem_cons_self).trans hvalue, rfl⟩, (), _,
          ⟨_, _, hnew entries, rfl⟩, rfl, rfl⟩, ?_⟩
        rw [Store.add_set]
        exact (hrest _).mpr ⟨fields, hfields, rfl⟩

section

variable (hgated : View.Gated root gates ⟨s, K⟩) (hgrows : s.Grows t)
include hgated hgrows

theorem pair_eq_grow (hv : View.Linked ⟨s, K⟩ v) : t.pair v = s.pair v := by
  refine Store.pair_eq_of_shape_eq (hgated.shape_eq_grow hgrows hv) hgrows.size_le fun items helements w hw i hi => ?_
  exact hgated.lt i ((hgated.free_elements hv helements hw).linked i hi)

theorem key_eq_grow (hv : View.Linked ⟨s, K⟩ v) : t.key v = s.key v :=
  Store.key_eq_of_lt (fun i hi => hgated.lt i (hv i hi)) hgrows.size_le

theorem isTruthy_eq_grow (hv : View.Linked ⟨s, K⟩ v) : t.isTruthy v = s.isTruthy v :=
  Store.isTruthy_eq_of_shape_eq (hgated.shape_eq_grow hgrows hv)

/-- Putting entries over those of a new object is as good as adding an object with all of them. -/
theorem runs_overlay_iff (hw : View.Linked ⟨s, K⟩ w) :
    Runs (overlay (t.add (.object entries)).1 w) (t.add (.object entries)).2 u t' ↔
      ∃ fields, s.overlaid entries w = .ok fields ∧ t' = (t.add (.object fields)).2 := by
  have hgrows' : ∀ fields : Entries Value, s.Grows (t.add (.object fields)).2 := fun _ => hgrows.trans (.add t _)
  have hnew : ∀ fields : Entries Value, (t.add (.object fields)).2.shape (t.add (.object entries)).1 =
      .object t.cells.size fields := fun _ => Store.shape_node (by rw [Store.cells_add, if_pos rfl])
  have hshape := hgated.shape_eq_grow (hgrows' entries) hw
  rw [overlay, (runs_objectOf.mpr ⟨hnew entries, rfl⟩).bind_iff, (runs_look.mpr ⟨rfl, rfl⟩).bind_iff, hshape,
    Store.overlaid]
  cases hcase : s.shape w with
  | object id others =>
    simp only [runs_modify, Store.add_set, Except.ok.injEq, exists_eq_left']
    exact eq_comm
  | scalar | list | pair | set =>
    have helements : (t.add (.object entries)).2.elements w = s.elements w := Store.elements_eq_of_shape_eq hshape
    cases hitems : s.elements w with
    | error m =>
      refine iff_of_false (fun h => ?_) (by rintro ⟨_, h, -⟩; cases h)
      obtain ⟨_, _, hvisit, -⟩ := runs_bind.mp h
      cases (helements.trans hitems).symm.trans (runs_elementsOf.mp hvisit).1
    | ok items =>
      dsimp only
      rw [(runs_elementsOf.mpr ⟨helements.trans hitems, rfl⟩).bind_iff, bind_pure_unit]
      refine runs_forIn_put_iff hnew fun fields item hitem => ?_
      exact pair_eq_grow hgated (hgrows' fields) (hgated.free_elements hw hitems hitem).linked

theorem describedBy_eq_grow {x : Nat} (hw : View.Linked ⟨s, K⟩ w) (hshape : s.shape w = .object x parameter) :
    describedBy t parameter = describedBy s parameter := by
  unfold describedBy
  rw [isTruthy_eq_grow hgated hgrows (hgated.linked_field hw hshape)]

/-- The property of a parameter is one new node. -/
theorem runs_propertyOf_iff {x : Nat} (hw : View.Linked ⟨s, K⟩ w) (hshape : s.shape w = .object x parameter) :
    Runs (propertyOf parameter) t v t' ↔ ∃ fields, s.propertyFields parameter = .ok fields ∧
      v = .node t.cells.size ∧ t' = (t.add (.object fields)).2 := by
  have hschema : View.Linked ⟨s, K⟩ ((parameter.get? "schema").getD .null) := hgated.linked_field hw hshape
  have htruthy := isTruthy_eq_grow hgated (hgrows.trans (.add t (.object (describedBy s parameter)))) hschema
  have hfields : Runs (newObject (describedBy s parameter)) t (.node t.cells.size)
      (t.add (.object (describedBy s parameter))).2 := runs_newObject.mpr ⟨rfl, rfl⟩
  have hdescribed := describedBy_eq_grow hgated hgrows hw hshape
  rw [propertyOf, (runs_isTruthy.mpr ⟨rfl, rfl⟩).bind_iff]
  change Runs (newObject (describedBy t parameter) >>= _) t v t' ↔ _
  rw [hdescribed, hfields.bind_iff]
  dsimp only
  rw [(runs_isTruthy.mpr ⟨htruthy, rfl⟩).bind_iff, Store.propertyFields]
  cases s.isTruthy ((parameter.get? "schema").getD .null) with
  | false => simp [eq_comm]
  | true =>
    have hoverlay : ∀ u, Runs (overlay (t.add (.object (describedBy s parameter))).1 ((parameter.get? "schema").getD .null))
        (t.add (.object (describedBy s parameter))).2 u t' ↔
          ∃ fields, s.overlaid (describedBy s parameter) ((parameter.get? "schema").getD .null) = .ok fields ∧
            t' = (t.add (.object fields)).2 := fun _ => runs_overlay_iff hgated hgrows hschema
    rw [if_pos rfl, if_pos rfl, runs_bind]
    constructor
    · rintro ⟨_, _, hrun, hdone⟩
      obtain ⟨rfl, rfl⟩ := runs_pure.mp hdone
      obtain ⟨fields, hfields, rfl⟩ := (hoverlay _).mp hrun
      exact ⟨fields, hfields, rfl, rfl⟩
    · rintro ⟨fields, hfields, rfl, rfl⟩
      exact ⟨(), _, (hoverlay ()).mpr ⟨fields, hfields, rfl⟩, runs_pure.mpr ⟨rfl, rfl⟩⟩

/-- A parameter comes into the groups with a new node. -/
theorem runs_addParameter_iff (hv : View.Linked ⟨s, K⟩ v) :
    Runs (addParameter (.node root) groups v) t groups' t' ↔ ∃ d, s.Contributes (.node root) v d ∧
      groups' = d.into groups (.node t.cells.size) ∧ t' = (t.add (.object d.fields)).2 := by
  have hadded : ∀ fields : Entries Value, s.Grows (t.add (.object fields)).2 := fun _ => hgrows.trans (.add t _)
  constructor
  · intro h
    obtain ⟨w, id, parameter, location, property, name, key, hw, hshape, hlocation, hproperty, hname, hkey, rfl⟩ :=
      runs_addParameter h
    have hw := (hgated.dereference_grow hgrows hv).mp hw
    have hlinked := hgated.linked_dereference hv hw
    have hshape := (hgated.shape_eq_grow hgrows hlinked).symm.trans hshape
    obtain ⟨fields, hfields, rfl, rfl⟩ := (runs_propertyOf_iff hgated hgrows hlinked hshape).mp hproperty
    rw [key_eq_grow hgated hgrows (hgated.linked_field hlinked hshape)] at hlocation
    rw [key_eq_grow hgated (hadded fields) (hgated.linked_entry hlinked hshape (Entries.mem_of_get? hname))] at hkey
    refine ⟨⟨location, key, name, fields, _⟩, ⟨w, id, parameter, hw, hshape, hlocation, hfields, hname, hkey, rfl⟩, ?_, rfl⟩
    rw [isTruthy_eq_grow hgated (hadded fields) (hgated.linked_field hlinked hshape)]
    rfl
  · rintro ⟨d, ⟨w, id, parameter, hw, hshape, hlocation, hfields, hname, hkey, hrequired⟩, rfl, rfl⟩
    have hlinked := hgated.linked_dereference hv hw
    have hproperty := (runs_propertyOf_iff hgated hgrows hlinked hshape).mpr ⟨d.fields, hfields, rfl, rfl⟩
    rw [addParameter]
    refine runs_bind.mpr ⟨w, t, runs_dereference.mpr ⟨(hgated.dereference_grow hgrows hv).mpr hw, rfl⟩, ?_⟩
    refine runs_bind.mpr ⟨parameter, t, runs_entriesOf.mpr ⟨⟨id, (hgated.shape_eq_grow hgrows hlinked).trans hshape⟩, rfl⟩, ?_⟩
    refine runs_bind.mpr ⟨d.location, t, runs_keyOf.mpr ⟨?_, rfl⟩, runs_bind.mpr ⟨_, _, hproperty, ?_⟩⟩
    · rw [key_eq_grow hgated hgrows (hgated.linked_field hlinked hshape), hlocation]
    rw [hname]
    refine runs_bind.mpr ⟨d.key, _, runs_keyOf.mpr ⟨?_, rfl⟩, runs_bind.mpr ⟨d.isRequired, _, runs_isTruthy.mpr ⟨?_, rfl⟩, ?_⟩⟩
    · rw [key_eq_grow hgated (hadded _) (hgated.linked_entry hlinked hshape (Entries.mem_of_get? hname)), hkey]
    · rw [isTruthy_eq_grow hgated (hadded _) (hgated.linked_field hlinked hshape), hrequired]
    · refine runs_pure.mpr ⟨?_, rfl⟩
      unfold Contribution.into
      cases d.isRequired <;> simp

end

/-- Parameters come into the groups one after the other, each with a new node. -/
theorem runs_foldlM_addParameter_iff (hgated : View.Gated root gates ⟨s, K⟩) (hgrows : s.Grows t)
    (hitems : ∀ item ∈ items, View.Linked ⟨s, K⟩ item) :
    Runs (items.foldlM (addParameter (.node root)) groups) t groups' t' ↔
      ∃ ds, List.Forall₂ (s.Contributes (.node root)) items ds ∧ groups' = gather groups t.cells.size ds ∧
        t' = t.addProperties ds := by
  induction items generalizing t groups with
  | nil =>
    rw [runs_foldlM_nil]
    constructor
    · rintro ⟨rfl, rfl⟩
      exact ⟨[], .nil, rfl, rfl⟩
    · rintro ⟨ds, hds, rfl, rfl⟩
      cases hds
      exact ⟨rfl, rfl⟩
  | cons item items ih =>
    have hfirst := hitems item List.mem_cons_self
    have hrest := fun (d : Contribution) (groups : ParameterGroups) =>
      @ih (t.add (.object d.fields)).2 groups (hgrows.trans (.add t (.object d.fields))) fun item hitem => hitems item (List.mem_cons_of_mem _ hitem)
    simp only [Store.size_add] at hrest
    rw [runs_foldlM_cons]
    constructor
    · rintro ⟨_, _, hrun, hloop⟩
      obtain ⟨d, hd, rfl, rfl⟩ := (runs_addParameter_iff hgated hgrows hfirst).mp hrun
      obtain ⟨ds, hds, rfl, rfl⟩ := (hrest d _).mp hloop
      exact ⟨d :: ds, .cons hd hds, rfl, rfl⟩
    · rintro ⟨_, hds, rfl, rfl⟩
      obtain _ | @⟨_, d, _, ds, hd, hds⟩ := hds
      exact ⟨_, _, (runs_addParameter_iff hgated hgrows hfirst).mpr ⟨d, hd, rfl, rfl⟩, (hrest d _).mpr ⟨ds, hds, rfl, rfl⟩⟩

/-- The groups of an operation are told by what its parameters contribute. -/
theorem runs_groupParameters_iff (hgated : View.Gated root gates ⟨s, K⟩) (hv : View.Linked ⟨s, K⟩ v) :
    Runs (groupParameters (.node root) v) s (path, query) t' ↔ ∃ items ds s₂, s.elements v = .ok items ∧
      List.Forall₂ (s.Contributes (.node root)) items ds ∧
      Entries.remove "query" (Entries.remove "path" (gather [] s.cells.size ds)) = [] ∧
      Runs (groupSchema? ((gather [] s.cells.size ds).get? "path")) (s.addProperties ds) path s₂ ∧
      Runs (groupSchema? ((gather [] s.cells.size ds).get? "query")) s₂ query t' := by
  have hlinked : ∀ {items}, s.elements v = .ok items → ∀ item ∈ items, View.Linked ⟨s, K⟩ item :=
    fun helements item hitem => (hgated.free_elements hv helements hitem).linked
  constructor
  · intro h
    obtain ⟨items, groups, s₁, s₂, helements, hgroups, hothers, hpath, hquery⟩ := runs_groupParameters h
    obtain ⟨ds, hds, rfl, rfl⟩ := (runs_foldlM_addParameter_iff hgated (.refl s) (hlinked helements)).mp hgroups
    exact ⟨items, ds, s₂, helements, hds, hothers, hpath, hquery⟩
  · rintro ⟨items, ds, s₂, helements, hds, hothers, hpath, hquery⟩
    have hgroups : Runs (items.foldlM (addParameter (.node root)) []) s (gather [] s.cells.size ds) (s.addProperties ds) :=
      (runs_foldlM_addParameter_iff hgated (.refl s) (hlinked helements)).mpr ⟨ds, hds, rfl, rfl⟩
    rw [groupParameters, (runs_elementsOf.mpr ⟨helements, rfl⟩).bind_iff, hgroups.bind_iff, if_pos (by rw [hothers]; rfl),
      hpath.bind_iff, hquery.bind_iff]
    exact runs_pure.mpr ⟨rfl, rfl⟩

end Edit

end DeviceApi
