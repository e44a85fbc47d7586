import DeviceApi.Proofs.Schema.CanonicalForm
import DeviceApi.Proofs.Schema.EnvelopeCheck

/-!
# Removal of the envelope

A schema that passes the check loses the fields of the envelope from its properties and from its required names, and
nothing else.
-/

namespace DeviceApi

namespace Tree

/-- The keys that a visit of a tree meets, if it meets nothing but keys. -/
def keysListed : Tree → Option (List Scalar)
  | .list items => items.mapM scalar?
  | .object entries => some (Entries.keys entries)
  | .scalar (.text s) => some (s.toList.map fun c => .text (String.singleton c))
  | .scalar (.octets bytes) => some (bytes.map fun b => .int b.toNat)
  | _ => none

/-- A schema that keeps of its properties those beyond the envelope. -/
def trimmed (role : Role) (F P : Entries Tree) : Entries Tree :=
  F.put "properties" (.object (P.filter fun property => !role.hasEnvelopeField property.1))

/-- A schema whose required names are these keys, without the fields of the envelope. None are left as an empty
list. -/
def requiring (role : Role) (F : Entries Tree) (keys : List Scalar) : Entries Tree :=
  let kept := keys.filter fun key => !role.hasEnvelopeField key
  if kept.isEmpty then F.remove "required" else F.put "required" (.list (kept.map .scalar))

end Tree

namespace Edit

open Tree

/-- Whether a name is kept among the required ones. -/
def staysRequired (role : Role) (name : Value) : Edit Bool := do
  match ← look name with
  | .scalar s => return !role.hasEnvelopeField s
  | _ => if (← get).mayBeKey name then return true else misfit .wrongOperand

theorem requiredBeyondEnvelope_eq (role : Role) (required : Value) :
    requiredBeyondEnvelope role required = elementsOf required >>= List.filterM (staysRequired role) := rfl

variable {s : Store} {w : Value} {t : Tree} {keys : List Scalar} {role : Role}

theorem runs_staysRequired (key : Scalar) :
    Runs (staysRequired role (.scalar key)) s (!role.hasEnvelopeField key) s :=
  runs_bind.mpr ⟨.scalar key, s, runs_look.mpr ⟨rfl, rfl⟩, runs_pure.mpr ⟨rfl, rfl⟩⟩

/-- What has parts that may change is no name. -/
theorem runOn_staysRequired (hw : s.Holds w t) (hjson : t.IsJson) (hnot : t.scalar? = none) :
    (staysRequired role w).runOn s = (.error (.misfit .wrongOperand), s) := by
  cases t with
  | scalar key => cases hnot
  | list items =>
    obtain ⟨id, values, rfl, hcell, -⟩ := Store.holds_list.mp hw
    have hshape : s.shape (.node id) = .list id values := Store.shape_eq_list.mpr ⟨rfl, hcell⟩
    rw [staysRequired, (runs_look.mpr ⟨hshape, rfl⟩).runOn_bind]
    change (if s.mayBeKey (.node id) then pure true else misfit .wrongOperand : Edit Bool).runOn s = _
    rw [Store.mayBeKey, hshape]
    rfl
  | object entries =>
    obtain ⟨id, values, hshape, -⟩ := hw.shape_object
    rw [staysRequired, (runs_look.mpr ⟨hshape, rfl⟩).runOn_bind]
    change (if s.mayBeKey w then pure true else misfit .wrongOperand : Edit Bool).runOn s = _
    rw [Store.mayBeKey, hshape]
    rfl
  | pair | set | enclosing => exact hjson.elim

theorem exists_scalar_of_mapM {items : List Tree} (h : items.mapM scalar? = some keys) : items = keys.map .scalar := by
  induction items generalizing keys with
  | nil =>
    obtain rfl : [] = keys := by simpa using h
    rfl
  | cons item rest ih =>
    rw [List.mapM_cons] at h
    cases item with
    | scalar key =>
      cases hrest : rest.mapM scalar? with
      | none => simp [hrest] at h
      | some others =>
        obtain rfl : key :: others = keys := by simpa [scalar?, hrest] using h
        rw [ih hrest, List.map_cons]
    | _ => simp [scalar?] at h

theorem exists_none_of_mapM {items : List Tree} (h : items.mapM scalar? = none) : ∃ item ∈ items, item.scalar? = none := by
  induction items with
  | nil => cases h
  | cons item rest ih =>
    rw [List.mapM_cons] at h
    cases hitem : item.scalar? with
    | none => exact ⟨item, List.mem_cons_self, hitem⟩
    | some key =>
      cases hrest : rest.mapM scalar? with
      | none =>
        obtain ⟨other, hother, hnone⟩ := ih hrest
        exact ⟨other, List.mem_cons_of_mem _ hother, hnone⟩
      | some others => simp [hitem, hrest] at h

theorem elements_of_keysListed (hw : s.Holds w t) (hkeys : t.keysListed = some keys) :
    s.elements w = .ok (keys.map .scalar) := by
  cases t with
  | scalar key =>
    obtain rfl := Store.holds_scalar.mp hw
    cases key with
    | text text =>
      obtain rfl := Option.some.inj hkeys
      simp [Store.elements, Store.shape]
    | octets bytes =>
      obtain rfl := Option.some.inj hkeys
      simp [Store.elements, Store.shape]
    | _ => cases hkeys
  | list items =>
    obtain rfl := exists_scalar_of_mapM hkeys
    obtain ⟨id, values, rfl, hcell, hitems⟩ := Store.holds_list.mp hw
    have hvalues : values = keys.map .scalar := by
      rw [List.forall₂_map_right_iff] at hitems
      simpa [← List.forall₂_eq_eq_eq, List.forall₂_map_right_iff] using hitems
    rw [Store.elements, Store.shape_eq_list.mpr ⟨rfl, hcell⟩, hvalues]
  | object entries =>
    obtain ⟨id, values, hshape, hentries⟩ := hw.shape_object
    obtain rfl := Option.some.inj hkeys
    rw [← Store.keys_eq_of_holds hentries, Store.elements, hshape]
  | pair | set | enclosing => cases hkeys

/-- Of keys, those beyond the envelope are kept. -/
theorem runs_requiredBeyondEnvelope_of_keysListed (hw : s.Holds w t) (hkeys : t.keysListed = some keys) :
    Runs (requiredBeyondEnvelope role w) s ((keys.filter fun key => !role.hasEnvelopeField key).map .scalar) s := by
  have helements : Runs (elementsOf w) s (keys.map .scalar) s :=
    runs_elementsOf.mpr ⟨elements_of_keysListed hw hkeys, rfl⟩
  have hall : ∀ item ∈ keys.map Value.scalar, Runs (staysRequired role item) s (s.beyondEnvelope role item) s := by
    intro item hitem
    obtain ⟨key, -, rfl⟩ := List.mem_map.mp hitem
    exact runs_staysRequired key
  rw [requiredBeyondEnvelope_eq, helements.bind_iff]
  have hfilter := runs_filterM_of_forall hall
  rw [List.filter_map] at hfilter
  exact hfilter

/-- What is no list of keys fails to be gone through. -/
theorem runOn_requiredBeyondEnvelope_of_none (hw : s.Holds w t) (hjson : t.IsJson) (hnone : t.keysListed = none) :
    (requiredBeyondEnvelope role w).runOn s = (.error (.misfit .wrongOperand), s) := by
  cases t with
  | scalar key =>
    obtain rfl := Store.holds_scalar.mp hw
    cases key with
    | text | octets => cases hnone
    | _ => rfl
  | list items =>
    obtain ⟨id, values, rfl, hcell, hitems⟩ := Store.holds_list.mp hw
    have helements : Runs (elementsOf (.node id)) s values s := by
      rw [runs_elementsOf, Store.elements, Store.shape_eq_list.mpr ⟨rfl, hcell⟩]
      exact ⟨rfl, rfl⟩
    rw [requiredBeyondEnvelope_eq, helements.runOn_bind]
    have hjsons := Tree.areJson_iff.mp hjson
    refine runOn_filterM_of_fault (p := s.beyondEnvelope role) (fun value hvalue => ?_) ?_
    · obtain ⟨item, hitem, hheld⟩ := exists_mem_of_forall₂ hitems hvalue
      cases hscalar : item.scalar? with
      | none => exact .inr (runOn_staysRequired hheld (hjsons item hitem) hscalar)
      | some key =>
        obtain ⟨_, rfl⟩ : ∃ key, item = .scalar key := by cases item <;> simp_all [scalar?]
        obtain rfl := Store.holds_scalar.mp hheld
        exact .inl (runs_staysRequired _)
    · obtain ⟨item, hitem, hscalar⟩ := exists_none_of_mapM hnone
      obtain ⟨value, hvalue, hheld⟩ := exists_mem_of_forall₂_right hitems hitem
      exact ⟨value, hvalue, runOn_staysRequired hheld (hjsons item hitem) hscalar⟩
  | object entries => cases hnone
  | pair | set | enclosing => exact hjson.elim


/-! ## Removing -/

variable {id : Nat} {F P : Entries Tree} {properties : Entries Value}

/-- The required names lose the fields of the envelope, if they can be gone through. -/
theorem exists_runs_trimRequired (role : Role) (hheld : s.Holds (.node id) (.object F)) (ht : F.get? "required" = some t)
    (hkeys : t.keysListed = some keys) : ∃ s', Runs (trimRequired role (.node id)) s () s' ∧
      s'.Holds (.node id) (.object (requiring role F keys)) ∧ s.KeepsOthers id s' := by
  obtain ⟨id', values, heq, hcell, hentries⟩ := Store.holds_object.mp hheld
  obtain rfl := Value.node.inj heq
  obtain ⟨w, hw, hwt⟩ := Store.exists_value_of_get? hentries ht
  have hread : Runs (entriesOf (.node id)) s values s := runs_entriesOf.mpr ⟨⟨id, Store.shape_node hcell⟩, rfl⟩
  simp only [trimRequired, hread.bind_iff, hw, (runs_requiredBeyondEnvelope_of_keysListed hwt hkeys).bind_iff,
    requiring, List.isEmpty_map]
  split
  · exact exists_runs_removeField_of_holds hheld (by rw [Entries.has, ht]; rfl)
  · exact exists_runs_put_newList hheld "required"

theorem runs_trimRequired_of_none (hheld : s.Holds (.node id) (.object F)) (hnone : F.get? "required" = none) :
    Runs (trimRequired role (.node id)) s () s := by
  obtain ⟨id', values, hshape, hentries⟩ := hheld.shape_object
  have hread : Runs (entriesOf (.node id)) s values s := runs_entriesOf.mpr ⟨⟨id', hshape⟩, rfl⟩
  have hget : values.get? "required" = none := by
    rcases Store.get?_of_holds (.text "required") hentries with ⟨h, -⟩ | ⟨_, _, -, h, -⟩
    · exact h
    · simp [hnone] at h
  rw [trimRequired, hread.bind_iff, hget]
  exact runs_pure.mpr ⟨rfl, rfl⟩

/-- Required names that cannot be gone through are a fault. -/
theorem runOn_trimRequired_of_fault (role : Role) (hheld : s.Holds (.node id) (.object F)) (ht : F.get? "required" = some t)
    (hjson : t.IsJson) (hnone : t.keysListed = none) :
    (trimRequired role (.node id)).runOn s = (.error (.misfit .wrongOperand), s) := by
  obtain ⟨id', values, hshape, hentries⟩ := hheld.shape_object
  obtain ⟨w, hw, hwt⟩ := Store.exists_value_of_get? hentries ht
  have hread : Runs (entriesOf (.node id)) s values s := runs_entriesOf.mpr ⟨⟨id', hshape⟩, rfl⟩
  rw [trimRequired, hread.runOn_bind, hw]
  exact runOn_bind.trans (by rw [runOn_requiredBeyondEnvelope_of_none hwt hjson hnone])

/-- The properties of a schema lose the fields of the envelope. -/
theorem exists_runs_trimProperties (role : Role) (hheld : s.Holds (.node id) (.object F))
    (hproperties : List.Forall₂ s.HoldsEntry properties P) (hapart : ∀ e ∈ properties, ¬ s.Reaches e.2 id) :
    ∃ s', Runs (trimProperties role (.node id) properties) s () s' ∧
      s'.Holds (.node id) (.object (trimmed role F P)) ∧ s.KeepsOthers id s' := by
  have hkept : List.Forall₂ s.HoldsEntry (keptProperties role properties)
      (P.filter fun property => !role.hasEnvelopeField property.1) := by
    clear hapart
    induction hproperties with
    | nil => exact .nil
    | @cons e u _ _ he _ ih =>
      rw [keptProperties, List.filter_cons, List.filter_cons, he.1]
      split
      · exact .cons he ih
      · exact ih
  refine exists_runs_put_new hheld ?_ fun w hw => ?_
  · refine Store.holds_object.mpr ⟨_, _, rfl, by rw [Store.cells_add, if_pos rfl], ?_⟩
    exact forall₂_imp_of_mem (fun e _ u _ he => ⟨he.1, he.2.extend (.add _ _)⟩) hkept
  · obtain ⟨e, he, rfl⟩ := List.mem_map.mp hw
    obtain ⟨u, -, hu⟩ := exists_mem_of_forall₂ hkept he
    exact ⟨hapart e (List.mem_filter.mp he).1, u.2, hu.2⟩

/-! ## Removing the envelope -/

end Edit

namespace Tree

variable {F P F' : Entries Tree} {role : Role} {names : List String}

theorem get?_trimmed_required : (trimmed role F P).get? "required" = F.get? "required" := by
  rw [trimmed, Entries.get?_put, if_neg (by decide)]

end Tree

namespace Edit

open Tree

variable {s s' : Store} {schema : Value} {id : Nat} {F P : Entries Tree} {properties : Entries Value} {role : Role}
  {name : String}

/-- The properties of a request with an envelope. -/
def wordyProperties : Entries Tree :=
  [("Position", .ofFields [("type", .text "integer")]),
   ("ClientTransactionID", .ofFields [("format", .text "uint32"), ("default", .int 7), ("type", .text "integer")]),
   ("ClientID", .ofFields [("type", .text "integer"), ("format", .text "uint32"), ("description", .text "who")])]

/-- A schema whose envelope passes the check, but whose required names cannot be gone through. -/
structure Stuck (role : Role) (F P : Entries Tree) : Prop where
  tag : F.get? roleKey = some (.text role.text)
  role_ne : role ≠ .path
  properties : F.get? "properties" = some (.object P)
  declares : ∀ field ∈ role.envelope, Declares P field
  hasForm : ∀ field ∈ role.envelope, ∀ t, P.get? field.1 = some t → t.HasForm
  required : ∃ t, F.get? "required" = some t ∧ t.keysListed = none

section

variable (hheld : s.Holds schema (.object F)) (hjson : (Tree.object F).IsJson)
include hheld hjson

/-- Such a schema has lost the fields of the envelope from its properties when the required names turn out unfit. -/
theorem Stuck.exists_runOn_stripEnvelope (h : Stuck role F P) (name : Scalar) : ∃ s',
    (stripEnvelope name schema).runOn s = (.error (.misfit .wrongOperand), s') ∧
      s'.Holds schema (.object (trimmed role F P)) := by
  obtain ⟨id, values, rfl, -, -⟩ := Store.holds_object.mp hheld
  obtain ⟨properties, hproperties, hapart, hcheck⟩ :=
    runOn_checkEnvelope name hheld hjson h.tag h.role_ne (.inl h.properties) h.hasForm
  rw [if_pos (undeclared_eq_nil.mpr h.declares)] at hcheck
  obtain ⟨s₁, hruns₁, hheld₁, -⟩ := exists_runs_trimProperties role hheld hproperties hapart
  obtain ⟨t, ht, hnone⟩ := h.required
  have htjson : t.IsJson := Tree.entriesAreJson_iff.mp hjson.2 _ (Entries.mem_of_get? ht)
  have hfault := runOn_trimRequired_of_fault role hheld₁ (get?_trimmed_required.trans ht) htjson hnone
  refine ⟨s₁, ?_, hheld₁⟩
  rw [runOn_stripEnvelope_of_check hcheck, trimEnvelope, hruns₁.runOn_bind, hfault]

/-- A failure for any other schema has changed nothing. -/
theorem exists_stuck_of_fault {name : Scalar} {fault : Fault} (h : (stripEnvelope name schema).runOn s = (.error fault, s')) :
    s' = s ∨ ∃ role P, Stuck role F P := by
  obtain ⟨id, values, rfl, -, -⟩ := Store.holds_object.mp hheld
  have hreads := onlyReads_checkEnvelope name (.node id) s
  rw [stripEnvelope_eq, runOn_bind] at h
  rcases hcheck : (checkEnvelope name (.node id)).runOn s with ⟨found | found, t⟩
  · rw [hcheck] at h hreads
    exact .inl ((Prod.mk.inj h).2.symm.trans hreads)
  · rw [hcheck] at h hreads
    obtain rfl : t = s := hreads
    cases found with
    | none => cases (Prod.mk.inj h).1
    | some found =>
      obtain ⟨role, properties⟩ := found
      obtain ⟨P, htag, hrole, hP, hdeclares, hform⟩ := exists_properties_of_checkEnvelope hheld hjson hcheck
      obtain ⟨properties', hproperties, hapart, hcheck'⟩ :=
        runOn_checkEnvelope name hheld hjson htag hrole (.inl hP) hform
      rw [if_pos (undeclared_eq_nil.mpr hdeclares), hcheck] at hcheck'
      obtain rfl : properties = properties' := by simpa using hcheck'
      obtain ⟨s₁, hruns₁, hheld₁, -⟩ := exists_runs_trimProperties role hheld hproperties hapart
      -- The properties have been written, so only the required names can be what fails.
      have hfails : ∀ t', ¬ Runs (trimRequired role (.node id)) s₁ () t' := fun t' ht => by
        have hruns : Runs (trimEnvelope (.node id) (some (role, properties))) t () t' := hruns₁.bind_iff.mpr ht
        cases (Prod.mk.inj (hruns.symm.trans h)).1
      cases hrequired : F.get? "required" with
      | none => exact absurd (runs_trimRequired_of_none hheld₁ (get?_trimmed_required.trans hrequired)) (hfails s₁)
      | some required =>
        cases hkeys : required.keysListed with
        | none => exact .inr ⟨role, P, htag, hrole, hP, hdeclares, hform, required, hrequired, hkeys⟩
        | some keys =>
          obtain ⟨s₂, hruns₂, -⟩ :=
            exists_runs_trimRequired role hheld₁ (get?_trimmed_required.trans hrequired) hkeys
          exact absurd hruns₂ (hfails s₂)

end

/-- What declares the fields of an envelope has properties to lose. -/
theorem Stuck.trimmed_ne (h : Stuck role F P) : trimmed role F P ≠ F := by
  intro heq
  obtain ⟨field, hfield⟩ := List.exists_mem_of_ne_nil _ (envelope_ne_nil h.role_ne)
  obtain ⟨t, ht, -⟩ := h.declares field hfield
  have hkept : P.filter (fun property => !role.hasEnvelopeField property.1) = P := by
    have hget := h.properties
    rw [← heq, trimmed, Entries.get?_put_self, Option.some.injEq] at hget
    exact Tree.object.inj hget
  have hnot := List.filter_eq_self.mp hkept _ (Entries.mem_of_get? ht)
  have henvelope : role.hasEnvelopeField (.text field.1) = true := List.any_eq_true.mpr ⟨field, hfield, by simp⟩
  simp [henvelope] at hnot

/-- **Failures of the removal.** A removal that fails has changed nothing, unless all fields of the envelope are
declared and the required names cannot be gone through. Then the failure comes after the properties have been
written. -/
theorem stripEnvelope_fault_untouched {name : Scalar} {fault : Fault} (hheld : s.Holds schema (.object F))
    (hjson : (Tree.object F).IsJson) (h : (stripEnvelope name schema).runOn s = (.error fault, s')) :
    ((¬ ∃ role P, Stuck role F P) → s' = s) ∧
      ∀ role P, Stuck role F P → fault = .misfit .wrongOperand ∧ s'.Holds schema (.object (trimmed role F P)) ∧
        ¬ s'.Holds schema (.object F) := by
  refine ⟨(exists_stuck_of_fault hheld hjson h).resolve_right, fun role P hstuck => ?_⟩
  obtain ⟨t, hfails, hheld'⟩ := hstuck.exists_runOn_stripEnvelope hheld hjson name
  obtain ⟨rfl, rfl⟩ : fault = .misfit .wrongOperand ∧ s' = t := by simpa [h] using hfails
  exact ⟨rfl, hheld', fun hold => hstuck.trimmed_ne (Tree.object.inj (hheld'.unique hold))⟩

/-- A request whose required names are no list. -/
def requiredRequest : Entries Tree :=
  [("x-kind", .text "Request"), ("properties", .object wordyProperties), ("required", .bool true)]

theorem stuck_requiredRequest : Stuck .request requiredRequest wordyProperties where
  tag := rfl
  role_ne := by decide
  properties := rfl
  declares := by decide +kernel
  hasForm :=
    have hform : ∀ field ∈ Role.request.envelope, ∀ t ∈ wordyProperties.get? field.1, t.HasForm := by decide +kernel
    hform
  required := ⟨.bool true, rfl, rfl⟩

theorem stripEnvelope_fault_untouched_requiredRequest :
    (Tree.object requiredRequest).IsJson ∧ ∃ (fault : Fault) (s' : Store),
      (stripEnvelope "Move" (Store.empty.load (.object requiredRequest)).1).runOn
        (Store.empty.load (.object requiredRequest)).2 = (.error fault, s') ∧ fault = .misfit .wrongOperand ∧
      s'.Holds (Store.empty.load (.object requiredRequest)).1
        (.object (trimmed .request requiredRequest wordyProperties)) := by
  have hjson : (Tree.object requiredRequest).IsJson := by decide
  have hheld := Store.holds_load hjson Store.empty
  obtain ⟨s', hfails, -⟩ := stuck_requiredRequest.exists_runOn_stripEnvelope hheld hjson "Move"
  obtain ⟨-, hstuck⟩ := stripEnvelope_fault_untouched hheld hjson hfails
  obtain ⟨hfault, htrimmed, -⟩ := hstuck .request wordyProperties stuck_requiredRequest
  exact ⟨hjson, _, s', hfails, hfault, htrimmed⟩

/-- So a removal that fails does change some schemas. -/
theorem stripEnvelope_fault_changes_schema :
    ¬ ∀ (name : Scalar) (F : Entries Tree) (fault : Fault) (s' : Store), (Tree.object F).IsJson →
      (stripEnvelope name (Store.empty.load (.object F)).1).runOn (Store.empty.load (.object F)).2 = (.error fault, s') →
        s'.Holds (Store.empty.load (.object F)).1 (.object F) := by
  intro huntouched
  have hjson : (Tree.object requiredRequest).IsJson := by decide
  obtain ⟨s', hfails, hheld⟩ := stuck_requiredRequest.exists_runOn_stripEnvelope
    (Store.holds_load hjson Store.empty) hjson "Move"
  have hsame := huntouched "Move" requiredRequest _ s' hjson hfails
  exact stuck_requiredRequest.trimmed_ne (Tree.object.inj (hheld.unique hsame))

end Edit

end DeviceApi
