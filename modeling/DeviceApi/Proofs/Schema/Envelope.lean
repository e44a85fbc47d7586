import DeviceApi.Proofs.Schema.Canonical
import DeviceApi.Proofs.Schema.Table
import DeviceApi.Schema.Envelope

/-!
# What is removed with the envelope

Removing the envelope of a schema rewrites the schema object: it is given a new object of
properties and a new list of required names, or loses that list.
-/

namespace DeviceApi

theorem Role.text_of_ofText? {text : String} {role : Role} (h : Role.ofText? text = some role) :
    text = role.text := by
  have hfound := List.find?_some h
  exact (by simpa using hfound : role.text = text).symm

theorem Role.text_injective {role role' : Role} (h : role.text = role'.text) : role = role' := by
  cases role <;> cases role' <;> simp_all [Role.text]

namespace Store

/-- The name is not one of a field of the envelope. -/
def beyondEnvelope (s : Store) (role : Role) (name : Value) : Bool :=
  match s.shape name with
  | .scalar x => !role.hasEnvelopeField x
  | _ => true

end Store

namespace Edit

variable {s s' : Store} {v : Value} {u : Unit} {role : Role} {name : Scalar} {schema : Value}

theorem runs_filterAuxM {f : Value → Edit Bool} {p : Value → Bool} {items acc found : List Value}
    (hf : ∀ x c t, Runs (f x) s c t → c = p x ∧ t = s)
    (h : Runs (items.filterAuxM f acc) s found s') :
    found = (items.filter p).reverse ++ acc ∧ s' = s := by
  induction items generalizing acc with
  | nil =>
    obtain ⟨rfl, rfl⟩ := runs_pure.mp h
    exact ⟨rfl, rfl⟩
  | cons x rest ih =>
    rw [List.filterAuxM, runs_bind] at h
    obtain ⟨c, t, hx, hrest⟩ := h
    obtain ⟨rfl, rfl⟩ := hf x c t hx
    obtain ⟨rfl, rfl⟩ := ih hrest
    refine ⟨?_, rfl⟩
    cases hp : p x <;> simp [hp]

/-- The names that are kept are those beyond the envelope. -/
theorem runs_requiredBeyondEnvelope {names : List Value}
    (h : Runs (requiredBeyondEnvelope role v) s names s') :
    ∃ items, s.elements v = .ok items ∧ names = items.filter (s.beyondEnvelope role) ∧ s = s' := by
  rw [requiredBeyondEnvelope, runs_bind] at h
  obtain ⟨items, t, hvisit, h⟩ := h
  obtain ⟨hitems, rfl⟩ := runs_elementsOf.mp hvisit
  obtain ⟨found, t, hfound, hlast⟩ := runs_bind.mp h
  obtain ⟨rfl, rfl⟩ := runs_pure.mp hlast
  suffices hname : ∀ x c t', Runs (do
      match ← look x with
      | .scalar s => return !role.hasEnvelopeField s
      | _ => if (← get).mayBeKey x then return true else misfit .wrongOperand) s c t' →
      c = s.beyondEnvelope role x ∧ t' = s by
    obtain ⟨rfl, rfl⟩ := runs_filterAuxM hname hfound
    exact ⟨items, hitems, by simp, rfl⟩
  intro x c t' hx
  rw [runs_bind] at hx
  obtain ⟨shape, t, hlook, hx⟩ := hx
  obtain ⟨hshape, rfl⟩ := runs_look.mp hlook
  unfold Store.beyondEnvelope
  split at hx
  · next x' =>
    obtain ⟨rfl, rfl⟩ := runs_pure.mp hx
    rw [hshape]
    exact ⟨rfl, rfl⟩
  · next hnot =>
    rw [runs_get_bind] at hx
    split at hx
    · obtain ⟨rfl, rfl⟩ := runs_pure.mp hx
      refine ⟨?_, rfl⟩
      split
      · next x' hscalar => exact absurd (hshape.symm.trans hscalar) (hnot x')
      · rfl
    · simp at hx

theorem runs_roleOf {found : Option Role} (h : Runs (roleOf v) s found s') :
    s = s' ∧ ∃ id entries, s.shape v = .object id entries ∧
      ((found = none ∧ s.shape ((entries.get? roleKey).getD .null) = .scalar .null) ∨
        ∃ role, found = some role ∧ entries.get? roleKey = some (.text role.text)) := by
  rw [roleOf, runs_bind] at h
  obtain ⟨tag, t, hfield, h⟩ := h
  obtain ⟨⟨id, entries, hshape, rfl⟩, rfl⟩ := runs_fieldOf.mp hfield
  obtain ⟨shape, t, hlook, h⟩ := runs_bind.mp h
  obtain ⟨hshape', rfl⟩ := runs_look.mp hlook
  split at h
  · obtain ⟨rfl, rfl⟩ := runs_pure.mp h
    exact ⟨rfl, id, entries, hshape, .inl ⟨rfl, hshape'⟩⟩
  · next text =>
    split at h
    · next role hrole =>
      obtain ⟨rfl, rfl⟩ := runs_pure.mp h
      have htext : s.isText ((entries.get? roleKey).getD .null) role.text = true := by
        rw [Store.isText, hshape', Role.text_of_ofText? hrole]
        simp
      exact ⟨rfl, id, entries, hshape,
        .inr ⟨role, rfl, Store.getD_eq_text.mp (Store.isText_iff.mp htext)⟩⟩
    · simp at h
  · simp only [runs_bind, not_runs_refuse, and_false, exists_false] at h

theorem runs_envelopeMismatches {properties : Entries Value} {fields : List (String × Tree)}
    {names : List String} (h : Runs (envelopeMismatches properties fields) s names s') : s = s' := by
  induction fields generalizing names with
  | nil => exact (runs_pure.mp h).2
  | cons field rest ih =>
    obtain ⟨key, expected⟩ := field
    simp only [envelopeMismatches, runs_bind, runs_treeOf, runs_ofExcept, runs_pure] at h
    obtain ⟨_, _, ⟨-, rfl⟩, _, _, ⟨-, rfl⟩, more, t, hrest, -, rfl⟩ := h
    exact ih hrest

/-- The properties that a schema keeps when the envelope is removed. -/
def keptProperties (role : Role) (properties : Entries Value) : Entries Value :=
  properties.filter fun property => !role.hasEnvelopeField property.1

/-- What becomes of a schema whose envelope is removed. -/
structure Strips (s s' : Store) (role : Role) (id : Nat) (entries properties : Entries Value) : Prop where
  declared : if s.isTruthy ((entries.get? "properties").getD .null) then
      ∃ id', s.shape ((entries.get? "properties").getD .null) = .object id' properties
    else properties = []
  checked : Runs (envelopeMismatches properties role.envelope) s [] s
  written : ∃ s₁ entries₁, s₁ = (s.add (.object (keptProperties role properties))).2.set id
      (.object entries₁) ∧ entries₁ = entries.put "properties" (.node s.cells.size) ∧
    ((entries.get? "required" = none ∧ s' = s₁) ∨
      ∃ required items, entries.get? "required" = some required ∧
        s₁.elements required = .ok items ∧
        ((items.filter (s₁.beyondEnvelope role) = [] ∧
            s' = s₁.set id (.object (entries₁.remove "required"))) ∨
          (items.filter (s₁.beyondEnvelope role) ≠ [] ∧
            s' = (s₁.add (.list (items.filter (s₁.beyondEnvelope role)))).2.set id
              (.object (entries₁.put "required" (.node s₁.cells.size))))))

/-- Only the schema of a request or a response, by its tag, is changed. -/
theorem runs_stripEnvelope (h : Runs (stripEnvelope name schema) s u s') :
    ∃ id entries, s.shape schema = .object id entries ∧
      ((s' = s ∧ ∀ role : Role, entries.get? roleKey = some (.text role.text) → role.envelope = []) ∨
        ∃ role properties, entries.get? roleKey = some (.text role.text) ∧ role.envelope ≠ [] ∧
          Strips s s' role id entries properties) := by
  unfold stripEnvelope at h
  obtain ⟨found, t, hrole, h₁⟩ := runs_bind.mp h
  obtain ⟨rfl, id, entries, hshape, hfound⟩ := runs_roleOf hrole
  refine ⟨id, entries, hshape, ?_⟩
  rcases hfound with ⟨rfl, hnull⟩ | ⟨role, rfl, htag⟩
  · obtain ⟨-, rfl⟩ := runs_pure.mp h₁
    refine .inl ⟨rfl, fun role htag => ?_⟩
    simp [htag, Store.shape] at hnull
  · dsimp only at h₁
    split at h₁
    · next hempty =>
      obtain ⟨-, rfl⟩ := runs_pure.mp h₁
      refine .inl ⟨rfl, fun role' htag' => ?_⟩
      obtain rfl : role = role' := Role.text_injective (by simpa [htag] using htag')
      exact List.isEmpty_iff.mp hempty
    · next hempty =>
      obtain ⟨_, t, hfield, h₂⟩ := runs_bind.mp h₁
      obtain ⟨⟨id', entries', hshape', rfl⟩, rfl⟩ := runs_fieldOf.mp hfield
      rw [hshape, Shape.object.injEq] at hshape'
      obtain ⟨rfl, rfl⟩ := hshape'
      obtain ⟨properties, t, hproperties, h₃⟩ := runs_bind.mp h₂
      obtain ⟨hdeclared, rfl⟩ := runs_optionalEntries.mp hproperties
      obtain ⟨mismatches, t, hmismatches, h₄⟩ := runs_bind.mp h₃
      obtain rfl := runs_envelopeMismatches hmismatches
      split at h₄
      · simp only [runs_bind, not_runs_refuse, and_false, exists_false, false_and] at h₄
      · next hnone =>
        obtain rfl : mismatches = [] := by simpa using hnone
        refine .inr ⟨role, properties, htag, by simpa using hempty, ?_, hmismatches, ?_⟩
        · split at hdeclared
          · next htruthy => rwa [if_pos htruthy]
          · next htruthy =>
            rw [if_neg htruthy]
            exact hdeclared.symm
        · obtain ⟨_, t, hnew, h₅⟩ := runs_bind.mp h₄
          obtain ⟨rfl, rfl⟩ := runs_newObject.mp hnew
          obtain ⟨_, t₁, hput, h₆⟩ := runs_bind.mp h₅
          obtain ⟨id', entries', hshape', rfl⟩ := runs_putField.mp hput
          rw [Store.shape_add_of_shape hshape, Shape.object.injEq] at hshape'
          obtain ⟨rfl, rfl⟩ := hshape'
          refine ⟨_, _, rfl, rfl, ?_⟩
          have hshape₁ : ((s.add (.object (keptProperties role properties))).2.set id
              (.object (entries.put "properties" (.node s.cells.size)))).shape schema =
              .object id (entries.put "properties" (.node s.cells.size)) :=
            Store.shape_set_of_shape (Store.shape_add_of_shape hshape)
          obtain ⟨_, t, hentries, h₇⟩ := runs_bind.mp h₆
          obtain ⟨⟨_, hshape₂⟩, rfl⟩ := runs_entriesOf.mp hentries
          obtain ⟨rfl, rfl⟩ := Shape.object.inj (hshape₁.symm.trans hshape₂)
          have hrequired : (entries.put "properties" (.node s.cells.size)).get? "required" =
              entries.get? "required" := by
            rw [Entries.get?_put, if_neg (by decide)]
          rw [hrequired] at h₇
          split at h₇
          · next hget =>
            obtain ⟨-, rfl⟩ := runs_pure.mp h₇
            exact .inl ⟨hget, rfl⟩
          · next required hget =>
            obtain ⟨names, t, hnames, h₈⟩ := runs_bind.mp h₇
            obtain ⟨items, hitems, rfl, rfl⟩ := runs_requiredBeyondEnvelope hnames
            refine .inr ⟨required, items, hget, hitems, ?_⟩
            split at h₈
            · next hnil =>
              obtain ⟨id', entries', hshape', -, rfl⟩ := runs_removeField.mp h₈
              obtain ⟨rfl, rfl⟩ := Shape.object.inj (hshape₁.symm.trans hshape')
              exact .inl ⟨List.isEmpty_iff.mp hnil, rfl⟩
            · next hcons =>
              obtain ⟨_, t, hlist, h₉⟩ := runs_bind.mp h₈
              obtain ⟨rfl, rfl⟩ := runs_newList.mp hlist
              obtain ⟨id', entries', hshape', rfl⟩ := runs_putField.mp h₉
              obtain ⟨rfl, rfl⟩ :=
                Shape.object.inj ((Store.shape_add_of_shape hshape₁).symm.trans hshape')
              exact .inr ⟨fun hnil => hcons (List.isEmpty_iff.mpr hnil), rfl⟩

end Edit

end DeviceApi
