import DeviceApi.Proofs.Schema.EnvelopeCheck
import DeviceApi.Proofs.Schema.Prepared

/-!
# Schemas without an envelope

Once the envelopes have been removed, every schema of the table that is tagged for a request or a response
has properties and required names of its own, made by the removal, and no field of the envelope is among
them. Removing the next envelope does not touch these nodes, and canonical form adds a format at most.
-/

namespace DeviceApi

variable {s s' : Store} {v : Value} {role role' : Role} {entries properties : Entries Value} {n id : Nat}

theorem Role.hasEnvelopeField_of_mem {field : String × Tree} (h : field ∈ role.envelope) :
    role.hasEnvelopeField field.1 = true := by
  rw [Role.hasEnvelopeField, List.any_eq_true]
  exact ⟨field, h, by simp⟩

/-- A format is no field of an envelope. -/
theorem Role.hasEnvelopeField_format (role : Role) : role.hasEnvelopeField "format" = false := by
  cases role <;> decide

namespace Store

/-- What stands in a schema at the places of an envelope: its properties, and the names that it requires
unless there are none. Both are nodes from the `n`-th on, and no field of the envelope is in them. -/
structure Bare (s : Store) (n : Nat) (role : Role) (entries : Entries Value) : Prop where
  properties : ∃ m properties, entries.get? "properties" = some (.node m) ∧ n ≤ m ∧
    s.cells[m]? = some (.object properties) ∧
      ∀ key ∈ properties.keys, role.hasEnvelopeField key = false
  required : ∀ v, entries.get? "required" = some v → ∃ m items, v = .node m ∧ n ≤ m ∧
    s.cells[m]? = some (.list items) ∧ items ≠ [] ∧
      ∀ a, .scalar a ∈ items → role.hasEnvelopeField a = false

/-- If the value is a schema in a role with an envelope, then it is without that envelope. -/
def IsBare (s : Store) (n : Nat) (v : Value) : Prop :=
  ∀ id entries role, s.shape v = .object id entries → entries.has referenceKey = false →
    entries.get? roleKey = some (.text role.text) → role.envelope ≠ [] → s.Bare n role entries

/-- The value is a schema in a role with an envelope. -/
def Enveloped (s : Store) (v : Value) : Prop :=
  ∃ id entries, ∃ role : Role, s.shape v = .object id entries ∧ entries.has referenceKey = false ∧
    entries.get? roleKey = some (.text role.text) ∧ role.envelope ≠ []

/-- A schema without its envelope stays so as long as the newer nodes stay. -/
theorem Bare.of_agree (h : s.Bare n role entries) (hagree : ∀ i, n ≤ i → i < s.cells.size →
    s'.cells[i]? = s.cells[i]?) : s'.Bare n role entries where
  properties := by
    obtain ⟨m, properties, hget, hle, hcell, hnot⟩ := h.properties
    exact ⟨m, properties, hget, hle, (hagree m hle (lt_size_of_cell hcell)).trans hcell, hnot⟩
  required v hv := by
    obtain ⟨m, items, rfl, hle, hcell, hne, hnot⟩ := h.required v hv
    exact ⟨m, items, rfl, hle, (hagree m hle (lt_size_of_cell hcell)).trans hcell, hne, hnot⟩

theorem IsBare.of_agree (h : s.IsBare n v) (hv : ∀ id, v = .node id → s'.cells[id]? = s.cells[id]?)
    (hagree : ∀ i, n ≤ i → i < s.cells.size → s'.cells[i]? = s.cells[i]?) : s'.IsBare n v := by
  intro id entries role hshape hown hrole henvelope
  obtain ⟨rfl, hcell⟩ := shape_eq_object.mp hshape
  exact (h id entries role (shape_node ((hv id rfl).symm.trans hcell)) hown hrole henvelope).of_agree hagree

/-- Trimming leaves a schema without its envelope. -/
theorem IsBare.trims {region : Nat → Prop} (h : s.IsBare n v) (htrims : s.Trims s' region)
    (hnodup : ∀ id entries, s.shape v = .object id entries → entries.keys.Nodup) : s'.IsBare n v := by
  intro id after role hshape hown hrole henvelope
  obtain ⟨rfl, hcell⟩ := shape_eq_object.mp hshape
  obtain ⟨before, hbefore, hsame⟩ : ∃ before : Entries Value,
      s.cells[id]? = some (.object before) ∧
        ∀ key, key ∉ Entries.annotationKeys → after.get? (.text key) = before.get? (.text key) := by
    rcases htrims.trimmed id with heq | ⟨before, after', hbefore, hafter, htrimmed⟩
    · exact ⟨after, heq ▸ hcell, fun _ _ => rfl⟩
    · obtain rfl : after = after' := by simpa [hcell] using hafter
      exact ⟨before, hbefore, htrimmed.get?_eq (hnodup id before (shape_node hbefore))⟩
  have hbare := h id before role (shape_node hbefore)
    (by rw [Entries.has, ← hsame _ (by decide)]; exact hown)
    (by rw [← hsame _ (by decide)]; exact hrole) henvelope
  refine ⟨?_, fun w hw => ?_⟩
  · obtain ⟨m, properties, hget, hle, hmap, hnot⟩ := hbare.properties
    rw [← hsame "properties" (by decide)] at hget
    rcases htrims.trimmed m with heq | ⟨before', after', hbefore', hafter', htrimmed⟩
    · exact ⟨m, properties, hget, hle, heq.trans hmap, hnot⟩
    · obtain rfl : properties = before' := by simpa [hmap] using hbefore'
      refine ⟨m, after', hget, hle, hafter', fun key hkey => ?_⟩
      obtain ⟨e, he, rfl⟩ := List.mem_map.mp hkey
      rcases htrimmed.mem e he with hold | ⟨hformat, -⟩
      · exact hnot _ (List.mem_map_of_mem hold)
      · exact hformat ▸ role.hasEnvelopeField_format
  · rw [hsame "required" (by decide)] at hw
    obtain ⟨m, items, rfl, hle, hlist, hne, hnot⟩ := hbare.required w hw
    rcases htrims.trimmed m with heq | ⟨before', after', hbefore', -, -⟩
    · exact ⟨m, items, rfl, hle, heq.trans hlist, hne, hnot⟩
    · simp [hlist] at hbefore'

end Store

namespace Edit

variable {table : SchemaTable} {T : Nat} {V : Entries Value} {u : Unit} {name : Scalar} {schema : Value}

/-- A schema whose envelope has been removed is without it. -/
theorem Strips.bare (h : Strips s s' role id entries properties)
    (hcell : s.cells[id]? = some (.object entries)) (hnodup : entries.keys.Nodup)
    (hn : n ≤ s.cells.size) : ∃ after, s'.cells[id]? = some (.object after) ∧ after.keys.Nodup ∧
      after.get? roleKey = entries.get? roleKey ∧ s'.Bare n role after := by
  have hlt : id < s.cells.size := Store.lt_size_of_cell hcell
  obtain ⟨s₁, entries₁, hs₁, hentries₁, hrequired⟩ := h.written
  have hcell₁ : s₁.cells[id]? = some (.object entries₁) := by
    rw [hs₁, Store.cells_set, if_pos ⟨rfl, by rw [Store.size_add]; omega⟩]
  have hsize₁ : s₁.cells.size = s.cells.size + 1 := by rw [hs₁, Store.size_set, Store.size_add]
  have hmap₁ : s₁.cells[s.cells.size]? = some (.object (keptProperties role properties)) := by
    rw [hs₁, Store.cells_set, if_neg fun h => hlt.ne' h.1, Store.cells_add, if_pos rfl]
  have hnodup₁ : entries₁.keys.Nodup := hentries₁ ▸ Entries.nodup_keys_put hnodup
  have hproperties₁ : entries₁.get? "properties" = some (.node s.cells.size) :=
    hentries₁ ▸ Entries.get?_put_self
  have hother₁ : ∀ key : String, "properties" ≠ key →
      entries₁.get? (.text key) = entries.get? (.text key) := by
    intro key hkey
    rw [hentries₁, Entries.get?_put, if_neg hkey]
  have hkept : ∀ key ∈ (keptProperties role properties).keys, role.hasEnvelopeField key = false := by
    intro key hkey
    obtain ⟨e, he, rfl⟩ := List.mem_map.mp hkey
    simpa using (List.mem_filter.mp he).2
  -- The new properties stay where they are in whatever becomes of the required names.
  have hmap : ∀ {t : Store} {after : Entries Value},
      t.cells[s.cells.size]? = s₁.cells[s.cells.size]? →
      after.get? "properties" = entries₁.get? "properties" → ∃ m properties,
        after.get? "properties" = some (.node m) ∧ n ≤ m ∧ t.cells[m]? = some (.object properties) ∧
          ∀ key ∈ properties.keys, role.hasEnvelopeField key = false := fun hsame hget =>
    ⟨_, _, hget.trans hproperties₁, hn, hsame.trans hmap₁, hkept⟩
  rcases hrequired with ⟨hnone, rfl⟩ | ⟨required, items, -, hitems, hnames⟩
  · refine ⟨entries₁, hcell₁, hnodup₁, hother₁ roleKey (by decide), hmap rfl rfl, fun v hv => ?_⟩
    rw [hother₁ "required" (by decide), hnone] at hv
    cases hv
  · rcases hnames with ⟨-, rfl⟩ | ⟨hne, rfl⟩
    · refine ⟨entries₁.remove "required", ?_, Entries.nodup_keys_remove hnodup₁, ?_, hmap ?_ ?_,
        fun v hv => ?_⟩
      · rw [Store.cells_set, if_pos ⟨rfl, Store.lt_size_of_cell hcell₁⟩]
      · rw [Entries.get?_remove_of_ne (by decide), hother₁ roleKey (by decide)]
      · rw [Store.cells_set, if_neg fun h => hlt.ne' h.1]
      · exact Entries.get?_remove_of_ne (by decide)
      · rw [Entries.get?_remove hnodup₁, if_pos rfl] at hv
        cases hv
    · refine ⟨entries₁.put "required" (.node s₁.cells.size), ?_, Entries.nodup_keys_put hnodup₁, ?_,
        hmap ?_ ?_, fun v hv => ?_⟩
      · rw [Store.cells_set, if_pos ⟨rfl, by rw [Store.size_add]; omega⟩]
      · rw [Entries.get?_put, if_neg (by decide), hother₁ roleKey (by decide)]
      · rw [Store.cells_set, if_neg fun h => hlt.ne' h.1, Store.cells_add, if_neg (by omega)]
      · rw [Entries.get?_put, if_neg (by decide)]
      · rw [Entries.get?_put_self] at hv
        refine ⟨s₁.cells.size, _, (Option.some.inj hv).symm, by omega, ?_, hne, fun a ha => ?_⟩
        · rw [Store.cells_set, if_neg fun h => absurd h.1 (by omega), Store.cells_add, if_pos rfl]
        · simpa [Store.beyondEnvelope, Store.shape] using (List.mem_filter.mp ha).2

/-- What holds while the envelopes of the schemas `V` are removed, once the schemas `done` have been gone
through. -/
structure Stripping (s t : Store) (V done : Entries Value) : Prop where
  size_le : s.cells.size ≤ t.cells.size
  nodup : ∀ e ∈ V, ∀ id entries, t.shape e.2 = .object id entries → entries.keys.Nodup
  bare : ∀ e ∈ done, t.IsBare s.cells.size e.2

/-- Removing the envelope of one schema leaves the others as they are. -/
theorem Stripping.strips {t t' : Store} {done : Entries Value} {e : Scalar × Value}
    (h : Stripping s t V done) (hold : ∀ e ∈ V, ∀ id, e.2 = .node id → id < s.cells.size)
    (hdone : ∀ e ∈ done, e ∈ V) (he : e ∈ V) (hshape : t.shape e.2 = .object id entries)
    (hrole : entries.get? roleKey = some (.text role.text))
    (hstrips : Strips t t' role id entries properties) : Stripping s t' V (done ++ [e]) := by
  obtain ⟨hid, hcell⟩ := Store.shape_eq_object.mp hshape
  obtain ⟨after, hafter, hnodup, hroleAfter, hbare⟩ := hstrips.bare hcell
    (h.nodup e he id entries hshape) h.size_le
  have hagree : ∀ i, i < t.cells.size → i ≠ id → t'.cells[i]? = t.cells[i]? := fun i =>
    hstrips.cells_eq
  have hidlt : id < s.cells.size := hold e he id hid
  have hothers : ∀ e ∈ V, ∀ x, e.2 = .node x → x ≠ id → t'.cells[x]? = t.cells[x]? :=
    fun e he x hx hne => hagree x ((hold e he x hx).trans_le h.size_le) hne
  have hself : t'.IsBare s.cells.size (.node id) := by
    intro id' entries' role' hshape' _ hrole' _
    obtain ⟨heq, hcell'⟩ := Store.shape_eq_object.mp hshape'
    obtain rfl : id = id' := by simpa using heq
    obtain rfl : after = entries' := by simpa [hafter] using hcell'
    rw [hroleAfter, hrole] at hrole'
    obtain rfl : role = role' := Role.text_injective (by simpa using hrole')
    exact hbare
  refine ⟨h.size_le.trans hstrips.size_le, fun e he x entries' hx => ?_, fun e' he' => ?_⟩
  · obtain ⟨heq, hcell'⟩ := Store.shape_eq_object.mp hx
    by_cases hxid : x = id
    · subst hxid
      obtain rfl : after = entries' := by simpa [hafter] using hcell'
      exact hnodup
    · exact h.nodup e he x entries' (heq ▸ Store.shape_node ((hothers e he x heq hxid).symm.trans hcell'))
  · rcases List.mem_append.mp he' with hmem | hmem
    · by_cases heq : e'.2 = .node id
      · exact heq ▸ hself
      · refine (h.bare e' hmem).of_agree (fun x hx => hothers e' (hdone e' hmem) x hx ?_)
          fun i hle hlt => hagree i hlt (by omega)
        rintro rfl
        exact heq hx
    · obtain rfl := List.mem_singleton.mp hmem
      exact hid ▸ hself

/-- A schema that the removal passes over need not be bare. -/
theorem Stripping.skip {t : Store} {done : Entries Value} {e : Scalar × Value} (h : Stripping s t V done)
    (hbare : t.IsBare s.cells.size e.2) : Stripping s t V (done ++ [e]) where
  size_le := h.size_le
  nodup := h.nodup
  bare e' he' := by
    rcases List.mem_append.mp he' with hmem | hmem
    · exact h.bare e' hmem
    · exact List.mem_singleton.mp hmem ▸ hbare

/-- What has no field of an envelope does not pass the check for it. -/
theorem not_runs_envelopeMismatches (hrole : role.envelope ≠ [])
    (hlost : ∀ key ∈ properties.keys, role.hasEnvelopeField key = false) :
    ¬ Runs (envelopeMismatches properties role.envelope) s [] s' := by
  intro h
  obtain ⟨field, rest, hfields⟩ := List.exists_cons_of_ne_nil hrole
  have hfield : field ∈ role.envelope := hfields ▸ List.mem_cons_self
  have hnone : properties.get? field.1 = none := by
    refine Entries.get?_eq_none.mpr fun hkey => ?_
    have hfalse := hlost _ hkey
    rw [Role.hasEnvelopeField_of_mem hfield] at hfalse
    cases hfalse
  obtain ⟨texts, hshape, -⟩ := Tree.exists_isFlatShape hfield
  obtain ⟨key, expected⟩ := field
  obtain rfl : expected = .ofTextFields texts := hshape
  rw [hfields] at h
  simp only [envelopeMismatches, runs_bind, runs_treeOf, runs_ofExcept, runs_pure, hnone, Option.getD_none] at h
  obtain ⟨declared, t₁, ⟨rfl, rfl⟩, found, t₂, ⟨hfound, rfl⟩, more, t₃, -, hnil, -⟩ := h
  have htree : s.tree Value.null = .scalar .null := (Store.holds_scalar.mpr rfl).tree_eq
  rw [htree] at hfound
  obtain rfl : .scalar .null = found := Except.ok.inj hfound
  rw [Tree.ofTextFields, Tree.ofFields] at hnil
  simp [Tree.same] at hnil

/-- The removal of an envelope touches no other key of the schema. -/
theorem Strips.exists_entries (h : Strips s s' role id entries properties)
    (hcell : s.cells[id]? = some (.object entries)) : ∃ after, s'.cells[id]? = some (.object after) ∧
      ∀ key : String, "properties" ≠ key → "required" ≠ key →
        after.get? (.text key) = entries.get? (.text key) := by
  have hlt : id < s.cells.size := Store.lt_size_of_cell hcell
  obtain ⟨s₁, entries₁, rfl, rfl, hrequired⟩ := h.written
  have hput : ∀ key : String, "properties" ≠ key →
      (entries.put "properties" (.node s.cells.size)).get? (.text key) = entries.get? (.text key) := by
    intro key hkey
    rw [Entries.get?_put, if_neg (by simpa using hkey)]
  rcases hrequired with ⟨-, rfl⟩ | ⟨required, items, -, -, ⟨-, rfl⟩ | ⟨-, rfl⟩⟩
  · refine ⟨_, by rw [Store.cells_set, if_pos ⟨rfl, by rw [Store.size_add]; omega⟩], fun key hkey _ => hput key hkey⟩
  · refine ⟨_, by rw [Store.cells_set, if_pos ⟨rfl, by simp only [Store.size_set, Store.size_add]; omega⟩],
      fun key hkey hkey' => ?_⟩
    rw [Entries.get?_remove_of_ne (by simpa using hkey'), hput key hkey]
  · refine ⟨_, by rw [Store.cells_set, if_pos ⟨rfl, by simp only [Store.size_set, Store.size_add]; omega⟩],
      fun key hkey hkey' => ?_⟩
    rw [Entries.get?_put, if_neg (by simpa using hkey'), hput key hkey]

/-- A schema whose envelope has yet to be removed, or has been, stays tagged. -/
theorem enveloped_of_step {t t' : Store} {w : Value} (h : t.Enveloped w)
    (hw : ∀ x, w = .node x → x < t.cells.size)
    (hcases : t.isReference schema = true ∧ t = t' ∨
      t.isReference schema = false ∧ Runs (stripEnvelope name schema) t () t') : t'.Enveloped w := by
  obtain ⟨x, entries, role, hshape, hown, hrole, henvelope⟩ := h
  rcases hcases with ⟨-, rfl⟩ | ⟨-, hrun⟩
  · exact ⟨x, entries, role, hshape, hown, hrole, henvelope⟩
  obtain ⟨id, entries', hshape', ⟨rfl, -⟩ | ⟨role', properties, -, -, hstrips⟩⟩ := runs_stripEnvelope hrun
  · exact ⟨x, entries, role, hshape, hown, hrole, henvelope⟩
  obtain ⟨rfl, hcell⟩ := Store.shape_eq_object.mp hshape
  obtain ⟨-, hcell'⟩ := Store.shape_eq_object.mp hshape'
  by_cases hx : x = id
  · subst hx
    obtain rfl : entries = entries' := by simpa [hcell] using hcell'
    obtain ⟨after, hafter, hsame⟩ := hstrips.exists_entries hcell
    refine ⟨x, after, role, Store.shape_node hafter, ?_, ?_, henvelope⟩
    · rw [Entries.has, hsame _ (by decide) (by decide)]
      exact hown
    · rw [hsame _ (by decide) (by decide), hrole]
  · exact ⟨x, entries, role, Store.shape_node ((hstrips.cells_eq (hw x rfl) hx).trans hcell), hown, hrole, henvelope⟩

/-- A schema that has been gone through cannot be met again if it is tagged for a request or a response. -/
theorem not_step_of_isBare {t t' : Store} (hbare : t.IsBare n schema) (htagged : t.Enveloped schema) :
    ¬ (t.isReference schema = true ∧ t = t' ∨
      t.isReference schema = false ∧ Runs (stripEnvelope name schema) t () t') := by
  obtain ⟨x, entries, role, hshape, hown, hrole, henvelope⟩ := htagged
  rintro (⟨hreference, -⟩ | ⟨-, hrun⟩)
  · rw [Store.isReference, Store.entries?_eq_some.mpr ⟨x, hshape⟩] at hreference
    simp [hown] at hreference
  obtain ⟨id, entries', hshape', ⟨-, hnone⟩ | ⟨role', properties, hrole', -, hstrips⟩⟩ := runs_stripEnvelope hrun
  · rw [hshape, Shape.object.injEq] at hshape'
    exact henvelope (hnone role (hshape'.2 ▸ hrole))
  · obtain ⟨rfl, rfl⟩ : x = id ∧ entries = entries' := by simpa [hshape] using hshape'
    obtain rfl : role = role' := Role.text_injective (by simpa [hrole] using hrole')
    obtain ⟨m, kept, hget, -, hkept, hlost⟩ := (hbare x entries role hshape hown hrole henvelope).properties
    have hdeclared := hstrips.declared
    rw [hget, Option.getD_some] at hdeclared
    have hproperties : ∀ key ∈ properties.keys, role.hasEnvelopeField key = false := by
      split at hdeclared
      · obtain ⟨m', hm'⟩ := hdeclared
        obtain ⟨-, rfl⟩ : m = m' ∧ kept = properties := by simpa [Store.shape_node hkept] using hm'
        exact hlost
      · simp [hdeclared]
    exact not_runs_envelopeMismatches henvelope hproperties hstrips.checked

/-- Going through one more schema of the table. -/
theorem Stripping.step {t t' : Store} {done rest : Entries Value} (h : Stripping s t V done)
    (hold : ∀ e ∈ V, ∀ id, e.2 = .node id → id < s.cells.size) (hV : done ++ (name, schema) :: rest = V)
    (hcases : t.isReference schema = true ∧ t = t' ∨
      t.isReference schema = false ∧ Runs (stripEnvelope name schema) t () t') :
    Stripping s t' V (done ++ [(name, schema)]) := by
  rcases hcases with ⟨hreference, rfl⟩ | ⟨-, hrun⟩
  · refine h.skip fun id entries role hshape hown => ?_
    rw [Store.isReference, Store.entries?_eq_some.mpr ⟨id, hshape⟩] at hreference
    simp [hown] at hreference
  · obtain ⟨id, entries, hshape, ⟨rfl, hnone⟩ | ⟨role, properties, hrole, -, hstrips⟩⟩ :=
      runs_stripEnvelope hrun
    · refine h.skip fun id' entries' role hshape' _ hrole henvelope => ?_
      rw [hshape, Shape.object.injEq] at hshape'
      exact absurd (hnone role (hshape'.2 ▸ hrole)) henvelope
    · exact h.strips hold (fun e he => hV ▸ List.mem_append_left _ he) (hV ▸ by simp)
        hshape hrole hstrips

section

variable (hcell : s.cells[T]? = some (.object V)) (hnode : table.schemas = .node T)
  (hold : ∀ e ∈ V, ∀ id, e.2 = .node id → id < s.cells.size)
  (hnodup : ∀ e ∈ V, ∀ id entries, s.shape e.2 = .object id entries → entries.keys.Nodup)
  (h : Runs (stripEnvelopes table) s u s')
include hcell hnode hold hnodup h

/-- Once the envelopes have been removed, every schema of the table is without its envelope. -/
theorem isBare_of_stripEnvelopes : ∀ e ∈ V, s'.IsBare s.cells.size e.2 := by
  rw [stripEnvelopes_eq] at h
  obtain ⟨id, V', hshape, hlast⟩ := h.forSchemas_induct (fun done t => Stripping s t V done)
    ⟨le_rfl, hnodup, by simp⟩ fun id V' done name schema rest t t' hshape hV hstripping hcases => by
      obtain rfl : V = V' := by
        rw [hnode, Store.shape_node hcell, Shape.object.injEq] at hshape
        exact hshape.2
      exact hstripping.step hold hV hcases
  rw [hnode, Store.shape_node hcell, Shape.object.injEq] at hshape
  exact hshape.2 ▸ hlast.bare

/-- An envelope can be removed once only. If two names of the table share a schema that is tagged for a request or
a response, then the fields of its envelope are missing at the second name: the removal succeeds just where no two
names share one. -/
theorem pairwise_ne_of_stripEnvelopes : V.Pairwise fun e e' => s.Enveloped e.2 → e.2 ≠ e'.2 := by
  rw [stripEnvelopes_eq] at h
  obtain ⟨id, V', hshape, hlast⟩ := h.forSchemas_induct
    (fun done t => Stripping s t V done ∧ (∀ e ∈ V, s.Enveloped e.2 → t.Enveloped e.2) ∧
      done.Pairwise fun e e' => s.Enveloped e.2 → e.2 ≠ e'.2)
    ⟨⟨le_rfl, hnodup, by simp⟩, fun _ _ => id, .nil⟩
    fun id V' done name schema rest t t' hshape hV hkept hcases => by
      obtain rfl : V = V' := by
        rw [hnode, Store.shape_node hcell, Shape.object.injEq] at hshape
        exact hshape.2
      obtain ⟨hstripping, htagged, hpairwise⟩ := hkept
      refine ⟨hstripping.step hold hV hcases, fun e he htag => ?_, List.pairwise_append.mpr
        ⟨hpairwise, List.pairwise_singleton _ _, fun d hd e he htag heq => ?_⟩⟩
      · exact enveloped_of_step (htagged e he htag) (fun id hid => (hold e he id hid).trans_le hstripping.size_le) hcases
      · obtain rfl := List.mem_singleton.mp he
        obtain rfl : d.2 = schema := heq
        exact not_step_of_isBare (hstripping.bare d hd)
          (htagged d (hV ▸ List.mem_append_left _ hd) htag) hcases
  rw [hnode, Store.shape_node hcell, Shape.object.injEq] at hshape
  exact hshape.2 ▸ hlast.2.2

end

/-- A table of two replies, each of its own. -/
def twoReplies : Tree :=
  let reply := .ofFields
    [(roleKey, .text Role.response.text), ("properties", .ofFields Role.response.envelope)]
  .ofFields [("First", reply), ("Second", reply)]

theorem pairwise_ne_of_stripEnvelopes_twoReplies :
    let start := Store.empty.load twoReplies
    let V : Entries Value := [("First", .node 5), ("Second", .node 11)]
    start.2.cells[12]? = some (.object V) ∧ start.1 = .node 12 ∧
      (∀ e ∈ V, start.2.Enveloped e.2) ∧ (∃ s', Runs (stripEnvelopes ⟨start.1⟩) start.2 () s') ∧
      V.Pairwise fun e e' => start.2.Enveloped e.2 → e.2 ≠ e'.2 := by
  intro start V
  have hcell : start.2.cells[12]? = some (.object V) := rfl
  have hshape : ∀ e ∈ V, ∃ id entries, start.2.shape e.2 = .object id entries ∧ entries.keys.Nodup ∧
      entries.has referenceKey = false ∧ entries.get? roleKey = some (.text Role.response.text) := by
    rintro e he
    simp only [V, List.mem_cons, List.not_mem_nil, or_false] at he
    rcases he with rfl | rfl
    · exact ⟨5, _, rfl, by decide, rfl, rfl⟩
    · exact ⟨11, _, rfl, by decide, rfl, rfl⟩
  obtain ⟨s', hrun⟩ : ∃ s', Runs (stripEnvelopes ⟨start.1⟩) start.2 () s' :=
    exists_runs_of_answer (by decide +kernel)
  refine ⟨hcell, rfl, fun e he => ?_, ⟨s', hrun⟩, pairwise_ne_of_stripEnvelopes hcell rfl (fun e he id hid => ?_)
    (fun e he id entries hentries => ?_) hrun⟩
  · obtain ⟨id, entries, hshape, -, hown, hrole⟩ := hshape e he
    exact ⟨id, entries, .response, hshape, hown, hrole, by decide⟩
  · obtain ⟨id', entries, hshape, -⟩ := hshape e he
    obtain ⟨hnode, hcell'⟩ := Store.shape_eq_object.mp hshape
    obtain rfl : id' = id := by simpa [hnode] using hid
    exact Store.lt_size_of_cell hcell'
  · obtain ⟨id', entries', hshape, hnodup, -⟩ := hshape e he
    obtain ⟨-, rfl⟩ : id' = id ∧ entries' = entries := by simpa [hshape] using hentries
    exact hnodup
/-- Bringing the schemas of the table into canonical form trims nodes. -/
theorem trims_canonicalizeTable (h : Runs (canonicalizeTable table) s u s') :
    s.Trims s' fun _ => True := by
  have hstep : ∀ id V done name schema rest t t', s.shape table.schemas = .object id V →
      done ++ (name, schema) :: rest = V → s.Trims t (fun _ => True) →
      (t.isReference schema = true ∧ t = t' ∨
        t.isReference schema = false ∧ Runs (canonicalize schema) t () t') →
      s.Trims t' fun _ => True := by
    rintro id V done name schema rest t t' - - htrims (⟨-, rfl⟩ | ⟨-, hrun⟩)
    · exact htrims
    · exact htrims.trans ((trims_canonicalize hrun).mono fun _ _ => trivial)
  rw [canonicalizeTable_eq] at h
  obtain ⟨_, _, -, hlast⟩ := h.forSchemas_induct (fun _ t => s.Trims t fun _ => True) (.refl s _) hstep
  exact hlast

end Edit

end DeviceApi
