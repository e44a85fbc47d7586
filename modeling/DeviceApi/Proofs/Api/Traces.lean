import DeviceApi.Proofs.Api.Adoption
import DeviceApi.Proofs.Api.Registered
import DeviceApi.Proofs.Document.Mirrors
import DeviceApi.Proofs.Schema.Envelope

/-!
# Traces of what is adopted

An operation adopts one schema in each of its roles, that of its parameters or that of a content. This leaves a trace: the
schema has its role, the operation has a reference to it in a node of its own, and if the schema is registered, the table
has it under its name. A trace lasts while schemas are adopted in other roles.
-/

namespace DeviceApi

variable {s t t' : Store} {v w : Value} {i : Nat} {key name : String} {entries : Entries Value} {role role' : Role}

namespace Store

variable {allowed : Nat → String → Value → Prop}

/-- A field keeps its value if nothing is put there. -/
theorem Puts.field?_eq_some (h : s.Puts allowed t) (hfield : s.field? v key = some w)
    (hnot : ∀ i w, v = .node i → ¬ allowed i key w) : t.field? v key = some w := by
  obtain ⟨_, hfield', rfl⟩ := h.exists_field (P := (· = w)) ⟨w, hfield, rfl⟩ fun i w' hi hw => absurd hw (hnot i w' hi)
  exact hfield'

/-- A node into which nothing is put stays as it is. -/
theorem Puts.cells_eq (h : s.Puts allowed t) (hi : i < s.cells.size) (hnot : ∀ key w, ¬ allowed i key w) :
    t.cells[i]? = s.cells[i]? := by
  induction h with
  | grow h => exact h.agree i hi
  | put _ hallowed => rw [cells_set, if_neg fun heq => hnot _ _ (heq.1 ▸ hallowed)]
  | trans h _ ih ih' => exact (ih' (hi.trans_le h.size_le)).trans (ih hi)

/-- A node in which one value may be put under one key has it put there, if it is found there in the end. -/
theorem Puts.cells_eq_put (h : s.Puts allowed t) (hcell : s.cells[i]? = some (.object entries))
    (honly : ∀ k x, allowed i k x → k = key ∧ x = w) (hfield : t.field? (.node i) key = some w) :
    t.cells[i]? = some (.object (entries.put key w)) := by
  obtain ⟨added, hadded, hallowed⟩ := h.exists_putAll hcell
  obtain ⟨_, fields, hshape, hget⟩ := Store.field?_eq_some.mp hfield
  obtain ⟨-, rfl⟩ := Shape.object.inj ((shape_node hadded).symm.trans hshape)
  rw [hadded, Entries.putAll_eq_put (fun e he => ?_) hget]
  obtain ⟨k, hk, hx⟩ := hallowed e he
  obtain ⟨rfl, hvalue⟩ := honly k e.2 hx
  exact Prod.ext hk hvalue

/-- An object into which only values that are as good as those from before have been put is as good. -/
theorem Puts.paired (h : s.Puts allowed t) (hcell : s.cells[i]? = some (.object entries)) (hkeyed : entries.TextKeyed)
    (hmirrors : ∀ key w, allowed i key w →
      ∃ v w', s.field? (.node i) key = some v ∧ t.field? (.node i) key = some w' ∧ s.Mirrors t v w') :
    ∃ others, t.cells[i]? = some (.object others) ∧ List.Forall₂ (Entries.Paired (s.Mirrors t)) entries others := by
  obtain ⟨added, hadded, hallowed⟩ := h.exists_putAll hcell
  have hfield : ∀ key : String, s.field? (.node i) key = entries.get? key := fun key => by
    rw [field?, entries?_eq_some.mpr ⟨i, shape_node hcell⟩]
  have hfield' : ∀ key : String, t.field? (.node i) key = (entries.putAll added).get? key := fun key => by
    rw [field?, entries?_eq_some.mpr ⟨i, shape_node hadded⟩]
  refine ⟨_, hadded, Entries.paired_of_get? (Entries.keys_putAll_of_mem fun e he => ?_) hkeyed fun key a b ha hb => ?_⟩
  · obtain ⟨key, hkey, hw⟩ := hallowed e he
    obtain ⟨v, _, hv, -⟩ := hmirrors key _ hw
    exact ⟨key, hkey, List.mem_map_of_mem (Entries.mem_of_get? ((hfield key).symm.trans hv))⟩
  · obtain ⟨after, hafter, hkeys⟩ := h.object hcell
    obtain rfl := Cell.object.inj (Option.some.inj (hafter.symm.trans hadded))
    rcases hkeys key with hsame | ⟨w, hw, -⟩
    · obtain rfl := Option.some.inj (ha.symm.trans (hsame.symm.trans hb))
      exact .refl s t a
    · obtain ⟨v, w', hv, hw', hmirrors⟩ := hmirrors key w hw
      obtain rfl := Option.some.inj (((hfield key).symm.trans hv).symm.trans ha)
      obtain rfl := Option.some.inj (((hfield' key).symm.trans hw').symm.trans hb)
      exact hmirrors

/-- What is held stays held if only values are put that are as good as those from before. -/
theorem Holds.of_puts {u : Tree} (hheld : s.Holds v u) (h : s.Puts allowed t)
    (hkeyed : ∀ i key w fields, allowed i key w → s.cells[i]? = some (.object fields) → fields.TextKeyed)
    (hmirrors : ∀ i key w, i < s.cells.size → allowed i key w →
      ∃ v w', s.field? (.node i) key = some v ∧ t.field? (.node i) key = some w' ∧ s.Mirrors t v w') : t.Holds v u := by
  refine hheld.of_mirrors fun i hi => ?_
  by_cases hchanged : ∃ key w, allowed i key w
  · obtain ⟨key, w, hw⟩ := hchanged
    obtain ⟨_, _, hfield, -⟩ := hmirrors i key w hi hw
    obtain ⟨_, fields, hshape, -⟩ := field?_eq_some.mp hfield
    obtain ⟨heq, hcell⟩ := shape_eq_object.mp hshape
    obtain rfl := Value.node.inj heq
    obtain ⟨others, hothers, hpaired⟩ := h.paired hcell (hkeyed _ _ _ _ hw hcell) fun key w => hmirrors _ key w hi
    exact .inr ⟨fields, others, hcell, hothers, hpaired⟩
  · exact .inl (h.cells_eq hi fun key w hw => hchanged ⟨key, w, hw⟩)

/-- What holds a tree still holds one if the values that are put into it do. -/
theorem Puts.exists_holds {P : Value → Prop} {u : Tree} (h : s.Puts allowed t) (hheld : s.Holds v u) (hv : P v)
    (hpart : ∀ i cell w, P (.node i) → s.cells[i]? = some cell → w ∈ cell.parts → P w)
    (hkeyed : ∀ i fields, i < s.cells.size → t.cells[i]? = some (.object fields) → fields.TextKeyed)
    (hput : ∀ i key w, P (.node i) → allowed i key w → t.field? (.node i) key = some w → ∃ u, t.Holds w u) :
    ∃ u, t.Holds v u := by
  induction hsize : sizeOf u using Nat.strong_induction_on generalizing v u with
  | _ n ih =>
    cases v with
    | scalar a => exact ⟨.scalar a, by simp⟩
    | node i =>
      have hi := hheld.lt_size
      obtain ⟨cell, hcell⟩ : ∃ cell, s.cells[i]? = some cell := ⟨_, Array.getElem?_eq_getElem hi⟩
      have hold : ∀ w ∈ cell.parts, ∃ u, t.Holds w u := fun w hw => by
        obtain ⟨u', hheld', hlt⟩ := hheld.of_part hcell hw
        exact ih (sizeOf u') (hsize ▸ hlt) hheld' (hpart i cell w hv hcell hw) rfl
      by_cases hobject : ∃ entries, cell = .object entries
      · obtain ⟨entries, rfl⟩ := hobject
        obtain ⟨after, hafter, hkeys⟩ := h.object hcell
        refine exists_holds_of_parts hafter fun w hw => ?_
        obtain ⟨e, he, rfl⟩ := List.mem_map.mp hw
        have htext := hkeyed i after hi hafter
        obtain ⟨key, hkey⟩ := htext.exists_text e.1 (List.mem_map_of_mem he)
        have hget := Entries.get?_of_mem htext.nodup (hkey ▸ he : (Scalar.text key, e.2) ∈ after)
        rcases hkeys key with hsame | ⟨x, hx, hnew⟩
        · exact hold e.2 (List.mem_map.mpr ⟨_, Entries.mem_of_get? (hsame.symm.trans hget), rfl⟩)
        · obtain rfl := Option.some.inj (hnew.symm.trans hget)
          exact hput i key _ hv hx (Store.field?_eq_some.mpr ⟨i, after, shape_node hafter, hget⟩)
      · exact exists_holds_of_parts (h.cell_eq hcell fun entries heq => hobject ⟨entries, heq⟩) hold

end Store

/-- The entries of a reference to a registered schema. -/
def referenceEntries (name : String) : Entries Value := [("$ref", .text (pointerTo name))]

/-- What an operation adopts in a role: the schema of its parameters, or a content. -/
inductive Adoption where
  | parameters (schema : Value)
  | content (content : Content)

namespace Adoption

/-- The schema that is adopted. -/
def schema : Adoption → Value
  | parameters schema => schema
  | content found => found.schema

/-- What stands as schema in the media type of a content. -/
def declared (s : Store) (found : Content) : Value := (s.field? found.media "schema").getD .null

/-- Whether the schema is registered in the table: it is if it does not stand there before. -/
def isRegistered (s : Store) : Adoption → Bool
  | parameters _ => true
  | content found => !s.isReference (declared s found)

/-- The entries of the reference that the operation is given. -/
def handle (s : Store) (name : String) : Adoption → Entries Value
  | parameters _ => referenceEntries name
  | content found =>
    if s.isReference (declared s found) then (s.entries? (declared s found)).getD [] else referenceEntries name

/-- What adopting may put under a key of a node. -/
inductive Changes (s : Store) (table : SchemaTable) (op : Operation) (role : Role) (x : Adoption) (i : Nat) :
    String → Value → Prop
  | registered (hi : table.schemas = .node i) (hx : x.isRegistered s = true) :
      Changes s table op role x i (op.schemaName role) x.schema
  | handle (hi : op.content = .node i) (j : Nat) : Changes s table op role x i role.operationKey (.node j)
  | encoding (hi : op.content = .node i) : Changes s table op role x i encodingKey (.text op.method.encoding.text)
  | media {found : Content} (heq : x = .content found) (hx : x.isRegistered s = true)
      (hi : found.media = .node i) (j : Nat) : Changes s table op role x i "schema" (.node j)
  | tag (hi : x.schema = .node i) : Changes s table op role x i roleKey (.text role.text)

/-- What is found in the document once a schema has been adopted. -/
structure Trace (s t : Store) (table : SchemaTable) (op : Operation) (role : Role) (x : Adoption) : Prop where
  role_eq : t.field? x.schema roleKey = some (.text role.text)
  handle_eq : ∃ y, s.cells.size ≤ y ∧ t.field? op.content role.operationKey = some (.node y) ∧
    t.cells[y]? = some (.object (x.handle s (op.schemaName role)))
  registered_eq : x.isRegistered s = true → t.field? table.schemas (op.schemaName role) = some x.schema
  media_eq : ∀ found, x = .content found → x.isRegistered s = true → ∃ j, s.cells.size ≤ j ∧
    t.field? found.media "schema" = some (.node j) ∧ t.cells[j]? = some (.object (referenceEntries (op.schemaName role)))

variable {table : SchemaTable} {op : Operation} {x x' : Adoption}

theorem has_handle (s : Store) (name : String) (x : Adoption) : (x.handle s name).has referenceKey = true := by
  cases x with
  | parameters schema => rfl
  | content found =>
    cases hreference : s.isReference (declared s found) with
    | false =>
      rw [handle, hreference, if_neg (by decide)]
      rfl
    | true =>
      rw [handle, hreference, if_pos rfl]
      unfold Store.isReference at hreference
      split at hreference
      · next fields hfields => rwa [hfields, Option.getD_some]
      · cases hreference

/-- An operation refers by name to what is registered. -/
theorem handle_of_isRegistered (h : x.isRegistered s = true) : x.handle s name = referenceEntries name := by
  cases x with
  | parameters schema => rfl
  | content found =>
    cases hreference : s.isReference (declared s found) with
    | true => simp [isRegistered, hreference] at h
    | false => simp [handle, hreference]

namespace Changes

/-- Under the key of roles there is the role of the schema. -/
theorem of_roleKey (h : Changes s table op role x i roleKey w) : x.schema = .node i ∧ w = .text role.text := by
  generalize hkey : roleKey = key at h
  cases h with
  | registered => exact absurd (hkey ▸ by decide) (op.schemaName_notMem role)
  | handle => exact absurd hkey (by cases role <;> decide)
  | encoding | media => exact absurd hkey (by decide)
  | tag hi => exact ⟨hi, rfl⟩

theorem role_eq_of_operationKey (h : Changes s table op role x i role'.operationKey w) : role' = role := by
  generalize hkey : role'.operationKey = key at h
  cases h with
  | registered => exact absurd (hkey ▸ by cases role' <;> decide) (op.schemaName_notMem role)
  | handle => exact Edit.operationKey_injective hkey
  | encoding | media | tag => exact absurd hkey (by cases role' <;> decide)

/-- Under the name of a schema there is the schema. -/
theorem of_schemaName (h : Changes s table op role x i (op.schemaName role') w) : role' = role ∧ w = x.schema := by
  generalize hkey : op.schemaName role' = key at h
  cases h with
  | registered => exact ⟨(Operation.schemaName_injective hkey).2, rfl⟩
  | handle => exact absurd (hkey ▸ by cases role <;> decide) (op.schemaName_notMem role')
  | encoding | media | tag => exact absurd (hkey ▸ by decide) (op.schemaName_notMem role')

theorem of_schema (h : Changes s table op role x i "schema" w) :
    ∃ found, x = .content found ∧ x.isRegistered s = true ∧ found.media = .node i := by
  generalize hkey : "schema" = key at h
  cases h with
  | registered => exact absurd (hkey ▸ by decide) (op.schemaName_notMem role)
  | handle => exact absurd hkey (by cases role <;> decide)
  | encoding | tag => exact absurd hkey (by decide)
  | media heq hx hi => exact ⟨_, heq, hx, hi⟩

/-- An adopted schema keeps its role while it is being adopted. -/
theorem role_eq_of_puts (hputs : t.Puts (Changes s table op role x) t') (h : t.field? v roleKey = some (.text role.text)) :
    t'.field? v roleKey = some (.text role.text) := by
  obtain ⟨_, hfield, rfl⟩ := hputs.exists_field (P := (· = .text role.text)) ⟨_, h, rfl⟩ fun _ _ _ hw => hw.of_roleKey.2
  exact hfield

theorem registered_eq_of_puts (hputs : t.Puts (Changes s table op role x) t')
    (h : t.field? v (op.schemaName role) = some x.schema) : t'.field? v (op.schemaName role) = some x.schema := by
  obtain ⟨_, hfield, rfl⟩ := hputs.exists_field (P := (· = x.schema)) ⟨_, h, rfl⟩ fun _ _ _ hw => hw.of_schemaName.2
  exact hfield

end Changes

namespace Trace

/-- A schema that has a role cannot be given another one. -/
theorem schema_ne (h : x.Trace s t table op role) (hmay : t.MayHave v role') (hne : role' ≠ role) : x.schema ≠ v := by
  rintro rfl
  have hrole := (Store.mayHave_iff_field.mp hmay).2 _ h.role_eq (by cases role <;> rfl)
  exact hne (Role.text_injective (by simpa using hrole)).symm

/-- A trace lasts if what it is made of is left alone. -/
theorem keep {allowed : Nat → String → Value → Prop} (h : x.Trace s t table op role) (hputs : t.Puts allowed t')
    (hnew : ∀ i key w, allowed i key w → s.cells.size ≤ i → t.isReference (.node i) = false)
    (hrole : ∀ i w, x.schema = .node i → ¬ allowed i roleKey w)
    (hhandle : ∀ i w, op.content = .node i → ¬ allowed i role.operationKey w)
    (hregistered : x.isRegistered s = true → ∀ i w, table.schemas = .node i → ¬ allowed i (op.schemaName role) w)
    (hmedia : ∀ found, x = .content found → x.isRegistered s = true → ∀ i w, found.media = .node i →
      ¬ allowed i "schema" w) : x.Trace s t' table op role := by
  -- The nodes of references are new, and nothing is put into a new node that is a reference.
  have hkept : ∀ {y : Nat} {fields : Entries Value}, s.cells.size ≤ y → t.cells[y]? = some (.object fields) →
      fields.has referenceKey = true → t'.cells[y]? = some (.object fields) := by
    intro y fields hy hcell hhas
    refine (hputs.cells_eq (Store.lt_size_of_cell hcell) fun key w hw => ?_).trans hcell
    have hnot := hnew y key w hw hy
    rw [Store.isReference, Store.entries?_eq_some.mpr ⟨y, Store.shape_node hcell⟩] at hnot
    exact absurd (hhas.symm.trans hnot) (by decide)
  obtain ⟨y, hy, hfield, hcell⟩ := h.handle_eq
  refine ⟨hputs.field?_eq_some h.role_eq hrole, ⟨y, hy, hputs.field?_eq_some hfield hhandle, hkept hy hcell (has_handle s _ x)⟩,
    fun hx => hputs.field?_eq_some (h.registered_eq hx) (hregistered hx), fun found heq hx => ?_⟩
  obtain ⟨j, hj, hreference, hcell'⟩ := h.media_eq found heq hx
  exact ⟨j, hj, hputs.field?_eq_some hreference (hmedia found heq hx), hkept hj hcell' rfl⟩

end Trace

/-! ## Adopting once more -/

/-- What is adopted at two times: the same content, or schemas of parameters that are as good as each other, where the later
one is new. -/
inductive Alike (s t : Store) : Adoption → Adoption → Prop
  | parameters {v w : Value} (hnew : ∀ i, w = .node i → s.cells.size ≤ i) (h : s.Mirrors t v w) :
      Alike s t (.parameters v) (.parameters w)
  | content (found : Content) : Alike s t (.content found) (.content found)

/-- What is put when something is adopted once more is as good as what is there. -/
theorem Alike.mirrors {s₀ : Store} (h : Alike s t x x') (htrace : x.Trace s₀ s table op role)
    (htrace' : x'.Trace s₀ t table op role)
    (hencoding : s.field? op.content encodingKey = some (.text op.method.encoding.text))
    (hencoding' : t.field? op.content encodingKey = some (.text op.method.encoding.text)) (hi : i < s.cells.size)
    (hc : x'.Changes s₀ table op role i key w) :
    ∃ v w', s.field? (.node i) key = some v ∧ t.field? (.node i) key = some w' ∧ s.Mirrors t v w' := by
  have hregistered : x.isRegistered s₀ = x'.isRegistered s₀ := by cases h <;> rfl
  have hhandle : x.handle s₀ (op.schemaName role) = x'.handle s₀ (op.schemaName role) := by cases h <;> rfl
  cases hc with
  | registered hT hx =>
    rw [← hT]
    refine ⟨_, _, htrace.registered_eq (hregistered.trans hx), htrace'.registered_eq hx, ?_⟩
    cases h with
    | parameters _ hschema => exact hschema
    | content found => exact .refl s t _
  | handle hop j =>
    obtain ⟨y, -, hfield, hcell⟩ := htrace.handle_eq
    obtain ⟨z, -, hfield', hcell'⟩ := htrace'.handle_eq
    rw [← hop]
    exact ⟨_, _, hfield, hfield', Store.mirrors_of_cell hcell (hhandle ▸ hcell')⟩
  | encoding hop =>
    rw [← hop]
    exact ⟨_, _, hencoding, hencoding', .refl s t _⟩
  | media heq hx hm j =>
    cases h with
    | parameters => cases heq
    | content found =>
      obtain ⟨y, -, hfield, hcell⟩ := htrace.media_eq _ heq hx
      obtain ⟨z, -, hfield', hcell'⟩ := htrace'.media_eq _ heq hx
      rw [← hm]
      exact ⟨_, _, hfield, hfield', Store.mirrors_of_cell hcell hcell'⟩
  | tag hv =>
    cases h with
    | parameters hnew => exact absurd (hnew i hv) (by omega)
    | content found =>
      rw [← hv]
      exact ⟨_, _, htrace.role_eq, htrace'.role_eq, .refl s t _⟩

end Adoption

namespace Edit

variable {table : SchemaTable} {op : Operation} {content : Content} {x : Adoption} {u : Unit} {fields : Entries Value} {d : Nat}

theorem puts_of_setRole (hx : x.schema = v) (h : Runs (setRole v role) t u t') :
    t.Puts (x.Changes s table op role) t' ∧ t'.field? v roleKey = some (.text role.text) := by
  obtain ⟨id, keywords, hshape, -, rfl⟩ := runs_setRole h
  obtain ⟨hnode, hcell⟩ := Store.shape_eq_object.mp hshape
  exact ⟨.put hcell (.tag (hx.trans hnode)), Store.field?_eq_some.mpr
    ⟨id, keywords.put roleKey (.text role.text), Store.shape_set_of_shape hshape, Entries.get?_put_self⟩⟩

theorem puts_of_register (hx : x.schema = v) (hregistered : x.isRegistered s = true)
    (h : Runs (table.register (.text (op.schemaName role)) v) t w t') :
    t.Puts (x.Changes s table op role) t' ∧ t'.field? table.schemas (op.schemaName role) = some v ∧
      ∃ j, w = .node j ∧ t.cells.size ≤ j ∧ t'.cells[j]? = some (.object (referenceEntries (op.schemaName role))) := by
  obtain ⟨id, names, hshape, -, heq⟩ := runs_register h
  obtain ⟨hnode, hcell⟩ := Store.shape_eq_object.mp hshape
  obtain ⟨hfield, hnew⟩ := field?_of_register hnode h
  refine ⟨?_, hnode ▸ hfield, hnew⟩
  rw [heq, ← hx]
  exact .trans (.put hcell (.registered hnode hregistered)) (.grow (.add _ _))

/-- Putting a reference into an operation leaves new nodes as they are. -/
theorem puts_of_handle {y : Nat} (hop : s.IsObject op.content) (hy : s.cells.size ≤ y)
    (hcell : t.cells[y]? = some (.object (x.handle s (op.schemaName role))))
    (h : Runs (putField op.content role.operationKey (.node y)) t u t') : t.Puts (x.Changes s table op role) t' ∧
      t'.field? op.content role.operationKey = some (.node y) ∧
        t'.cells[y]? = some (.object (x.handle s (op.schemaName role))) := by
  obtain ⟨hputs, hfield⟩ := puts_putField h fun i hi => @Adoption.Changes.handle s table op role x i hi y
  obtain ⟨id, fields, hshape, rfl⟩ := runs_putField.mp h
  have hlt := hop.lt id (Store.shape_eq_object.mp hshape).1
  refine ⟨hputs, hfield, ?_⟩
  rw [Store.cells_set, if_neg fun heq => by omega, hcell]

section

variable (hop : s.IsObject op.content) (hsize : s.cells.size ≤ t.cells.size)
include hop hsize

/-- Parameters that have been adopted leave their trace. -/
theorem trace_adoptParameters (h : Runs (adoptParameters table op role v) t u t') :
    t.Puts ((Adoption.parameters v).Changes s table op role) t' ∧ (Adoption.parameters v).Trace s t' table op role := by
  obtain ⟨t₁, reference, t₂, hrole, hregister, hhandle⟩ := runs_adoptParameters h
  obtain ⟨hputs₁, htagged⟩ := puts_of_setRole (x := .parameters v) (s := s) (t := t) rfl hrole
  obtain ⟨hputs₂, hregistered, j, rfl, hj, hcell⟩ := puts_of_register (x := .parameters v) (s := s) rfl rfl hregister
  have hnew := (hsize.trans hputs₁.size_le).trans hj
  obtain ⟨hputs₃, hfield, hcell'⟩ := puts_of_handle (x := .parameters v) hop hnew hcell hhandle
  refine ⟨(hputs₁.trans hputs₂).trans hputs₃, ?_, ⟨j, hnew, hfield, hcell'⟩, fun _ => ?_, fun _ heq => by cases heq⟩
  · exact Adoption.Changes.role_eq_of_puts (hputs₂.trans hputs₃) htagged
  · exact Adoption.Changes.registered_eq_of_puts hputs₃ hregistered

/-- When the reference in a media type is copied to the operation, the trace of the content is there, if the schema has
been registered as it should. -/
theorem trace_of_tag {t₂ t₃ : Store} {copy : Value} {id d : Nat} {fields : Entries Value}
    (hfield : t.field? content.media "schema" = some w)
    (hw : t.shape w = .object d ((Adoption.content content).handle s (op.schemaName role))) (hne : w ≠ content.schema)
    (hregistered : (Adoption.content content).isRegistered s = true →
      t.field? table.schemas (op.schemaName role) = some content.schema ∧ s.cells.size ≤ d)
    (hrole : Runs (setRole content.schema role) t () t₂) (hmedia : t₂.shape content.media = .object id fields)
    (hcopy : Runs (copyObject ((fields.get? "schema").getD .null)) t₂ copy t₃)
    (hhandle : Runs (putField op.content role.operationKey copy) t₃ () t') :
    t.Puts ((Adoption.content content).Changes s table op role) t' ∧
      (Adoption.content content).Trace s t' table op role := by
  obtain ⟨rfl, hcell⟩ := Store.shape_eq_object.mp hw
  obtain ⟨hputs, htagged⟩ := puts_of_setRole (x := .content content) (s := s) (t := t) rfl hrole
  have htag : t.Puts (fun i key _ => content.schema = .node i ∧ key = roleKey) t₂ := by
    obtain ⟨_, _, hkeywords, -, rfl⟩ := runs_setRole hrole
    obtain ⟨hnode, hcellSchema⟩ := Store.shape_eq_object.mp hkeywords
    exact .put hcellSchema ⟨hnode, rfl⟩
  have hlt := Store.lt_size_of_cell hcell
  have hfield₂ := htag.field?_eq_some hfield fun _ _ _ hallowed => absurd hallowed.2 (by decide)
  have hcell₂ := (htag.cells_eq hlt fun _ _ hallowed => hne hallowed.1.symm).trans hcell
  obtain ⟨_, others, hothers, hget⟩ := Store.field?_eq_some.mp hfield₂
  obtain ⟨-, rfl⟩ := Shape.object.inj (hmedia.symm.trans hothers)
  rw [hget, Option.getD_some] at hcopy
  obtain ⟨_, copied, hcopied, rfl, rfl⟩ := runs_copyObject.mp hcopy
  obtain ⟨-, rfl⟩ := Shape.object.inj ((Store.shape_node hcell₂).symm.trans hcopied)
  have hnew : s.cells.size ≤ t₂.cells.size := hsize.trans htag.size_le
  obtain ⟨hput, hhandled, hcellHandle⟩ := puts_of_handle (x := .content content) (s := s) hop hnew
    (by rw [Store.cells_add, if_pos rfl]) hhandle
  have hlast : t₂.Puts (fun i key _ => op.content = .node i ∧ key = role.operationKey) t' :=
    (Store.Puts.grow (.add _ _)).trans (puts_putField hhandle fun _ hi => ⟨hi, rfl⟩).1
  refine ⟨(hputs.trans (.grow (.add _ _))).trans hput, ?_, ⟨_, hnew, hhandled, hcellHandle⟩, fun hx => ?_,
    fun found heq hx => ?_⟩
  · exact Adoption.Changes.role_eq_of_puts ((Store.Puts.grow (.add _ _)).trans hput) htagged
  · exact Adoption.Changes.registered_eq_of_puts ((hputs.trans (.grow (.add _ _))).trans hput) (hregistered hx).1
  · obtain rfl := Adoption.content.inj heq
    have hd := (hregistered hx).2
    refine ⟨d, hd, hlast.field?_eq_some hfield₂ fun _ _ _ hallowed => absurd hallowed.2 (by cases role <;> decide), ?_⟩
    rw [hlast.cells_eq (Store.lt_size_of_cell hcell₂) fun _ _ hallowed => absurd (hop.lt d hallowed.1) (by omega), hcell₂,
      Adoption.handle_of_isRegistered hx]

/-- A content that has been adopted leaves its trace. A reference that stands in the media type is the one that belongs
there, and a schema that stands there is going to be registered. -/
theorem trace_adoptContent (hfield : t.field? content.media "schema" = some w)
    (hinline : t.isReference w = false → (Adoption.content content).isRegistered s = true)
    (hreference : t.isReference w = true → w ≠ content.schema ∧
      ∃ d, t.shape w = .object d ((Adoption.content content).handle s (op.schemaName role)) ∧
        ((Adoption.content content).isRegistered s = true →
          t.field? table.schemas (op.schemaName role) = some content.schema ∧ s.cells.size ≤ d))
    (hschema : t.IsObject content.schema) (h : Runs (adoptContent table op role content) t u t') :
    t.Puts ((Adoption.content content).Changes s table op role) t' ∧
      (Adoption.content content).Trace s t' table op role := by
  obtain ⟨t₁, t₂, id, fields, hfields, hadopt, hrole, _, _, _, t₃, hmedia, hcopy, hhandle⟩ := runs_adoptContent h
  obtain ⟨_, others, hothers, hget⟩ := Store.field?_eq_some.mp hfield
  obtain ⟨-, rfl⟩ := Shape.object.inj (hfields.symm.trans hothers)
  rw [hget, Option.getD_some] at hadopt
  obtain ⟨hisReference, rfl⟩ | ⟨reference, t₀, hnot, hregister, hput⟩ := hadopt
  · obtain ⟨hne, d, hw, hregistered⟩ := hreference hisReference
    exact trace_of_tag hop hsize hfield hw hne hregistered hrole hmedia hcopy hhandle
  · have hx := hinline hnot
    obtain ⟨hputs₀, hregistered, j, rfl, hj, hcell⟩ := puts_of_register (x := .content content) (s := s) rfl hx hregister
    obtain ⟨hputs₁, hfield₁⟩ := puts_putField hput fun i hi => @Adoption.Changes.media s table op role _ i _ rfl hx hi j
    have hlt := hschema.lt
    have hcell₁ : t₁.cells[j]? = some (.object (referenceEntries (op.schemaName role))) := by
      obtain ⟨idMedia, _, hshape, rfl⟩ := runs_putField.mp hput
      have hltMedia := Store.IsObject.lt ⟨id, fields, hfields⟩ idMedia (Store.shape_eq_object.mp hshape).1
      rw [Store.cells_set, if_neg fun heq => by omega, hcell]
    obtain ⟨hputs, htrace⟩ := trace_of_tag (s := s) (d := j) hop ((hsize.trans hputs₀.size_le).trans hputs₁.size_le) hfield₁
      (Adoption.handle_of_isRegistered hx ▸ Store.shape_node hcell₁) (fun heq => absurd (hlt j heq.symm) (by omega))
      (fun _ => ⟨Adoption.Changes.registered_eq_of_puts hputs₁ hregistered, hsize.trans hj⟩) hrole hmedia hcopy hhandle
    exact ⟨(hputs₀.trans hputs₁).trans hputs, htrace⟩

end

end Edit

end DeviceApi
