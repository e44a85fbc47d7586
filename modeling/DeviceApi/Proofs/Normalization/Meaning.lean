import DeviceApi.Proofs.Api.Declared
import DeviceApi.Proofs.Api.Region
import DeviceApi.Proofs.Normalization.Envelopes
import DeviceApi.Proofs.Normalization.Handles
import DeviceApi.Proofs.Schema.Canonical
import DeviceApi.Proofs.Schema.Descriptions

/-!
# What handles mean

The handle of an operation leads to its schema. When the table is folded, it leads to a schema of the same shape, as
long as the names in the table and in the catalogue can stand in pointers as they are.
-/

namespace DeviceApi

namespace Store

variable {s : Store} {root v w : Value}

/-- The references that begin with a value pass another one. -/
inductive Passes (s : Store) (root v : Value) : Value → Prop
  | here : Passes s root v v
  | next {w u : Value} {p : String} (h : Passes s root v w) (hp : s.field? w referenceKey = some (.text p))
      (hu : s.resolve root p = .ok u) : Passes s root v u

/-- The value is one of the parameters that an operation declares. -/
def IsParameter (s : Store) (op : Operation) (v : Value) : Prop :=
  ∃ items, s.elements (s.declared op "parameters") = .ok items ∧ v ∈ items

/-- The value is what an operation declares as its body or as its response to success. -/
inductive IsCarrier (s : Store) (op : Operation) : Value → Prop
  | body : IsCarrier s op (s.declared op "requestBody")
  | success : IsCarrier s op (((s.responses op).get? "200").getD .null)

/-- The pointer is one to a schema of the table. -/
def InTable (s : Store) (schemas : Value) (p : String) : Prop :=
  ∃ n v, p = pointerTo n ∧ s.field? schemas (.text n) = some v

/-- Operations have names of their own, and the names that they give to schemas are not taken. Parameters, bodies and
responses do not refer to the table. The schemas of bodies and responses are referred to by names of the table, and
so are schemas in the table. -/
structure Regular (s : Store) (root schemas : Value) (ops : List Operation) : Prop where
  distinct : (ops.map Operation.typeId).Nodup
  fresh : ∀ op ∈ ops, ∀ role : Role, s.field? schemas (op.schemaName role) = none
  apart : ∀ op ∈ ops, ∀ v w p n, s.IsParameter op v ∨ s.IsCarrier op v → s.Passes root v w →
    s.field? w referenceKey = some (.text p) → p ≠ pointerTo n
  named : ∀ op ∈ ops, ∀ v owner types type media declared p, s.IsCarrier op v → s.dereference root v = .ok owner →
    s.field? owner "content" = some types → s.field? types type = some media →
    s.field? media "schema" = some declared → s.field? declared referenceKey = some (.text p) → s.InTable schemas p
  aliases : ∀ n v p, s.field? schemas (.text n) = some v → s.field? v referenceKey = some (.text p) →
    s.InTable schemas p

/-- The names of a catalogue are neither names of the table nor names that operations give. -/
def Spares (s : Store) (schemas : Value) (ops : List Operation) (catalogue : List (Scalar × Tree)) : Prop :=
  ∀ e ∈ catalogue, ∀ n, e.1 = .text n →
    s.field? schemas (.text n) = none ∧ ∀ op ∈ ops, ∀ role : Role, n ≠ op.schemaName role

/-- The names of the table can stand in pointers as they are. -/
def SimplyNamed (s : Store) (schemas : Value) : Prop :=
  ∀ n v, s.field? schemas (.text n) = some v → Pointer.Simple n

/-- The references that begin with a value lead from one schema of the table to the next. -/
def StaysIn (s : Store) (root schemas v : Value) : Prop :=
  ∀ w p, s.Passes root v w → s.field? w referenceKey = some (.text p) → s.InTable schemas p

/-- References that begin with a value that is none pass this one only. -/
theorem Passes.eq_of_field?_eq_none (h : s.Passes root v w) (hv : s.field? v referenceKey = none) : w = v := by
  induction h with
  | here => rfl
  | next _ hp _ ih =>
    rw [ih, hv] at hp
    cases hp

variable {schemas : Value} {p : String}

/-- What is passed behind the first reference is passed. -/
theorem Passes.step (hp : s.field? v referenceKey = some (.text p)) (hw : s.resolve root p = .ok w) {u : Value}
    (h : s.Passes root w u) : s.Passes root v u := by
  induction h with
  | here => exact .next .here hp hw
  | next _ hp' hu ih => exact .next ih hp' hu

/-- What a reference leads to leads on in the table. -/
theorem StaysIn.next (h : s.StaysIn root schemas v) (hp : s.field? v referenceKey = some (.text p))
    (hw : s.resolve root p = .ok w) : s.StaysIn root schemas w := fun u q hu => h u q (hu.step hp hw)

/-- A reference to a schema of the table that is none stays in the table. -/
theorem staysIn_of_single (hp : s.field? v referenceKey = some (.text p)) (hin : s.InTable schemas p)
    (hw : s.resolve root p = .ok w) (hnot : s.field? w referenceKey = none) : s.StaysIn root schemas v := by
  have hpassed : ∀ {u}, s.Passes root v u → u = v ∨ u = w := by
    intro u hu
    induction hu with
    | here => exact .inl rfl
    | next _ hq hu ih =>
      rcases ih with rfl | rfl
      · obtain rfl := Scalar.text.inj (Value.scalar.inj (Option.some.inj (hp.symm.trans hq)))
        exact .inr (Except.ok.inj (hu.symm.trans hw))
      · rw [hnot] at hq
        cases hq
  intro u q hu hq
  rcases hpassed hu with rfl | rfl
  · obtain rfl := Scalar.text.inj (Value.scalar.inj (Option.some.inj (hp.symm.trans hq)))
    exact hin
  · rw [hnot] at hq
    cases hq

end Store

/-- The names of the catalogue can stand in pointers as they are, and none of its schemas is a reference. -/
def PlainCatalogue (catalogue : List (Scalar × Tree)) : Prop :=
  ∀ e ∈ catalogue, (∀ n, e.1 = .text n → Pointer.Simple n) ∧ e.2.isReference = false

/-- The canonical form of a schema that is no reference is none. -/
theorem Tree.isReference_canonical {t : Tree} (h : t.isReference = false) : t.canonical.isReference = false := by
  cases t with
  | object entries =>
    have hkeys : ∀ {entries' : List (Scalar × Tree)}, Entries.keys entries' = Entries.keys entries →
        (Tree.object entries').isReference = false := fun heq => (Entries.has_eq_of_keys_eq heq).trans h
    rw [canonical, if_neg (by simpa [isReference] using h)]
    split
    · exact hkeys (Store.canonicalItems_eq ▸ Entries.keys_map_value)
    · exact hkeys (Store.canonicalProperties_eq ▸ Entries.keys_map_value)
    · split
      · next canonical hform =>
        rw [isReference, ← Bool.not_eq_true, Entries.has_text]
        intro hmem
        obtain ⟨e, he, hkey⟩ := List.mem_map.mp hmem
        rcases Entries.mem_canonicalOfType hform he with hold | rfl
        · have hin : Scalar.text referenceKey ∈ Entries.keys entries := hkey ▸ List.mem_map_of_mem hold
          exact absurd (Entries.has_text.mpr hin) (by simpa [isReference] using h)
        · exact absurd hkey (by decide)
      · exact h
  | scalar | list | pair | set | enclosing => exact h

/-- Following the references that begin with a value leads to one that is none. Every pointer on the way is
replaced before it is looked up. -/
inductive Normalized.Leads (result : Normalized) (s : Store) : Value → Value → Prop
  | here {v : Value} (hnot : s.isReference v = false) : Leads result s v v
  | next {u v w : Value} {p q : String} (hp : s.field? u referenceKey = some (.text p))
      (hq : result.replacements.follow (.text p) = .text q) (hv : s.resolve result.document q = .ok v)
      (h : Leads result s v w) : Leads result s u w

/-- What is reached in the end is no reference. -/
theorem Normalized.Leads.not_isReference {result : Normalized} {s : Store} {v w : Value} (h : result.Leads s v w) :
    s.isReference w = false := by
  induction h with
  | here hnot => exact hnot
  | next _ _ _ _ ih => exact ih

namespace Edit

/-- The pointer to a schema leads to the schema in the table. -/
theorem TablePath.resolve_iff {s : Store} {root c T : Nat} {entries inner V : Entries Value} {name : String} {w : Value}
    (h : TablePath s root c T entries inner V) (hname : Pointer.Simple name) :
    s.resolve (.node root) (pointerTo name) = .ok w ↔ V.get? (.text name) = some w ∧ s.isNull w = false := by
  rw [pointerTo_eq, Store.resolve_plain (by decide) hname, Store.step_object h.root_cell, h.components_get]
  constructor
  · rintro ⟨_, _, hcomponents, -, hschemas, -, hstep, hw⟩
    obtain rfl := Option.some.inj (Except.ok.inj hcomponents)
    rw [Store.step_object h.components_cell, h.schemas_get] at hschemas
    obtain rfl := Option.some.inj (Except.ok.inj hschemas)
    rw [Store.step_object h.table_cell] at hstep
    exact ⟨Except.ok.inj hstep, hw⟩
  · rintro ⟨hget, hw⟩
    exact ⟨.node c, .node T, rfl, Store.isNull_node h.components_cell,
      by rw [Store.step_object h.components_cell, h.schemas_get], Store.isNull_node h.table_cell,
      by rw [Store.step_object h.table_cell, hget], hw⟩

end Edit

namespace Procedure

open Edit

variable {t t' u : Session} {table : SchemaTable} {E : List (Scalar × Tree)} {merge : Bool} {root T : Nat}
  {V C kept : Entries Value} {state : FoldState} {result : Normalized} {v w : Value} {n : String}

/-! ## Following references behind the folding -/

section

variable (hready : Ready t.store root T V) (hload : Runs (loadCatalogue (.object E)) t C u)
include hready hload

/-- The table is no reference, since it has nodes only. So every reference stays when it has been folded. -/
theorem field?_folded {cell : Cell} {p : String} (hp : t.store.field? v referenceKey = some (.text p)) :
    (u.store.set T cell).field? v referenceKey = some (.text p) := by
  obtain ⟨i, fields, hshape, hget⟩ := Store.field?_eq_some.mp hp
  obtain ⟨rfl, hcell⟩ := Store.shape_eq_object.mp hshape
  have hne : i ≠ T := by
    rintro rfl
    obtain rfl : V = fields := by simpa [hready.cell] using hcell
    exact hready.nodes _ (Entries.mem_of_get? hget) _ rfl
  have hlast : (u.store.set T cell).cells[i]? = some (.object fields) :=
    ((adds_loadCatalogue hload).2.cells_set (Store.lt_size_of_cell hcell) hne).trans hcell
  exact Store.field?_eq_some.mpr ⟨i, fields, Store.shape_node hlast, hget⟩

/-- A schema of the table holds what it held before once the table has been folded. -/
theorem holds_folded (hv : v ∈ V.values) {x : Tree} (hx : t.store.Holds v x) {cell : Cell} :
    (u.store.set T cell).Holds v x := by
  obtain ⟨-, hadds⟩ := adds_loadCatalogue hload
  exact (hx.extend hadds.toGrows).set ((hready.apart v hv).grow hadds.toGrows).not_reaches

variable (hE : (Tree.object E).IsJson) (hfolded : Folded u.store V C V state kept)
  (hplain : PlainCatalogue E) (hnames : ∀ n, Scalar.text n ∈ V.keys → Pointer.Simple n ∧ Scalar.text n ∉ Entries.keys E)
include hE hfolded hplain hnames

/-- The pointer to a schema of the table is followed to the pointer to a schema of the new table: from a reference to
itself, and from another schema to one of the same shape that is no reference. -/
theorem exists_follow (hv : V.get? (.text n) = some v) :
    ∃ m w, state.replacements.follow (.text (pointerTo n)) = .text (pointerTo m) ∧ Pointer.Simple m ∧
      (kept.putAll C).get? (.text m) = some w ∧ (t.store.isReference v = true → w = v) ∧
      (t.store.isReference v = false → (u.store.set T (.object (kept.putAll C))).isReference w = false ∧
        (u.store.set T (.object (kept.putAll C))).shapeKey w = t.store.shapeKey v) := by
  obtain ⟨hkeys, hadds⟩ := adds_loadCatalogue hload
  have hC : C.TextKeyed := ⟨hkeys ▸ hE.1.exists_text, hkeys ▸ hE.1.nodup⟩
  obtain ⟨-, W, -, -, hW⟩ := hready.exists_tree
  obtain ⟨hn, hnew⟩ := hnames n (List.mem_map_of_mem (Entries.mem_of_get? hv))
  rw [← hkeys, ← Entries.get?_eq_none] at hnew
  obtain ⟨x, -, hx⟩ := Store.exists_tree_of_get? hW hv
  rw [hfolded.follow_eq]
  cases hq : state.replacements.get? (.text (pointerTo n)) with
  | none =>
    have hlast : (u.store.set T (.object (kept.putAll C))).Holds v x :=
      holds_folded hready hload (Entries.mem_values_of_get? hv) hx
    refine ⟨n, v, rfl, hn, ?_, fun _ => rfl, fun hnot => ⟨?_, hlast.shapeKey_eq.trans hx.shapeKey_eq.symm⟩⟩
    · rw [hfolded.get?_putAll hC, hnew, Option.none_or, Entries.has, hq]
      exact hv
    · rw [hlast.isReference_eq, ← hx.isReference_eq, hnot]
  | some q =>
    obtain ⟨key, m, w, hvreference, hvkey, rfl, hget, hwkey, htarget⟩ := hfolded.exists_target_shape hC hv hq
    have hx' := hx.extend hadds.toGrows
    rw [hx'.isReference_eq, ← hx.isReference_eq] at hvreference
    rw [hx'.shapeKey_eq, ← hx.shapeKey_eq] at hvkey
    rw [hvkey, ← hwkey]
    have hnot : t.store.isReference v = true → w = v := by simp [hvreference]
    rcases htarget with hcatalogue | ⟨htable, hwreference⟩
    · -- A schema of the catalogue is the canonical form of one that is no reference.
      obtain ⟨hheld, -⟩ := holds_loadCatalogue (Tree.entriesAreJson_iff.mp hE.2) hload
      obtain ⟨y, hy, hholds⟩ := Store.exists_tree_of_get? hheld hcatalogue
      obtain ⟨e, he, heq⟩ := List.mem_map.mp (Entries.mem_of_get? hy)
      obtain ⟨hname, rfl⟩ := Prod.mk.inj heq
      have hapart := hadds.apart (Store.lt_size_of_cell hready.cell) (Entries.mem_values_of_get? hcatalogue)
      refine ⟨m, w, rfl, (hplain e he).1 m hname, hget, hnot, fun _ => ⟨?_, hapart.shapeKey_set⟩⟩
      rw [hapart.isReference_set, hholds.isReference_eq]
      exact Tree.isReference_canonical (hplain e he).2
    · have hapart := (hready.apart w (Entries.mem_values_of_get? htable)).grow hadds.toGrows
      have hm := (hnames m (List.mem_map_of_mem (Entries.mem_of_get? htable))).1
      refine ⟨m, w, rfl, hm, hget, hnot, fun _ => ⟨?_, hapart.shapeKey_set⟩⟩
      rw [hapart.isReference_set, hwreference]

/-- A chain of references that stays in the table leads to a schema of the new table that has the shape of the one that
it led to. -/
theorem Chain.exists_leads {k : Nat} (hroot : result.document = .node root)
    (hreplacements : result.replacements = state.replacements) (h : t.store.Chain (.node root) k v w)
    (hv : t.store.isReference v = true) (hstays : t.store.StaysIn (.node root) (.node T) v) :
    ∃ m w', (kept.putAll C).get? (.text m) = some w' ∧
      result.Leads (u.store.set T (.object (kept.putAll C))) v w' ∧
      (u.store.set T (.object (kept.putAll C))).shapeKey w' = t.store.shapeKey w := by
  obtain ⟨c, K, hgated, -⟩ := hready.exists_gated
  obtain ⟨-, hadds⟩ := adds_loadCatalogue hload
  obtain ⟨entries, inner, hpath⟩ := tablePath_of_gated hgated hready.cell
  have hready' := ready_of_folded hready hE hload hfolded
  have hpath' := hpath.of_agree hgated (fun i hi => hadds.cells_set (hgated.lt i hi)) hready'.cell
  induction h with
  | nil hnot => simp [hnot] at hv
  | @cons k p v y w hp hresolve hrest ih =>
    obtain ⟨n, y', rfl, hy⟩ := hstays v p .here hp
    rw [Store.field?_node hready.cell] at hy
    obtain ⟨hget, -⟩ := (hpath.resolve_iff (hnames n (List.mem_map_of_mem (Entries.mem_of_get? hy))).1).mp hresolve
    obtain ⟨m, y₁, hfollow, hm, hget', hsame, hother⟩ := exists_follow hready hload hE hfolded hplain hnames hget
    obtain ⟨i, rfl, hi, -⟩ := hready'.schema (Entries.mem_of_get? hget')
    have hresolve' := (hpath'.resolve_iff hm).mpr ⟨hget', Store.isNull_node (Array.getElem?_eq_getElem hi)⟩
    have hstep : ∀ {w'}, result.Leads _ (.node i) w' → result.Leads _ v w' :=
      .next (field?_folded hready hload hp) (hreplacements ▸ hfollow) (hroot ▸ hresolve')
    cases hreference : t.store.isReference y with
    | true =>
      obtain ⟨m', w', hw', hleads, hkey⟩ := ih hreference (hstays.next hp hresolve)
      exact ⟨m', w', hw', hstep (hsame hreference ▸ hleads), hkey⟩
    | false =>
      obtain rfl : y = w := by
        cases hrest with
        | nil => rfl
        | cons hp' => simp [Store.isReference_of_field? hp'] at hreference
      obtain ⟨hnot, hkey⟩ := hother hreference
      exact ⟨m, .node i, hget', hstep (.here hnot), hkey⟩

end

variable {document : Tree} {names : Option MethodNames} {log : List Log.Record} {s' : Session}

/-- The names in the table right before the folding are those that it has had and those that operations give. -/
theorem ready_with_names (hdocument : document.IsJson)
    (h : Runs (prepare (Store.empty.load document).1 names) ⟨(Store.empty.load document).2, log⟩ table t) :
    ∃ root T V s₁ ops, (Store.empty.load document).1 = .node root ∧ table.schemas = .node T ∧
      Ready t.store root T V ∧
      Edit.Runs (openTable (Store.empty.load document).1) (Store.empty.load document).2 table s₁ ∧
      s₁.operations (Store.empty.load document).1 = .ok ops ∧
      ∀ n, Scalar.text n ∈ V.keys → (∃ v, s₁.field? (.node T) (.text n) = some v) ∨
        ∃ op ∈ ops, ∃ role, n = op.schemaName role := by
  obtain ⟨root, c, T, entries, s₁, n, s₂, V, s₃, hroot, hnode, hopen, hopened, hvisit, hcell, hnodes, hstrip,
    hcanonicalize⟩ := opened_of_prepare hdocument h
  have hready := hopened.ready hnode hvisit hcell hnodes
  obtain ⟨ops, K, registered, V₀, hops, hregisters, hclassifies, hcell₀, rfl⟩ :=
    hopened.table_eq hnode hvisit hcell hnodes
  rw [← hroot] at hopen hops
  refine ⟨root, T, _, s₁, ops, hroot, hnode, (hready.stripEnvelopes hnode hstrip).canonicalizeTable hnode hcanonicalize,
    hopen, hops, fun n hn => ?_⟩
  rcases (Entries.mem_keys_putAll_of_text hclassifies.exists_text).mp hn with hold | hnew
  · obtain ⟨v, hv⟩ := Entries.exists_get? hold
    exact .inl ⟨v, (Store.field?_node hcell₀).trans hv⟩
  · obtain ⟨op, hop, role, hname⟩ := hregisters.exists_operation hnew
    exact .inr ⟨op, hop, role, Scalar.text.inj hname⟩

/-- References that stay in the table lead in the end to a schema of the shape of the one that they led to before the
folding. -/
theorem exists_leads (hdocument : document.IsJson) (hE : (Tree.object E).IsJson) (hplain : PlainCatalogue E)
    (h : Runs (normalize (Store.empty.load document).1 names (.object E) merge)
      ⟨(Store.empty.load document).2, log⟩ result s') :
    ∃ table s₁ ops t,
      Edit.Runs (openTable (Store.empty.load document).1) (Store.empty.load document).2 table s₁ ∧
      s₁.operations (Store.empty.load document).1 = .ok ops ∧
      Runs (prepare (Store.empty.load document).1 names) ⟨(Store.empty.load document).2, log⟩ table t ∧
      (s₁.SimplyNamed table.schemas → s₁.Spares table.schemas ops E →
        ∀ v w, t.store.isReference v = true → t.store.dereference result.document v = .ok w →
          t.store.StaysIn result.document table.schemas v →
          ∃ root T V n w', result.document = .node root ∧ table.schemas = .node T ∧ Ready s'.store root T V ∧
            V.get? (.text n) = some w' ∧ result.Leads s'.store v w' ∧ s'.store.shapeKey w' = t.store.shapeKey w) := by
  obtain ⟨table, t, hprepare, t₁, t₂, hstore₁, hfold, hstore₂, hroot⟩ := runs_normalize h
  obtain ⟨root, T, V, s₁, ops, hnode, htable, hready, hopen, hops, hkeys⟩ := ready_with_names hdocument hprepare
  refine ⟨table, s₁, ops, t, hopen, hops, hprepare, fun hsimple hspares v w hv hw hstays => ?_⟩
  rw [htable] at hsimple hspares hstays
  rw [hroot, hnode] at hw hstays
  have hspared : ∀ n, Scalar.text n ∈ Entries.keys E → s₁.field? (.node T) (.text n) = none ∧
      ∀ op ∈ ops, ∀ role : Role, n ≠ op.schemaName role := by
    intro n hmem
    obtain ⟨e, he, hname⟩ := List.mem_map.mp hmem
    exact hspares e he n hname
  have hnames : ∀ n, Scalar.text n ∈ V.keys → Pointer.Simple n ∧ Scalar.text n ∉ Entries.keys E := by
    intro n hn
    rcases hkeys n hn with ⟨v, hv⟩ | ⟨op, hop, role, rfl⟩
    · exact ⟨hsimple n v hv, fun hmem => by simp [(hspared n hmem).1] at hv⟩
    · exact ⟨op.simple_schemaName role, fun hmem => (hspared _ hmem).2 op hop role rfl⟩
  rw [← hstore₁] at hready hv hw hstays ⊢
  rw [← hstore₂]
  obtain ⟨C, u, state, kept, hload, hfolded, hreplacements, hstore⟩ :=
    folded_of_foldSchemas hfold htable hready.cell hready.textKeyed hE.1 hready.apart
  obtain ⟨k, hchain⟩ := Store.dereference_eq_ok.mp hw
  obtain ⟨m, w', hm, hleads, hkey⟩ := Chain.exists_leads hready hload hE hfolded hplain hnames (hroot.trans hnode)
    hreplacements.symm hchain hv hstays
  rw [hstore]
  exact ⟨root, T, _, m, w', hroot.trans hnode, htable, ready_of_folded hready hE hload hfolded, hm, hleads, hkey⟩

/-- **What handles mean.** Let a JSON document be normalized. Let the names in its table and in the catalogue be ones
that can stand in pointers as they are, and those of the catalogue neither be in the table nor be given by operations.
A reference that leads to a schema right before the folding, from one schema of the table to the next, then leads in
the end, when every pointer on the way is replaced first, to a schema of the table that has the same shape. -/
theorem normalize_keeps_meaning (hdocument : document.IsJson) (hE : (Tree.object E).IsJson) (hplain : PlainCatalogue E)
    (h : Runs (normalize (Store.empty.load document).1 names (.object E) merge)
      ⟨(Store.empty.load document).2, log⟩ result s') :
    let start := Store.empty.load document
    ∃ table s₁ ops t, Edit.Runs (openTable start.1) start.2 table s₁ ∧ s₁.operations start.1 = .ok ops ∧
      Runs (prepare start.1 names) ⟨start.2, log⟩ table t ∧
      (s₁.SimplyNamed table.schemas → s₁.Spares table.schemas ops E →
        ∀ v w, t.store.isReference v = true → t.store.dereference result.document v = .ok w →
          t.store.StaysIn result.document table.schemas v →
          ∃ n w', result.Leads s'.store v w' ∧ s'.store.field? table.schemas (.text n) = some w' ∧
            s'.store.shapeKey w' = t.store.shapeKey w) := by
  intro start
  obtain ⟨table, s₁, ops, t, hopen, hops, hprepare, hreached⟩ := exists_leads hdocument hE hplain h
  refine ⟨table, s₁, ops, t, hopen, hops, hprepare, fun hsimple hspares v w hv hw hstays => ?_⟩
  obtain ⟨root, T, V, n, w', -, htable, hready, hn, hleads, hkey⟩ := hreached hsimple hspares v w hv hw hstays
  exact ⟨n, w', hleads, by rw [htable, Store.field?_node hready.cell, hn], hkey⟩

/-! ## A regular document -/

/-- A document with one operation, whose reply is a schema of the table. -/
def readingValue : Tree :=
  describing
    [("/value/\x7bnumber\x7d", .ofFields [("get", readOperation ["number"] "#/components/schemas/Reply")])]
    [("schemas", .ofFields [("Reply", reply)])]

theorem isJson_readingValue : readingValue.IsJson := by decide

theorem plain_readingValue : ∀ p ∈ readingValue.pointers, Pointer.Plain p := by
  have hpointers : readingValue.pointers = [pointerTo "Reply"] := by decide
  intro p hp
  obtain rfl : p = pointerTo "Reply" := by simpa [hpointers] using hp
  exact ⟨"schemas", "Reply", rfl, by decide, by decide⟩

/-- The operation of the document, as it stands in the store. -/
def valueOperation : Operation := ⟨"/value/\x7bnumber\x7d", .get, "get_value", .node 20⟩

theorem operations_readingValue :
    (Store.empty.load readingValue).2.operations (.node 33) = .ok [valueOperation] := rfl

theorem openTable_readingValue :
    Edit.Runs (openTable (.node 33)) (Store.empty.load readingValue).2 ⟨.node 31⟩ (Store.empty.load readingValue).2 :=
  rfl

theorem cell_of_entries? {s : Store} {i : Nat} {entries : Entries Value} (h : s.entries? (.node i) = some entries) :
    s.cells[i]? = some (.object entries) := by
  obtain ⟨id, hshape⟩ := Store.entries?_eq_some.mp h
  obtain ⟨heq, hcell⟩ := Store.shape_eq_object.mp hshape
  exact Value.node.inj heq ▸ hcell

theorem holds_emptySchema {s : Store} {i j : Nat} {role : Role}
    (hcell : s.cells[i]? =
      some (.object [("type", .text "object"), ("properties", .node j), ("x-kind", .text role.text)]))
    (hproperties : s.cells[j]? = some (.object [])) : s.Holds (.node i) (emptySchema role) := by
  refine Store.holds_object.mpr ⟨i, _, rfl, hcell, .cons ⟨rfl, ?_⟩ (.cons ⟨rfl, ?_⟩ (.cons ⟨rfl, ?_⟩ .nil))⟩
  · exact Store.holds_scalar.mpr rfl
  · exact Store.holds_object.mpr ⟨j, _, rfl, hproperties, .nil⟩
  · exact Store.holds_scalar.mpr rfl

/-- Right before the folding, the handle for the request of the operation leads to an empty request in the table. -/
theorem exists_prepared_readingValue :
    let start := Store.empty.load readingValue
    ∃ t, Runs (prepare start.1 none) ⟨start.2, []⟩ ⟨.node 31⟩ t ∧
      t.store.field? valueOperation.content Role.request.operationKey = some (.node 42) ∧
      t.store.isReference (.node 42) = true ∧ t.store.dereference start.1 (.node 42) = .ok (.node 40) ∧
      t.store.StaysIn start.1 (.node 31) (.node 42) ∧ t.store.Holds (.node 40) (emptySchema .request) := by
  intro start
  have hprepare : passes (prepare start.1 none) ⟨start.2, []⟩ (fun table t =>
      let stand (i : Nat) (entries : Entries Value) := decide (t.store.entries? (.node i) = some entries)
      decide (table.schemas = .node 31) &&
      (stand 31 [("Reply", .node 30), ("GetValuePath", .node 38), ("GetValueRequest", .node 40)] &&
      (stand 42 [("$ref", .text (pointerTo "GetValueRequest"))] &&
      (stand 40 [("type", .text "object"), ("properties", .node 52), ("x-kind", .text "Request")] &&
      (stand 52 [] &&
      (decide (t.store.field? valueOperation.content Role.request.operationKey = some (.node 42)) &&
      decide ((t.store.resolve start.1 (pointerTo "GetValueRequest")).toOption = some (.node 40)))))))) = true := by
    decide +kernel
  obtain ⟨⟨_⟩, t, hrun, hcheck⟩ := exists_runs_of_passes hprepare
  simp only [Bool.and_eq_true, decide_eq_true_eq] at hcheck
  obtain ⟨rfl, htable, hhandle, hrequest, hproperties, hkey, hresolve⟩ := hcheck
  have hpointer : t.store.field? (.node 42) referenceKey = some (.text (pointerTo "GetValueRequest")) :=
    Store.field?_node (cell_of_entries? hhandle)
  have hplain : t.store.field? (.node 40) referenceKey = none := Store.field?_node (cell_of_entries? hrequest)
  have hresolve' := toOption_eq_some.mp hresolve
  refine ⟨t, hrun, hkey, Store.isReference_of_field? hpointer,
    Store.dereference_eq_ok.mpr ⟨1, .cons hpointer hresolve' (.nil ?_)⟩,
    Store.staysIn_of_single hpointer ⟨"GetValueRequest", .node 40, rfl, ?_⟩ hresolve' hplain,
    holds_emptySchema (cell_of_entries? hrequest) (cell_of_entries? hproperties)⟩
  · rw [Store.isReference_eq_isSome, hplain]
    rfl
  · rw [Store.field?_node (cell_of_entries? htable)]
    rfl

/-- The names in the table of the document and in the default catalogue can stand in pointers, and those of the
catalogue are neither in the table nor given by the operation. -/
theorem spares_readingValue :
    let s := (Store.empty.load readingValue).2
    PlainCatalogue defaultSchemas ∧ s.SimplyNamed (.node 31) ∧ s.Spares (.node 31) [valueOperation] defaultSchemas := by
  intro s
  have htable : s.cells[31]? = some (Cell.object [("Reply", .node 30)]) := rfl
  have hnames : ∀ e ∈ defaultSchemas, ∃ n, e.1 = .text n ∧ Pointer.Simple n ∧
      n ∉ "Reply" :: [Role.path, .request, .response].map valueOperation.schemaName := by
    intro e he
    rcases he with - | ⟨-, - | ⟨-, - | ⟨-, - | ⟨-, - | ⟨-, he⟩⟩⟩⟩⟩
    all_goals first | exact ⟨_, rfl, by decide, by decide⟩ | cases he
  refine ⟨fun e he => ⟨fun n hn => ?_, ?_⟩, fun n v hv => ?_, fun e he n hn => ?_⟩
  · obtain ⟨m, hm, hsimple, -⟩ := hnames e he
    obtain rfl := Scalar.text.inj (hm.symm.trans hn)
    exact hsimple
  · revert e
    decide
  · rw [Store.field?_node htable] at hv
    obtain ⟨rfl, -⟩ : "Reply" = n ∧ Value.node 30 = v := by simpa [Entries.get?_cons] using hv
    decide
  · obtain ⟨m, hm, -, hnot⟩ := hnames e he
    obtain rfl := Scalar.text.inj (hm.symm.trans hn)
    refine ⟨?_, fun op hop role heq => hnot (List.mem_cons_of_mem _ ?_)⟩
    · rw [Store.field?_node htable, Entries.get?_eq_none]
      intro hmem
      obtain rfl : m = "Reply" := by simpa [Entries.keys] using hmem
      exact hnot List.mem_cons_self
    · obtain rfl := List.mem_singleton.mp hop
      exact heq ▸ List.mem_map_of_mem (by cases role <;> simp)

/-- In the end, the handle for the request of the operation leads to the empty request of the default catalogue, if it
leads anywhere. -/
theorem exists_normalized_readingValue :
    let start := Store.empty.load readingValue
    ∃ result s', Runs (normalize start.1 none (.object defaultSchemas) false) ⟨start.2, []⟩ result s' ∧
      result.document = start.1 ∧
      result.replacements = [(.text (pointerTo "GetValueRequest"), pointerTo "EmptyRequest")] ∧
      s'.store.Holds (.node 65) (emptySchema .request) ∧ ∀ w, result.Leads s'.store (.node 42) w → w = .node 65 := by
  intro start
  have hnormalize : passes (normalize start.1 none (.object defaultSchemas) false) ⟨start.2, []⟩ (fun result s' =>
      let stand (i : Nat) (entries : Entries Value) := decide (s'.store.entries? (.node i) = some entries)
      decide (result.document = start.1) &&
      (decide (result.replacements = [(.text (pointerTo "GetValueRequest"), pointerTo "EmptyRequest")]) &&
      (stand 42 [("$ref", .text (pointerTo "GetValueRequest"))] &&
      (stand 65 [("type", .text "object"), ("properties", .node 64), ("x-kind", .text "Request")] &&
      (stand 64 [] &&
      decide ((s'.store.resolve start.1 (pointerTo "EmptyRequest")).toOption = some (.node 65))))))) = true := by
    decide +kernel
  obtain ⟨result, s', hrun, hcheck⟩ := exists_runs_of_passes hnormalize
  simp only [Bool.and_eq_true, decide_eq_true_eq] at hcheck
  obtain ⟨hdocument, hreplacements, hhandle, hrequest, hproperties, hresolve⟩ := hcheck
  have hpointer : s'.store.field? (.node 42) referenceKey = some (.text (pointerTo "GetValueRequest")) :=
    Store.field?_node (cell_of_entries? hhandle)
  have hplain : s'.store.field? (.node 65) referenceKey = none := Store.field?_node (cell_of_entries? hrequest)
  refine ⟨result, s', hrun, hdocument, hreplacements,
    holds_emptySchema (cell_of_entries? hrequest) (cell_of_entries? hproperties), fun w hw => ?_⟩
  cases hw with
  | here hnot => simp [Store.isReference_of_field? hpointer] at hnot
  | next hp hq hv h =>
    obtain rfl := Scalar.text.inj (Value.scalar.inj (Option.some.inj (hpointer.symm.trans hp)))
    have hfollow : Replacements.follow [(.text (pointerTo "GetValueRequest"), pointerTo "EmptyRequest")]
        (.text (pointerTo "GetValueRequest")) = .text (pointerTo "EmptyRequest") := by decide
    rw [hreplacements, hfollow] at hq
    obtain rfl := Scalar.text.inj hq
    rw [hdocument] at hv
    obtain rfl := Except.ok.inj ((toOption_eq_some.mp hresolve).symm.trans hv)
    cases h with
    | here => rfl
    | next hp' => simp [hplain] at hp'

/-- The handle for the request of the operation leads in the end to the empty request of the default catalogue. -/
theorem normalize_keeps_meaning_readingValue :
    let start := Store.empty.load readingValue
    readingValue.IsJson ∧ (Tree.object defaultSchemas).IsJson ∧ PlainCatalogue defaultSchemas ∧
      ∃ result s' table t handle w n w',
        Runs (normalize start.1 none (.object defaultSchemas) false) ⟨start.2, []⟩ result s' ∧
        Edit.Runs (openTable start.1) start.2 table start.2 ∧ start.2.operations start.1 = .ok [valueOperation] ∧
        Runs (prepare start.1 none) ⟨start.2, []⟩ table t ∧
        t.store.field? valueOperation.content Role.request.operationKey = some handle ∧
        t.store.dereference result.document handle = .ok w ∧
        result.replacements = [(.text (pointerTo "GetValueRequest"), pointerTo "EmptyRequest")] ∧
        result.Leads s'.store handle w' ∧ s'.store.field? table.schemas (.text n) = some w' ∧
        s'.store.shapeKey w' = t.store.shapeKey w := by
  intro start
  obtain ⟨result, s', hrun, hdocument, hreplacements, -⟩ := exists_normalized_readingValue
  obtain ⟨t, hprepare, hkey, hreference, hend, hstays, -⟩ := exists_prepared_readingValue
  obtain ⟨hplain, hsimple, hspares⟩ := spares_readingValue
  obtain ⟨table, s₁, ops, t', hopen, hops, hprepare', hmeaning⟩ :=
    normalize_keeps_meaning isJson_readingValue isJson_defaultSchemas hplain hrun
  obtain ⟨rfl, rfl⟩ := openTable_readingValue.unique hopen
  obtain rfl := Except.ok.inj (operations_readingValue.symm.trans hops)
  obtain ⟨-, rfl⟩ := hprepare.unique hprepare'
  rw [← hdocument] at hend hstays
  obtain ⟨n, w', hleads, hw', hshape⟩ := hmeaning hsimple hspares _ _ hreference hend hstays
  exact ⟨isJson_readingValue, isJson_defaultSchemas, hplain, result, s', _, t, _, _, n, w', hrun, hopen, hops, hprepare,
    hkey, hend, hreplacements, hleads, hw', hshape⟩

/-- What stands in an object with one entry. -/
theorem eq_of_field?_single {s : Store} {i : Nat} {name : String} {v w : Value} {key : Scalar}
    (hcell : s.cells[i]? = some (.object [(.text name, w)])) (h : s.field? (.node i) key = some v) : v = w := by
  rw [Store.field?_node hcell] at h
  obtain ⟨k, hk⟩ := Entries.exists_mem_of_get? h
  simpa using (Prod.mk.inj (List.mem_singleton.mp hk)).2

theorem regular_readingValue :
    (Store.empty.load readingValue).2.Regular (.node 33) (.node 31) [valueOperation] := by
  generalize hs : (Store.empty.load readingValue).2 = s
  have hreply : s.cells[7]? = some (Cell.object [("$ref", .text (pointerTo "Reply"))]) := hs ▸ rfl
  have hmedia8 : s.cells[8]? = some (Cell.object [("schema", .node 7)]) := hs ▸ rfl
  have hcontent : s.cells[10]? = some (Cell.object [("content", .node 9)]) := hs ▸ rfl
  have htypes : s.cells[9]? = some (Cell.object [("application/json", .node 8)]) := hs ▸ rfl
  have htable : s.cells[31]? = some (Cell.object [("Reply", .node 30)]) := hs ▸ rfl
  have hitems : s.elements (s.declared valueOperation "parameters") = .ok [.node 1, .node 3, .node 5] := hs ▸ rfl
  have hbody : s.declared valueOperation "requestBody" = .null := hs ▸ rfl
  have hsuccess : ((s.responses valueOperation).get? "200").getD .null = .node 10 := hs ▸ rfl
  have hnone : ∀ v ∈ [Value.node 1, .node 3, .node 5, .null, .node 10, .node 30], s.field? v referenceKey = none := by
    rw [← hs]
    decide
  have hcarrier : ∀ v, s.IsCarrier valueOperation v → v = .null ∨ v = .node 10 := by
    rintro v (- | -)
    · exact .inl hbody
    · exact .inr hsuccess
  refine ⟨List.nodup_singleton _, ?_, ?_, ?_, ?_⟩
  · rintro op hop role
    obtain rfl := List.mem_singleton.mp hop
    rw [Store.field?_node htable]
    cases role <;> decide
  · rintro op hop v w p n hv hw hp
    obtain rfl := List.mem_singleton.mp hop
    have hv' : s.field? v referenceKey = none := by
      refine hnone v ?_
      rcases hv with ⟨items, hitems', hmem⟩ | hv
      · obtain rfl := Except.ok.inj (hitems.symm.trans hitems')
        simp only [List.mem_cons, List.not_mem_nil, or_false] at hmem ⊢
        tauto
      · rcases hcarrier v hv with rfl | rfl <;> simp
    rw [hw.eq_of_field?_eq_none hv', hv'] at hp
    cases hp
  · rintro op hop v owner types type media declared p hv howner htypes' hmedia hdeclared hp
    obtain rfl := List.mem_singleton.mp hop
    have hreference : ∀ {v}, s.field? v referenceKey = none → s.dereference (.node 33) v = .ok v := fun hv =>
      Store.dereference_of_not_isReference (by rw [Store.isReference_eq_isSome, hv]; rfl)
    rcases hcarrier v hv with rfl | rfl
    · obtain rfl := Except.ok.inj ((hreference (hnone .null (by simp))).symm.trans howner)
      cases htypes'
    · obtain rfl := Except.ok.inj ((hreference (hnone (.node 10) (by simp))).symm.trans howner)
      obtain rfl : types = .node 9 := eq_of_field?_single hcontent htypes'
      obtain rfl : media = .node 8 := eq_of_field?_single htypes hmedia
      obtain rfl : declared = .node 7 := eq_of_field?_single hmedia8 hdeclared
      obtain rfl : p = pointerTo "Reply" := by simpa using eq_of_field?_single hreply hp
      exact ⟨"Reply", .node 30, rfl, hs ▸ rfl⟩
  · rintro n v p hv hp
    obtain rfl := eq_of_field?_single htable hv
    rw [hnone (.node 30) (by simp)] at hp
    cases hp

/-- The handle of an operation may lead nowhere in a regular document. The request of the operation is like one in the
catalogue, and is folded into that one. The name of this has a slash, which the replacement has as it is, so that it is
no pointer to the schema with the name. -/
theorem handle_leads_nowhere :
    let start := Store.empty.load readingValue
    let catalogue : List (Scalar × Tree) := [("Common/Request", emptySchema .request)]
    readingValue.IsJson ∧ (∀ p ∈ readingValue.pointers, Pointer.Plain p) ∧
      Edit.Runs (openTable start.1) start.2 ⟨.node 31⟩ start.2 ∧
      start.2.operations start.1 = .ok [valueOperation] ∧
      start.2.Regular start.1 (.node 31) [valueOperation] ∧
      start.2.Spares (.node 31) [valueOperation] catalogue ∧
      ∃ result s' handle, Runs (normalize start.1 none (.object catalogue) false) ⟨start.2, []⟩ result s' ∧
        s'.store.field? valueOperation.content Role.request.operationKey = some handle ∧
        (∃ w, s'.store.field? (.node 31) "Common/Request" = some w) ∧
        ¬ ∃ w, result.Leads s'.store handle w := by
  intro start catalogue
  have hspares : start.2.Spares (.node 31) [valueOperation] catalogue := by
    intro e he n hn
    obtain rfl := List.mem_singleton.mp he
    obtain rfl : "Common/Request" = n := by simpa using hn
    refine ⟨by decide, fun op hop role => ?_⟩
    obtain rfl := List.mem_singleton.mp hop
    cases role <;> decide
  have hnormalize : passes (normalize start.1 none (.object catalogue) false) ⟨start.2, []⟩ (fun result s' =>
      let handle := (s'.store.field? valueOperation.content Role.request.operationKey).getD .null
      decide (result.document = start.1) &&
      (decide (s'.store.field? handle referenceKey = some (.text "#/components/schemas/GetValueRequest")) &&
      (decide (result.replacements.follow (.text "#/components/schemas/GetValueRequest") =
        .text "#/components/schemas/Common/Request") &&
      ((s'.store.field? (.node 31) "Common/Request").isSome &&
      (s'.store.resolve start.1 "#/components/schemas/Common/Request").toOption.isNone)))) = true := by decide +kernel
  obtain ⟨result, s', hrun, hcheck⟩ := exists_runs_of_passes hnormalize
  simp only [Bool.and_eq_true, decide_eq_true_eq] at hcheck
  obtain ⟨hdocument, hpointer, hfollow, hentry, hafter⟩ := hcheck
  generalize hhandle : s'.store.field? valueOperation.content Role.request.operationKey = found at hpointer
  cases found with
  | none => cases hpointer
  | some handle =>
    refine ⟨isJson_readingValue, plain_readingValue, openTable_readingValue, operations_readingValue,
      regular_readingValue, hspares, result, s', handle, hrun, hhandle, Option.isSome_iff_exists.mp hentry, ?_⟩
    rintro ⟨w, hleads⟩
    cases hleads with
    | here hnot =>
      simp [Store.isReference_eq_isSome, show s'.store.field? handle referenceKey = _ from hpointer] at hnot
    | next hp hq hv _ =>
      obtain rfl := Scalar.text.inj (Value.scalar.inj (Option.some.inj (hpointer.symm.trans hp)))
      obtain rfl := Scalar.text.inj (hfollow.symm.trans hq)
      rw [hdocument] at hv
      simp [hv, Except.toOption] at hafter

/-! ## Envelopes behind handles -/

/-- **No envelope behind a handle.** Let a JSON document be normalized with a catalogue that has no envelope, and let
the names be as above. A reference that leads right before the folding, from one schema of the table to the next, to a
schema that is tagged for a request or a response then leads in the end to a schema without that envelope, if both
schemas can be read off their shape keys. -/
theorem normalize_leads_to_bare {document : Tree} {E : List (Scalar × Tree)} {names : Option MethodNames} {merge : Bool}
    {log : List Log.Record} {result : Normalized} {s' : Session} (hdocument : document.IsJson)
    (hE : (Tree.object E).IsJson) (hplain : PlainCatalogue E)
    (hbareE : Tree.BareTable (E.map fun e => (e.1, e.2.canonical)))
    (h : Runs (normalize (Store.empty.load document).1 names (.object E) merge)
      ⟨(Store.empty.load document).2, log⟩ result s') :
    let start := Store.empty.load document
    ∃ table s₁ ops t, Edit.Runs (openTable start.1) start.2 table s₁ ∧ s₁.operations start.1 = .ok ops ∧
      Runs (prepare start.1 names) ⟨start.2, log⟩ table t ∧
      (s₁.SimplyNamed table.schemas → s₁.Spares table.schemas ops E →
        ∀ v w x role, t.store.isReference v = true → t.store.dereference result.document v = .ok w →
          t.store.StaysIn result.document table.schemas v → t.store.Holds w (.object x) → role ≠ .path →
          Entries.get? roleKey x = some (.text role.text) →
          ∃ w' x', result.Leads s'.store v w' ∧ s'.store.Holds w' x' ∧
            ((Tree.object x).HasReadableShape → x'.HasReadableShape →
              ∃ schema, x' = .object schema ∧ Tree.Bare role schema)) := by
  intro start
  obtain ⟨D, W, hD, hW, hbare⟩ := exists_bareTable_of_normalize hdocument hE hbareE h
  obtain ⟨table, s₁, ops, t, hopen, hops, hprepare, hreached⟩ := exists_leads hdocument hE hplain h
  refine ⟨table, s₁, ops, t, hopen, hops, hprepare, fun hsimple hspares v w x role hv hw hstays hx hrole htag => ?_⟩
  obtain ⟨root, T, V, n, w', hroot, -, hready, hn, hleads, hkey⟩ := hreached hsimple hspares v w hv hw hstays
  obtain ⟨D', W', hD', hW', hheld⟩ := hready.exists_tree
  rw [hroot] at hD
  obtain rfl := hD.unique hD'
  obtain rfl : W = W' := Tree.object.inj (Option.some.inj (hW.symm.trans hW'))
  obtain ⟨x', hget, hx'⟩ := Store.exists_tree_of_get? hheld hn
  refine ⟨w', x', hleads, hx', fun hreadable hreadable' => ?_⟩
  rw [hx'.shapeKey_eq, hx.shapeKey_eq] at hkey
  -- The two schemas agree, so that they have the same tag.
  obtain ⟨schema, rfl, hschema⟩ := (Tree.agreesWith_of_shapeKey_eq hreadable hreadable' hkey.symm).exists_scalar
    (Entries.mem_of_get? htag) (by decide)
  exact ⟨schema, rfl, hbare _ schema role (Entries.mem_of_get? hget)
    (hx'.isReference_eq.symm.trans hleads.not_isReference) hrole
    (Entries.get?_of_mem hreadable'.exact.1.nodup hschema)⟩

theorem hasReadableShape_emptySchema (role : Role) : (emptySchema role).HasReadableShape where
  exact := by cases role <;> decide
  names := by
    simp only [emptySchema, Tree.ofFields, Tree.requiresNames_object]
    simp
  depth_le := by cases role <;> decide

/-- The handle for the request of the operation leads in the end to a schema without the envelope of requests. -/
theorem normalize_leads_to_bare_readingValue :
    let start := Store.empty.load readingValue
    readingValue.IsJson ∧ (Tree.object defaultSchemas).IsJson ∧ PlainCatalogue defaultSchemas ∧
      Tree.BareTable (defaultSchemas.map fun e => (e.1, e.2.canonical)) ∧
      ∃ result s' table t handle w schema,
        Runs (normalize start.1 none (.object defaultSchemas) false) ⟨start.2, []⟩ result s' ∧
        Runs (prepare start.1 none) ⟨start.2, []⟩ table t ∧
        t.store.field? valueOperation.content Role.request.operationKey = some handle ∧
        result.Leads s'.store handle w ∧ s'.store.Holds w (.object schema) ∧ Tree.Bare .request schema := by
  intro start
  obtain ⟨result, s', hrun, hdocument, -, hlast, honly⟩ := exists_normalized_readingValue
  obtain ⟨t, hprepare, hkey, hreference, hend, hstays, hheld⟩ := exists_prepared_readingValue
  obtain ⟨hplain, hsimple, hspares⟩ := spares_readingValue
  obtain ⟨table, s₁, ops, t', hopen, hops, hprepare', hbare⟩ :=
    normalize_leads_to_bare isJson_readingValue isJson_defaultSchemas hplain bareTable_defaultSchemas hrun
  obtain ⟨rfl, rfl⟩ := openTable_readingValue.unique hopen
  obtain rfl := Except.ok.inj (operations_readingValue.symm.trans hops)
  obtain ⟨-, rfl⟩ := hprepare.unique hprepare'
  rw [← hdocument] at hend hstays
  obtain ⟨w, x, hleads, hx, hreadable⟩ :=
    hbare hsimple hspares _ _ _ .request hreference hend hstays hheld (by decide) rfl
  obtain rfl := honly w hleads
  obtain rfl := hx.unique hlast
  obtain ⟨schema, heq, hschema⟩ :=
    hreadable (hasReadableShape_emptySchema .request) (hasReadableShape_emptySchema .request)
  exact ⟨isJson_readingValue, isJson_defaultSchemas, hplain, bareTable_defaultSchemas, result, s', _, t, _, _, schema,
    hrun, hprepare, hkey, hleads, heq ▸ hlast, hschema⟩

/-- A document in which the table has an alias for a reply that stands outside of the table. -/
def sharedReply : Tree :=
  describing
    [("/value/\x7bnumber\x7d", .ofFields [("get", readOperation ["number"] "#/components/schemas/Reply")])]
    [("schemas", .ofFields [("Reply", .ofFields [("$ref", .text "#/components/shared/Reply")])]),
     ("shared", .ofFields [("Reply", reply)])]

/-- An alias may lead out of the table, to a schema that is tagged and never stripped. So the operation of a
normalized document may refer to a response that has all fields of the envelope. -/
theorem envelope_survives :
    let start := Store.empty.load sharedReply
    ∃ result s', Runs (normalize start.1 none defaultCatalogue false) ⟨start.2, []⟩ result s' ∧
      s'.store.resolve result.document "#/paths/~1value~1\x7bnumber\x7d/get/x-response-schema/$ref" =
        .ok (.text "#/components/schemas/Reply") ∧
      s'.store.resolve result.document "#/components/schemas/Reply/$ref" = .ok (.text "#/components/shared/Reply") ∧
      s'.store.resolve result.document ("#/components/shared/Reply/" ++ roleKey) = .ok (.text Role.response.text) ∧
      ∀ field ∈ Role.response.envelope, ∃ v,
        s'.store.resolve result.document ("#/components/shared/Reply/properties/" ++ field.1) = .ok v := by
  intro start
  have hnormalize : passes (normalize start.1 none defaultCatalogue false) ⟨start.2, []⟩
      (fun result s' =>
        let leadsTo (p text : String) := decide ((s'.store.resolve result.document p).toOption = some (.text text))
        leadsTo "#/paths/~1value~1\x7bnumber\x7d/get/x-response-schema/$ref" "#/components/schemas/Reply" &&
        (leadsTo "#/components/schemas/Reply/$ref" "#/components/shared/Reply" &&
        (leadsTo ("#/components/shared/Reply/" ++ roleKey) Role.response.text &&
        Role.response.envelope.all fun field => (s'.store.resolve result.document
          ("#/components/shared/Reply/properties/" ++ field.1)).toOption.isSome))) = true := by decide +kernel
  obtain ⟨result, s', hrun, hcheck⟩ := exists_runs_of_passes hnormalize
  simp only [Bool.and_eq_true, decide_eq_true_eq, List.all_eq_true] at hcheck
  obtain ⟨hhandle, halias, hrole, hfields⟩ := hcheck
  refine ⟨result, s', hrun, toOption_eq_some.mp hhandle, toOption_eq_some.mp halias, toOption_eq_some.mp hrole,
    fun field hfield => ?_⟩
  obtain ⟨v, hv⟩ := Option.isSome_iff_exists.mp (hfields field hfield)
  exact ⟨v, toOption_eq_some.mp hv⟩

end Procedure

end DeviceApi
