import DeviceApi.Proofs.Normalization.Output
import DeviceApi.Proofs.Schema.Stripped
import DeviceApi.Schema.Catalogue

/-!
# No envelope in a normalized document

The schemas of the table are without their envelopes once these have been removed, and canonical form
and folding leave them so. What folding adds are the schemas of the catalogue.
-/

namespace DeviceApi

/-- A schema without the envelope of its role: no field of the envelope is one of its properties or one of
the names that it requires, and it does not require a list of no names. -/
structure Tree.Bare (role : Role) (schema : List (Scalar × Tree)) : Prop where
  properties : ∃ properties, Entries.get? "properties" schema = some (.object properties) ∧
    ∀ field ∈ role.envelope, Entries.has properties field.1 = false
  required : ∀ t, Entries.get? "required" schema = some t → ∃ names, t = .list names ∧ names ≠ [] ∧
    ∀ field ∈ role.envelope, .text field.1 ∉ names

/-- Every schema of the table that is tagged for a request or a response is without the envelope of its
role, references aside. -/
def Tree.BareTable (table : List (Scalar × Tree)) : Prop :=
  ∀ name schema role, (name, .object schema) ∈ table → Entries.has schema referenceKey = false →
    role ≠ .path → Entries.get? roleKey schema = some (.text role.text) → Tree.Bare role schema

variable {s s' : Store} {v : Value} {role : Role} {n : Nat}

namespace Store

/-- What holds the tree of a bare schema tells so. -/
theorem Bare.tree {values : Entries Value} {schema : List (Scalar × Tree)} (h : s.Bare n role values)
    (hheld : List.Forall₂ s.HoldsEntry values schema) : Tree.Bare role schema where
  properties := by
    obtain ⟨m, properties, hget, -, hcell, hnot⟩ := h.properties
    obtain ⟨t, ht, hholds⟩ := exists_tree_of_get? hheld hget
    obtain ⟨fields, rfl, hfields⟩ := hholds.object_of_shape (shape_node hcell)
    refine ⟨fields, ht, fun field hfield => ?_⟩
    rw [← Entries.has_eq_of_keys_eq (keys_eq_of_holds hfields), ← Bool.not_eq_true, Entries.has_text]
    intro hkey
    have hfalse := hnot _ hkey
    rw [Role.hasEnvelopeField_of_mem hfield] at hfalse
    cases hfalse
  required t ht := by
    obtain ⟨w, hw, hholds⟩ := exists_value_of_get? hheld ht
    obtain ⟨m, items, rfl, -, hcell, hne, hnot⟩ := h.required w hw
    obtain ⟨names, rfl, hnames⟩ := hholds.list_of_cell hcell
    refine ⟨names, rfl, ?_, fun field hfield hmem => ?_⟩
    · rintro rfl
      exact hne (List.forall₂_nil_right_iff.mp hnames)
    · obtain ⟨v, hv, hholds'⟩ := exists_mem_of_forall₂_right hnames hmem
      obtain rfl := holds_scalar.mp hholds'
      have hfalse := hnot _ hv
      rw [Role.hasEnvelopeField_of_mem hfield] at hfalse
      cases hfalse

end Store

namespace Procedure

open Edit

variable {t u s' : Session} {table : SchemaTable} {root T : Nat} {V C kept : Entries Value}
  {E W : List (Scalar × Tree)} {merge : Bool} {state : FoldState} {names : Option MethodNames}
  {log : List Log.Record} {result : Normalized}

/-- Folding leaves a table without envelopes if the catalogue has none. -/
theorem bareTable_of_folded (hready : Ready t.store root T V) (hE : (Tree.object E).IsJson)
    (hbareE : Tree.BareTable (E.map fun e => (e.1, e.2.canonical))) (hn : T < n)
    (hbare : ∀ e ∈ V, t.store.IsBare n e.2) (hload : Runs (loadCatalogue (.object E)) t C u)
    (hfolded : Folded u.store V C V state kept)
    (hheld : List.Forall₂ (u.store.set T (.object (kept.putAll C))).HoldsEntry (kept.putAll C) W) :
    Tree.BareTable W := by
  intro name schema role hmem hown hrole htag
  obtain ⟨hkeys, hadds⟩ := adds_loadCatalogue hload
  have hC : C.TextKeyed := ⟨hkeys ▸ hE.1.exists_text, hkeys ▸ hE.1.nodup⟩
  have hlt : T < t.store.cells.size := Store.lt_size_of_cell hready.cell
  obtain ⟨e, he, -, hholds⟩ := exists_mem_of_forall₂_right hheld hmem
  rcases hfolded.mem_values_putAll hC (List.mem_map_of_mem he) with hold | hnew
  · obtain ⟨e', he', heq⟩ := List.mem_map.mp hold
    obtain ⟨id, hid, hidlt, hidT, -⟩ := hready.schema he'
    have hbare' : (u.store.set T (.object (kept.putAll C))).IsBare n e'.2 := (hbare e' he').of_agree
      (fun x hx => by
        obtain rfl : id = x := by simpa [hid] using hx
        exact hadds.cells_set hidlt hidT) fun i hle hlt => hadds.cells_set hlt (by omega)
    obtain ⟨x, values, hshape, hvalues⟩ := hholds.shape_object
    have htag' : values.get? roleKey = some (.text role.text) := by
      obtain ⟨w, hw, hholds'⟩ := Store.exists_value_of_get? hvalues htag
      exact hw.trans (congrArg some (Store.holds_scalar.mp hholds'))
    refine (hbare' x values role (heq ▸ hshape) ?_ htag' ?_).tree hvalues
    · exact (Store.has_of_holds hvalues).trans hown
    · cases role
      · exact absurd rfl hrole
      · exact List.cons_ne_nil _ _
      · exact List.cons_ne_nil _ _
  · obtain ⟨hloaded, -⟩ := holds_loadCatalogue (Tree.entriesAreJson_iff.mp hE.2) hload
    obtain ⟨e', he', heq⟩ := List.mem_map.mp hnew
    obtain ⟨⟨name', schema'⟩, hmem', -, hholds'⟩ := exists_mem_of_forall₂ hloaded he'
    have hlast : (u.store.set T (.object (kept.putAll C))).Holds e.2 schema' :=
      heq ▸ hholds'.set (hadds.apart hlt (heq ▸ hnew)).not_reaches
    obtain rfl := hlast.unique hholds
    exact hbareE name' schema role hmem' hown hrole htag

/-- A normalized JSON document has no envelope in its table if the catalogue has none. -/
theorem exists_bareTable_of_normalize {document : Tree} (hdocument : document.IsJson)
    (hE : (Tree.object E).IsJson) (hbareE : Tree.BareTable (E.map fun e => (e.1, e.2.canonical)))
    (h : Runs (normalize (Store.empty.load document).1 names (.object E) merge)
      ⟨(Store.empty.load document).2, log⟩ result s') :
    ∃ D W, s'.store.Holds result.document D ∧ D.schemas? = some (.object W) ∧ Tree.BareTable W := by
  obtain ⟨table, t, hprepare, t₁, t₂, hstore₁, hfold, hstore₂, hroot⟩ := runs_normalize h
  obtain ⟨root, c, T, entries, s₁, m, s₂, V, s₃, hnodeRoot, hnode, -, hopened, hvisit, hcell, hnodes, hstrip,
    hcanonicalize⟩ := opened_of_prepare hdocument hprepare
  have hready₂ := hopened.ready hnode hvisit hcell hnodes
  have hready₃ := hready₂.stripEnvelopes hnode hstrip
  have hready₄ := hready₃.canonicalizeTable hnode hcanonicalize
  have hbare₃ := isBare_of_stripEnvelopes hcell hnode (fun e he id hid => by
    obtain ⟨id', hid', hlt, -⟩ := hready₂.schema he
    obtain rfl : id' = id := by simpa [hid'] using hid
    exact hlt) (fun e he _ _ => hready₂.nodup he) hstrip
  have hbare₄ : ∀ e ∈ V, t.store.IsBare s₂.cells.size e.2 := fun e he =>
    (hbare₃ e he).trims (trims_canonicalizeTable hcanonicalize) fun _ _ => hready₃.nodup he
  rw [← hstore₁] at hready₄ hbare₄
  obtain ⟨C, u, state, kept, hload, hfolded, -, hstore⟩ :=
    folded_of_foldSchemas hfold hnode hready₄.cell hready₄.textKeyed hE.1 hready₄.apart
  have hready := ready_of_folded hready₄ hE hload hfolded
  obtain ⟨D, W, hD, hW, hheld⟩ := hready.exists_tree
  refine ⟨D, W, ?_, hW, bareTable_of_folded hready₄ hE hbareE (Store.lt_size_of_cell hcell) hbare₄ hload hfolded hheld⟩
  rw [hroot, hnodeRoot, ← hstore₂, hstore]
  exact hD

/-- The schemas of the default catalogue. -/
def defaultSchemas : List (Scalar × Tree) :=
  match defaultCatalogue with
  | .object entries => entries
  | _ => []

theorem isJson_defaultSchemas : (Tree.object defaultSchemas).IsJson := by decide

/-- The default catalogue has path parameters and empty objects only. -/
theorem bareTable_defaultSchemas :
    Tree.BareTable (defaultSchemas.map fun e => (e.1, e.2.canonical)) := by
  intro name schema role hmem hown hrole htag
  obtain ⟨e, he, heq⟩ := List.mem_map.mp hmem
  obtain rfl : e.1 = name := (Prod.mk.inj heq).1
  have hschema : e.2.canonical = .object schema := (Prod.mk.inj heq).2
  have hcases : (∃ entries, e.2.canonical = .object entries ∧
      Entries.get? roleKey entries = some (.text Role.path.text)) ∨
        ∃ role, e.2.canonical = emptySchema role := by
    rcases he with - | ⟨-, - | ⟨-, - | ⟨-, - | ⟨-, - | ⟨-, he⟩⟩⟩⟩⟩
    · exact .inl ⟨_, rfl, rfl⟩
    · exact .inl ⟨_, rfl, rfl⟩
    · exact .inr ⟨.path, rfl⟩
    · exact .inr ⟨.request, rfl⟩
    · exact .inr ⟨.response, rfl⟩
    · cases he
  rcases hcases with ⟨entries, hentries, hpath⟩ | ⟨role', hempty⟩
  · obtain rfl : schema = entries := Tree.object.inj (hschema.symm.trans hentries)
    rw [hpath] at htag
    exact absurd (Role.text_injective (by simpa using htag.symm)) hrole
  · obtain rfl := Tree.object.inj (hschema.symm.trans hempty)
    exact ⟨⟨[], rfl, by simp [Entries.has]⟩, fun t ht => by cases role' <;> cases ht⟩

/-- **Normalization leaves no envelope.** Let a JSON document be normalized with the default catalogue. The
document holds a tree in the end, and no schema of its table that is tagged for a request or a response has
a field of that envelope among its properties or its required names, references aside. -/
theorem normalize_leaves_no_envelope {document : Tree} (hdocument : document.IsJson)
    (h : Runs (normalize (Store.empty.load document).1 names defaultCatalogue merge)
      ⟨(Store.empty.load document).2, log⟩ result s') :
    ∃ D W, s'.store.Holds result.document D ∧ D.schemas? = some (.object W) ∧ Tree.BareTable W :=
  exists_bareTable_of_normalize hdocument isJson_defaultSchemas bareTable_defaultSchemas h

theorem normalize_leaves_no_envelope_reply :
    let document := describing
      [("/value/\x7bnumber\x7d", .ofFields [("get", readOperation ["number"] "#/components/schemas/Reply")])]
      [("schemas", .ofFields [("Reply", reply)])]
    let start := Store.empty.load document
    document.IsJson ∧ ∃ result s',
      Runs (normalize start.1 none defaultCatalogue true) ⟨start.2, []⟩ result s' ∧
      ∃ D W, s'.store.Holds result.document D ∧ D.schemas? = some (.object W) ∧ Tree.BareTable W := by
  intro document start
  have hjson : document.IsJson := by decide
  have hanswer : ((normalize start.1 none defaultCatalogue true).runOn ⟨start.2, []⟩).1.toOption.map
      (fun result => result.replacements.length) = some 1 := by decide +kernel
  obtain ⟨result, s', hrun, -⟩ := exists_runs hanswer
  exact ⟨hjson, result, s', hrun, normalize_leaves_no_envelope hjson hrun⟩

/-! ## Shared nodes -/

/-- A document in which the two schemas of the table are equal. -/
def pairedReplies : Tree :=
  describing
    [("/value/\x7bnumber\x7d", .ofFields [("get", readOperation ["number"] "#/components/schemas/First")])]
    [("schemas", .ofFields [("First", reply), ("Second", reply)])]

/-- Two nodes may hold equal trees, and one node may stand in both places. A document with a reply under two names
is normalized if each name has a reply of its own, and refused if the names share one: the envelope that has been
removed at the first name is missing at the second. -/
theorem sharing_observed :
    let copied := Store.empty.load pairedReplies
    let table (second : Nat) : Cell := .object [("First", .node 30), ("Second", .node second)]
    let shared := copied.2.set 39 (table 30)
    copied.2.cells[39]? = some (table 38) ∧
      copied.2.Holds copied.1 pairedReplies ∧ shared.Holds copied.1 pairedReplies ∧
      (∃ result s', Runs (normalize copied.1 none defaultCatalogue true) ⟨copied.2, []⟩ result s') ∧
      ∀ result s', ¬ Runs (normalize copied.1 none defaultCatalogue true) ⟨shared, []⟩ result s' := by
  intro copied table shared
  have hcell : copied.2.cells[39]? = some (table 38) := rfl
  have hcopied : copied.2.Holds copied.1 pairedReplies := Store.holds_load (by decide +kernel) _
  obtain ⟨_, hcomponents, hheld⟩ := hcopied.field rfl (show Entries.get? "components" _ = some (Value.node 40) from rfl)
  obtain rfl := Option.some.inj hcomponents
  obtain ⟨_, hschemas, hheld⟩ := hheld.field rfl (show Entries.get? "schemas" _ = some (Value.node 39) from rfl)
  obtain rfl := Option.some.inj hschemas
  obtain ⟨_, hfirst, hreply⟩ := hheld.field rfl (show Entries.get? "First" _ = some (Value.node 30) from rfl)
  obtain rfl := Option.some.inj hfirst
  have hreply' : shared.Holds (.node 30) reply := hreply.set (hheld.not_reaches_of_part hcell (.head _))
  have hshared : shared.Holds copied.1 pairedReplies :=
    hcopied.replace (fun i hi => by rw [Store.cells_set, if_neg fun h => hi h.1]) hheld
      (Store.holds_object.mpr ⟨39, _, rfl, rfl, .cons ⟨rfl, hreply'⟩ (.cons ⟨rfl, hreply'⟩ .nil)⟩)
  have hnormalized : passes (normalize copied.1 none defaultCatalogue true) ⟨copied.2, []⟩ (fun _ _ => true) = true := by
    decide +kernel
  have hrefused : passes (normalize copied.1 none defaultCatalogue true) ⟨shared, []⟩ (fun _ _ => true) = false := by
    decide +kernel
  obtain ⟨result, s', hrun, -⟩ := exists_runs_of_passes hnormalized
  refine ⟨hcell, hcopied, hshared, ⟨result, s', hrun⟩, fun result s' h => ?_⟩
  rw [Runs] at h
  simp [passes, h] at hrefused
end Procedure

end DeviceApi
