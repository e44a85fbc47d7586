import DeviceApi.Proofs.Normalization.Stages

/-!
# The normalized document

Folding adds the nodes of the catalogue and changes the table alone. So the normalized document is as
sound as it was before: its table stands behind its gates, and the document holds a tree.
-/

namespace DeviceApi

/-- The table of schemas in the tree of a document. -/
def Tree.schemas? (document : Tree) : Option Tree :=
  (document.field? "components").bind (Tree.field? "schemas")

variable {s s' : Store} {K : Set Nat} {root : Nat} {gates : Set Gate} {t : Tree}

/-- A JSON tree that is loaded has no cycle below it. -/
theorem View.Sound.load (h : View.Sound ⟨s, K⟩) (hlt : ∀ i ∈ K, i < s.cells.size) (ht : t.IsJson) :
    View.Sound ⟨(s.load t).2, K ∪ {i | (s.load t).2.Reaches (s.load t).1 i}⟩ where
  exists_holds_node := by
    rintro i (hi | hi)
    · exact (h.grow (Store.loads_load t s).toGrows).exists_holds_node i hi
    · obtain ⟨u, hu, -⟩ := (Store.holds_load ht s).of_reaches hi
      exact ⟨u, hu⟩
  nodup := by
    rintro i entries (hi | hi) hcell
    · exact h.nodup i entries hi (((Store.loads_load t s).agree i (hlt i hi)).symm.trans hcell)
    · exact Store.keyedOn_of_isJson (Store.holds_load ht s) ht i entries hi hcell

/-- A document that is ready for folding holds a tree, and its table the schemas of that tree. -/
theorem Edit.Ready.exists_tree {T : Nat} {V : Entries Value} (h : Ready s root T V) :
    ∃ D W, s.Holds (.node root) D ∧ D.schemas? = some (.object W) ∧ List.Forall₂ s.HoldsEntry V W := by
  obtain ⟨c, K, hgated, hsound⟩ := h.exists_gated
  obtain ⟨D, hD⟩ := hsound.exists_holds_node root hgated.root_known
  obtain ⟨entries, inner, hpath⟩ := tablePath_of_gated hgated h.cell
  obtain ⟨components, hcomponents, hinner⟩ := hD.field hpath.root_cell hpath.components_get
  obtain ⟨schemas, hschemas, hT⟩ := hinner.field hpath.components_cell hpath.schemas_get
  obtain ⟨W, rfl, hW⟩ := hT.object_of_shape (Store.shape_node h.cell)
  exact ⟨D, W, hD, by simp [Tree.schemas?, hcomponents, hschemas], hW⟩

namespace Procedure

open Edit

variable {t t' u : Session} {table : SchemaTable} {T : Nat} {V C kept : Entries Value}
  {E : List (Scalar × Tree)} {merge : Bool} {state : FoldState} {replacements : Replacements}
  {duplicates : List DuplicateShape}

/-- Loading a catalogue adds schemas that may stand anywhere. -/
theorem gated_loadCatalogue (hpassage : Passage root gates)
    (hgated : View.Gated root gates ⟨t.store, K⟩) (hsound : View.Sound ⟨t.store, K⟩)
    (hE : ∀ e ∈ E, e.2.IsJson) (h : Runs (loadCatalogue (.object E)) t C u) :
    ∃ K', K ⊆ K' ∧ View.Gated root gates ⟨u.store, K'⟩ ∧ View.Sound ⟨u.store, K'⟩ ∧
      ∀ v ∈ C.values, View.Free root gates ⟨u.store, K'⟩ v := by
  unfold loadCatalogue at h
  induction E generalizing t C K with
  | nil =>
    obtain ⟨rfl, rfl⟩ := runs_pure.mp h
    exact ⟨K, subset_rfl, hgated, hsound, by simp [Entries.values]⟩
  | cons e rest ih =>
    obtain ⟨first, t₁, hfirst, schemas, hrest, rfl⟩ := runs_mapM_cons.mp h
    simp only [runs_bind, runs_monadLift, runs_loadTree, runs_pure] at hfirst
    obtain ⟨node, _, ⟨_, ⟨rfl, rfl⟩, rfl⟩, _, _, ⟨store, hcanonical, rfl⟩, rfl, rfl⟩ := hfirst
    obtain ⟨hgated₁, hfree⟩ := hgated.load e.2
    have hsound₁ := hsound.load hgated.lt (hE e List.mem_cons_self)
    have htrims := trims_canonicalize hcanonical
    obtain ⟨K', hsub, hgated', hsound', hothers⟩ := ih
      (hgated₁.trims hpassage htrims fun i hi => hgated₁.free_of_reaches hpassage hfree hi)
      (hsound₁.trims htrims) (fun e he => hE e (List.mem_cons_of_mem _ he)) hrest
    refine ⟨K', Set.subset_union_left.trans hsub, hgated', hsound', ?_⟩
    rintro v (- | ⟨-, hv⟩)
    · exact hfree.mono hsub
    · exact hothers v hv

/-- Once its table has been folded, a document is ready for being folded again. -/
theorem ready_of_folded (hready : Ready t.store root T V) (hE : (Tree.object E).IsJson)
    (hload : Runs (loadCatalogue (.object E)) t C u) (hfolded : Folded u.store V C V state kept) :
    Ready (u.store.set T (.object (kept.putAll C))) root T (kept.putAll C) := by
  obtain ⟨c, K, hgated, hsound⟩ := hready.exists_gated
  obtain ⟨hkeys, hadds⟩ := adds_loadCatalogue hload
  have hC : C.TextKeyed := ⟨hkeys ▸ hE.1.exists_text, hkeys ▸ hE.1.nodup⟩
  have hlt : T < t.store.cells.size := Store.lt_size_of_cell hready.cell
  have hcell : u.store.cells[T]? = some (.object V) := (hadds.agree T hlt).trans hready.cell
  obtain ⟨K', hsub, hgated', hsound', hfreeC⟩ := gated_loadCatalogue passage_tableGates hgated hsound
    (Tree.entriesAreJson_iff.mp hE.2) hload
  have howner := owner_ne_of_tableGates hgated'
  have hgate : (⟨c, "schemas", T⟩ : Gate) ∈ tableGates root c T := .inr rfl
  have hfree : ∀ w ∈ (kept.putAll C).values, View.Free root (tableGates root c T) ⟨u.store, K'⟩ w := by
    intro w hw
    exact (hfolded.mem_values_putAll hC hw).elim (free_of_mem_values hgated' hcell) (hfreeC w)
  refine ⟨hfolded.textKeyed.putAll hC.exists_text, ?_, ?_, c, K',
    hgated'.set hcell (fun e he => .inr (hfree e.2 (List.mem_map_of_mem he))) fun g hg hg' =>
      absurd hg' (howner g hg),
    hsound'.set hcell (fun e he => .inr ⟨(hfree e.2 (List.mem_map_of_mem he)).linked, fun hreach => ?_⟩)
      (hfolded.textKeyed.putAll hC.exists_text).nodup⟩
  · rintro e he a ha
    rcases hfolded.mem_values_putAll hC (List.mem_map_of_mem he) with hmem | hmem
    · obtain ⟨e', he', heq⟩ := List.mem_map.mp hmem
      exact hready.nodes e' he' a (heq.trans ha)
    · obtain ⟨hheld, hobjects⟩ := holds_loadCatalogue (Tree.entriesAreJson_iff.mp hE.2) hload
      obtain ⟨e', he', heq⟩ := List.mem_map.mp hmem
      obtain ⟨_, hu, -, hholds⟩ := exists_mem_of_forall₂ hheld he'
      obtain ⟨schema, hschema, rfl⟩ := List.mem_map.mp hu
      obtain ⟨entries, hentries⟩ := hobjects schema hschema
      obtain ⟨entries', hentries'⟩ := @Tree.exists_canonical_object entries
      rw [heq, ha] at hholds
      rw [hentries, hentries'] at hholds
      simp [Store.holds_object] at hholds
  · rw [Store.cells_set, if_pos ⟨rfl, hlt.trans_le hadds.size_le⟩]
  · exact (hgated'.free_of_reaches passage_tableGates (hfree e.2 (List.mem_map_of_mem he)) hreach T
      rfl).2.2 _ hgate rfl

/-! ## Small documents -/

/-- An operation that is read by address: it has numbers as parameters in its path, and a reference to the
schema of its response. -/
def readOperation (pathParameters : List String) (response : String) : Tree :=
  let parameter (location name : String) : Tree :=
    .ofFields [("name", .text name), ("in", .text location), ("schema", integerShape "uint32")]
  let error : Tree :=
    .ofFields [("content", .ofFields [("text/plain", .ofFields [("schema", textShape)])])]
  let success : Tree := .ofFields [("content", .ofFields [("application/json",
    .ofFields [("schema", .ofFields [("$ref", .text response)])])])]
  .ofFields
    [("parameters", .list (pathParameters.map (parameter "path") ++
       Role.request.envelope.map fun field => parameter "query" field.1)),
     ("responses", .ofFields [("200", success), ("400", error), ("500", error)])]

/-- A document with given paths and components. -/
def describing (paths components : List (String × Tree)) : Tree :=
  .ofFields [("paths", .ofFields paths), ("components", .ofFields components)]

/-- The schema of a reply: the envelope, all of it required, and a value. -/
def reply : Tree :=
  .ofFields
    [("type", .text "object"),
     ("properties", .ofFields (Role.response.envelope ++ [("Value", integerShape "int32")])),
     ("required", .list (Role.response.envelope.map fun field => .text field.1))]

end Procedure

end DeviceApi
