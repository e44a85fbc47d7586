import DeviceApi.Proofs.Normalization.Output
import DeviceApi.Proofs.Schema.Repeated
import DeviceApi.Proofs.Schema.Settled

/-!
# Normalizing once more

The last two stages of normalization find nothing to do in a document that has been normalized. Its
schemas are in canonical form, and none that is left has the shape of one of the catalogue. So bringing
the table into canonical form and folding it once more leaves the document as it is.
-/

namespace DeviceApi

namespace Procedure

open Edit

/-- Brings the table of a document into canonical form and folds it. -/
def refold (document : Value) (catalogue : Tree) (merge : Bool) :
    Procedure (Replacements × List DuplicateShape) := do
  let table ← openTable document
  ofEdit (canonicalizeTable table)
  foldSchemas table catalogue merge

variable {s s' t t' u u' : Session} {table : SchemaTable} {root T : Nat} {V C C' W kept : Entries Value}
  {shapes : Entries Scalar} {E Wt Ct : List (Scalar × Tree)} {merge : Bool} {state : FoldState}
  {names : Option MethodNames} {log : List Log.Record} {result : Normalized} {e : Scalar × Value} {x : Tree}

section

variable (hready : Ready t.store root T V) (hE : (Tree.object E).IsJson)
  (hload : Runs (loadCatalogue (.object E)) t C u) (hfolded : Folded u.store V C V state kept)
include hready hE hload hfolded

/-- The schemas of a table that has been folded hold what they held when the catalogue was loaded. -/
theorem exists_holds_of_folded (he : e ∈ kept.putAll C) :
    ∃ x, u.store.Holds e.2 x ∧ (u.store.set T (.object (kept.putAll C))).Holds e.2 x := by
  obtain ⟨hkeys, hadds⟩ := adds_loadCatalogue hload
  have hC : C.TextKeyed := ⟨hkeys ▸ hE.1.exists_text, hkeys ▸ hE.1.nodup⟩
  rcases hfolded.mem_values_putAll hC (List.mem_map_of_mem he) with hold | hnew
  · obtain ⟨e', he', heq⟩ := List.mem_map.mp hold
    obtain ⟨x, hx⟩ := (hready.proper he').exists_holds
    rw [heq] at hx
    have hx' := hx.extend hadds.toGrows
    exact ⟨x, hx', hx'.set ((hready.apart _ hold).grow hadds.toGrows).not_reaches⟩
  · obtain ⟨x, hx⟩ := hadds.exists_holds e.2 hnew
    exact ⟨x, hx, hx.set (hadds.apart (Store.lt_size_of_cell hready.cell) hnew).not_reaches⟩

/-- The schemas of a table that has been folded are settled if they were settled before. -/
theorem settled_of_folded (hsettled : ∀ e ∈ V, t.store.Settled e.2) :
    ∀ e ∈ kept.putAll C, (u.store.set T (.object (kept.putAll C))).Settled e.2 := by
  intro e he
  obtain ⟨hkeys, hadds⟩ := adds_loadCatalogue hload
  have hC : C.TextKeyed := ⟨hkeys ▸ hE.1.exists_text, hkeys ▸ hE.1.nodup⟩
  obtain ⟨x, hx, hx'⟩ := exists_holds_of_folded hready hE hload hfolded he
  refine Store.Settled.of_holds ?_ hx hx'
  rcases hfolded.mem_values_putAll hC (List.mem_map_of_mem he) with hold | hnew
  · obtain ⟨e', he', heq⟩ := List.mem_map.mp hold
    obtain ⟨y, hy⟩ := (hready.proper he').exists_holds
    have hsettled' := (hsettled e' he').of_holds hy (hy.extend hadds.toGrows)
    rwa [heq] at hsettled'
  · exact settled_of_loadCatalogue (Tree.entriesAreJson_iff.mp hE.2) hload e.2 hnew

end

/-- Schemas that hold the same trees remain alike. -/
theorem remains_of_holds (hC : C'.has e.1 = C.has e.1) (h : u.store.Holds e.2 x) (h' : u'.store.Holds e.2 x)
    (hremains : Remains u.store C shapes e) : Remains u'.store C' shapes e := by
  rw [Remains, hC, h'.isReference_eq, ← h.isReference_eq, h'.shapeKey_eq, ← h.shapeKey_eq]
  exact hremains

theorem countedShape_of_holds (hC : C'.has e.1 = C.has e.1) (h : u.store.Holds e.2 x)
    (h' : u'.store.Holds e.2 x) : countedShape u'.store C' shapes e = countedShape u.store C shapes e := by
  rw [countedShape, countedShape, hC, h'.isReference_eq, ← h.isReference_eq, h'.shapeKey_eq, ← h.shapeKey_eq]

section

variable (hC : C.TextKeyed) (hkeys : C'.keys = C.keys) (hkept : kept.TextKeyed)
  (hlike : ∀ e ∈ kept.putAll C, ∃ x, u.store.Holds e.2 x ∧ u'.store.Holds e.2 x)
include hC hkeys hkept hlike

/-- Under names that are not of the catalogue, the table has what was kept, and it is as it was. -/
theorem exists_holds_of_kept (he : e ∈ kept) (hnot : C.has e.1 = false) :
    C'.has e.1 = C.has e.1 ∧ ∃ x, u.store.Holds e.2 x ∧ u'.store.Holds e.2 x := by
  obtain ⟨n, hn⟩ := hkept.exists_text e.1 (List.mem_map_of_mem he)
  have hmem : e ∈ kept.putAll C := by
    obtain ⟨name, v⟩ := e
    obtain rfl : name = .text n := hn
    refine Entries.mem_of_get? ?_
    rw [Entries.get?_putAll hC, Entries.has_eq_false.mp hnot, Option.none_or]
    exact Entries.get?_of_mem hkept.nodup he
  exact ⟨by rw [hn, Entries.has_eq_of_keys_eq hkeys], hlike e hmem⟩

/-- After folding, all schemas of the table remain. -/
theorem remains_of_tallied (htallied : Tallied u.store C shapes merge V kept state) :
    ∀ e ∈ kept.putAll C, Remains u'.store C' shapes e := by
  intro e he
  obtain ⟨n, hn⟩ := (hkept.putAll hC.exists_text).exists_text e.1 (List.mem_map_of_mem he)
  have hhas : C'.has e.1 = C.has e.1 := by rw [hn, Entries.has_eq_of_keys_eq hkeys]
  cases hname : C.has e.1 with
  | true => exact .inl (.inl (hhas.trans hname))
  | false =>
    obtain ⟨x, hx, hx'⟩ := hlike e he
    exact remains_of_holds hhas hx hx'
      (htallied.remains e (Entries.mem_of_mem_putAll hkept hC he hname))

/-- The shapes that are counted in the folded table are those that were kept. -/
theorem filterMap_countedShape : (kept.putAll C).filterMap (countedShape u'.store C' shapes) =
    kept.filterMap (countedShape u.store C shapes) := by
  rw [Entries.filterMap_putAll hC.exists_text fun key hkey v => ?_]
  · refine List.filterMap_congr fun e he => ?_
    cases hname : C.has e.1 with
    | true =>
      obtain ⟨n, hn⟩ := hkept.exists_text e.1 (List.mem_map_of_mem he)
      have hname' : C'.has e.1 = true := by
        rw [hn, Entries.has_eq_of_keys_eq hkeys, ← hn, hname]
      rw [countedShape_of_skip (.inl hname), countedShape_of_skip (.inl hname')]
    | false =>
      obtain ⟨hhas, x, hx, hx'⟩ := exists_holds_of_kept hC hkeys hkept hlike he hname
      exact countedShape_of_holds hhas hx hx'
  · obtain ⟨n, rfl⟩ := hC.exists_text key hkey
    refine countedShape_of_skip (.inl ?_)
    rw [Entries.has_text, hkeys]
    exact hkey

end

/-- Putting a catalogue over a table that has it already changes no tree. -/
theorem holds_putAll_again {s : Store} {D : Tree} (hcell : s.cells[T]? = some (.object W))
    (hW : List.Forall₂ s.HoldsEntry W Wt) (hT : s.Holds (.node T) (.object Wt))
    (hC' : List.Forall₂ s.HoldsEntry C' Ct) (hCt : Entries.TextKeyed Ct)
    (happly : ∀ n x, Entries.get? (.text n) Ct = some x → Entries.get? (.text n) Wt = some x)
    (hapart : ∀ v ∈ W.values ++ C'.values, ¬ s.Reaches v T) {v : Value} (hv : s.Holds v D) :
    (s.set T (.object (W.putAll C'))).Holds v D := by
  have hlt := Store.lt_size_of_cell hcell
  have hput := Store.holds_putAll hW hC'
  rw [Entries.putAll_of_get? hCt happly] at hput
  refine hv.replace (fun i hi => by rw [Store.cells_set, if_neg fun h => hi h.1]) hT ?_
  refine Store.holds_object.mpr ⟨T, _, rfl, by rw [Store.cells_set, if_pos ⟨rfl, hlt⟩], ?_⟩
  refine forall₂_imp_of_mem (fun e he y _ hey => ⟨hey.1, hey.2.set (hapart e.2 ?_)⟩) hput
  rcases Entries.mem_or_of_mem_putAll he with hold | hnew
  · exact List.mem_append_left _ (List.mem_map_of_mem hold)
  · exact List.mem_append_right _ hnew

/-- A document whose table has been folded is left as it is by the same once more. -/
theorem exists_runs_refold {replacements : Replacements} {duplicates : List DuplicateShape}
    (hready : Ready t.store root T V) (hnode : table.schemas = .node T)
    (hsettled : ∀ e ∈ V, t.store.Settled e.2) (hE : (Tree.object E).IsJson)
    (hfold : Runs (foldSchemas table (.object E) merge) t (replacements, duplicates) t')
    (hstore : s.store = t'.store) :
    ∃ D s', s.store.Holds (.node root) D ∧
      Runs (refold (.node root) (.object E) merge) s ([], if merge then [] else duplicates) s' ∧
      s'.store.Holds (.node root) D := by
  obtain ⟨C, u, shapes, state, kept, hload, hshapes, hfolded, htallied, -, hduplicates, hlast⟩ :=
    tallied_of_foldSchemas hfold hnode hready.cell hready.textKeyed hE.1 hready.apart
  rw [hlast] at hstore
  obtain ⟨hkeysC, hadds⟩ := adds_loadCatalogue hload
  have hC : C.TextKeyed := ⟨hkeysC ▸ hE.1.exists_text, hkeysC ▸ hE.1.nodup⟩
  have hready' := ready_of_folded hready hE hload hfolded
  have hsettled' := settled_of_folded hready hE hload hfolded hsettled
  rw [← hstore] at hready' hsettled'
  obtain ⟨D, Wt, hD, -, hWt⟩ := hready'.exists_tree
  -- The table is opened and brought into canonical form; no tree changes.
  obtain ⟨c, K, hgated, -⟩ := hready'.exists_gated
  obtain ⟨entries, inner, hpath⟩ := tablePath_of_gated hgated hready'.cell
  have hagainNode : (SchemaTable.mk (.node T)).schemas = .node T := rfl
  obtain ⟨s₁, hcanon, hsame⟩ := hready'.exists_runs_canonicalizeTable hagainNode hsettled'
  have hready₁ := hready'.canonicalizeTable hagainNode hcanon
  -- The catalogue is loaded and searched as before.
  obtain ⟨C', u', hload'⟩ := exists_runs_loadCatalogue (Tree.entriesAreJson_iff.mp hE.2) hload
    (u := { s with store := s₁ })
  obtain ⟨hkeysC', hadds'⟩ := adds_loadCatalogue hload'
  obtain ⟨hheldC, -⟩ := holds_loadCatalogue (Tree.entriesAreJson_iff.mp hE.2) hload
  obtain ⟨hheldC', -⟩ := holds_loadCatalogue (Tree.entriesAreJson_iff.mp hE.2) hload'
  have hkeys : C'.keys = C.keys := hkeysC'.trans hkeysC.symm
  have hsame' : ∀ v x, s.store.Holds v x → u'.store.Holds v x := fun v x hv =>
    (hsame v x hv).extend hadds'.toGrows
  have hlike : ∀ e ∈ kept.putAll C, ∃ x, u.store.Holds e.2 x ∧ u'.store.Holds e.2 x := by
    intro e he
    obtain ⟨x, hx, hx'⟩ := exists_holds_of_folded hready hE hload hfolded he
    exact ⟨x, hx, hsame' e.2 x (hstore ▸ hx')⟩
  have hlt : T < s₁.cells.size := Store.lt_size_of_cell hready₁.cell
  have hcell' : u'.store.cells[T]? = some (.object (kept.putAll C)) :=
    (hadds'.agree T hlt).trans hready₁.cell
  have hremains : ∀ e ∈ kept.putAll C, Remains u'.store C' shapes e :=
    remains_of_tallied hC hkeys hfolded.textKeyed hlike htallied
  have hfilter : (kept.putAll C).filterMap (countedShape u'.store C' shapes) =
      kept.filterMap (countedShape u.store C shapes) :=
    filterMap_countedShape hC hkeys hfolded.textKeyed hlike
  obtain ⟨s', hagain, hlast'⟩ := exists_runs_foldSchemas hagainNode hready₁.textKeyed hload'
    (runs_catalogueShapes_of_holds hheldC hheldC' hshapes) hcell' hremains
    fun hmerge => hfilter ▸ htallied.merged hmerge
  have hanswer : (ShapeCounts.tally ((kept.putAll C).filterMap (countedShape u'.store C' shapes))).duplicates =
      if merge then [] else duplicates := by
    rw [hfilter]
    cases hmerge : merge with
    | true => exact ShapeCounts.duplicates_tally_of_nodup (htallied.merged hmerge)
    | false =>
      rw [htallied.unmerged hmerge, ← htallied.counts]
      exact hduplicates
  refine ⟨D, s', hD, ?_, ?_⟩
  · rw [← hanswer]
    refine runs_bind.mpr ⟨⟨.node T⟩, s, runs_monadLift.mpr ⟨s.store, hpath.runs_openTable, rfl⟩,
      runs_bind.mpr ⟨(), { s with store := s₁ }, runs_ofEdit.mpr ⟨s₁, hcanon, rfl⟩, hagain⟩⟩
  · rw [hlast']
    have hWt' : List.Forall₂ u'.store.HoldsEntry (kept.putAll C) Wt :=
      forall₂_imp_of_mem (fun e _ y _ hey => ⟨hey.1, hsame' e.2 y.2 hey.2⟩) hWt
    have hkeysCt : Entries.keys (E.map fun e => (e.1, e.2.canonical)) = Entries.keys E := by
      simp [Entries.keys, Function.comp_def]
    have hCt : Entries.TextKeyed (E.map fun e => (e.1, e.2.canonical)) :=
      ⟨hkeysCt ▸ hE.1.exists_text, hkeysCt ▸ hE.1.nodup⟩
    refine holds_putAll_again hcell' hWt' (Store.holds_object.mpr ⟨T, _, rfl, hcell', hWt'⟩) hheldC' hCt
      (fun n x hx => ?_) (fun v hv => ?_) (hsame' _ _ hD)
    · obtain ⟨v, hv, hvx⟩ := Store.exists_value_of_get? hheldC hx
      have hv' : (kept.putAll C).get? (.text n) = some v := by
        rw [Entries.get?_putAll hC, hv, Option.some_or]
      obtain ⟨y, hy, hvy⟩ := Store.exists_tree_of_get? hWt' hv'
      obtain ⟨z, hvz, hvz'⟩ := hlike (.text n, v) (Entries.mem_of_get? hv')
      rw [hy, hvy.unique hvz', hvz.unique hvx]
    · rcases List.mem_append.mp hv with hold | hnew
      · exact ((hready₁.apart v hold).grow hadds'.toGrows).not_reaches
      · exact (hadds'.apart hlt hnew).not_reaches

/-- **Normalizing once more.** Let a JSON document be normalized. The document holds a tree in the end.
Bringing its table into canonical form and folding it with the same catalogue leaves the document
holding that tree, replaces nothing, and reports the duplicates that were reported, or none if they were
folded. -/
theorem normalize_refold {document : Tree} (hdocument : document.IsJson) (hE : (Tree.object E).IsJson)
    (h : Runs (normalize (Store.empty.load document).1 names (.object E) merge)
      ⟨(Store.empty.load document).2, log⟩ result s) :
    ∃ D s', s.store.Holds result.document D ∧
      Runs (refold result.document (.object E) merge) s ([], if merge then [] else result.duplicates) s' ∧
      s'.store.Holds result.document D := by
  obtain ⟨table, t, hprepare, t₁, t₂, hstore₁, hfold, hstore₂, hroot⟩ := runs_normalize h
  obtain ⟨root, T, V, before, hnodeRoot, hnode, hready, hcanonicalize⟩ :=
    canonicalized_of_prepare hdocument hprepare
  rw [← hstore₁] at hcanonicalize
  rw [hroot, hnodeRoot]
  exact exists_runs_refold (hready.canonicalizeTable hnode hcanonicalize) hnode
    (hready.settled_of_canonicalizeTable hnode hcanonicalize) hE hfold hstore₂.symm

theorem normalize_refold_sharedShapes :
    let document := describing [] [("schemas", .ofFields sharedShapes)]
    let E : List (Scalar × Tree) := [("Number", .ofFields [("type", .text "integer")])]
    let start := Store.empty.load document
    document.IsJson ∧ (Tree.object E).IsJson ∧ ∃ result s,
      Runs (normalize start.1 none (.object E) false) ⟨start.2, []⟩ result s ∧
      result.duplicates.length = 1 ∧
      ∃ D s', s.store.Holds result.document D ∧
        Runs (refold result.document (.object E) false) s ([], result.duplicates) s' ∧
        s'.store.Holds result.document D := by
  intro document E start
  have hjson : document.IsJson := by decide
  have hE : (Tree.object E).IsJson := by decide
  have hanswer : ((normalize start.1 none (.object E) false).runOn ⟨start.2, []⟩).1.toOption.map
      (fun result => result.duplicates.length) = some 1 := by decide +kernel
  obtain ⟨result, s, hrun, hlength⟩ := exists_runs hanswer
  exact ⟨hjson, hE, result, s, hrun, hlength, normalize_refold hjson hE hrun⟩

end Procedure

end DeviceApi
