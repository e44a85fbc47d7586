import DeviceApi.Proofs.Document.Pointers
import DeviceApi.Proofs.Normalization.Stages

/-!
# Pointers after normalization

Folding removes schemas from the table and puts the catalogue over the rest. A pointer that led
somewhere before is first replaced if it is the pointer to a schema that was removed. Whether it
still leads somewhere can be told from its steps: only a pointer that goes through the name of a
removed schema, or into a schema of the catalogue, may have lost its end.
-/

namespace DeviceApi

/-- What decides whether a pointer leads somewhere once the schemas of a document have been folded
with a catalogue. -/
def Survives (before : Store) (document : Value) (catalogue : List (Scalar × Tree))
    (replacements : Replacements) (pointer : String) : Prop :=
  match Pointer.steps? pointer with
  | some ("components" :: "schemas" :: name :: rest) =>
    match Entries.get? name catalogue with
    | some schema => schema.canonical.leads rest = true
    | none => replacements.has (pointerTo name) = false ∧ ∃ v, before.resolve document pointer = .ok v
  | _ => True

namespace Edit

variable {s s' : Store} {root c T : Nat} {K : Set Nat} {entries inner V W : Entries Value} {name : String}
  {steps : List String} {w : Value}

/-- Steps through the components to a schema of the table. -/
theorem TablePath.leads_iff (h : TablePath s root c T entries inner V) :
    s.Leads (.node root) ("components" :: "schemas" :: name :: steps) ↔
      ∃ w, V.get? name = some w ∧ s.isNull w = false ∧ s.Leads w steps := by
  rw [Store.leads_object h.root_cell, h.components_get]
  simp only [Option.some.injEq, exists_eq_left', Store.isNull_node h.components_cell, true_and]
  rw [Store.leads_object h.components_cell, h.schemas_get]
  simp only [Option.some.injEq, exists_eq_left', Store.isNull_node h.table_cell, true_and]
  exact Store.leads_object h.table_cell

section

variable (h : View.Gated root (tableGates root c T) ⟨s, K⟩) (hagree : ∀ i ∈ K, i ≠ T → s'.cells[i]? = s.cells[i]?)
include h hagree

/-- The path stays when the table only is changed. -/
theorem TablePath.of_agree (hpath : TablePath s root c T entries inner V)
    (hcell' : s'.cells[T]? = some (.object W)) : TablePath s' root c T entries inner W := by
  obtain ⟨-, hneT, hTc⟩ := ne_of_gated h
  exact ⟨(hagree root h.root_known hneT.symm).trans hpath.root_cell, hpath.components_get,
    (hagree c (h.gate_known ⟨root, "components", c⟩ (by simp [tableGates])) hTc.symm).trans hpath.components_cell,
    hpath.schemas_get, hcell'⟩

/-- What may stand anywhere is no part of what changes with the table. -/
theorem isNull_and_leads_iff (hw : View.Free root (tableGates root c T) ⟨s, K⟩ w) :
    (s'.isNull w = false ∧ s'.Leads w steps) ↔ s.isNull w = false ∧ s.Leads w steps := by
  have hfree : ∀ i ∈ K, (∀ g ∈ tableGates root c T, i ≠ g.node) → s'.cells[i]? = s.cells[i]? :=
    fun i hi hnot => hagree i hi (hnot ⟨c, "schemas", T⟩ (by simp [tableGates]))
  rw [Store.isNull_eq_of_shape_eq (View.Gated.shape_eq_of_agree hfree hw),
    h.leads_iff_of_agree passage_tableGates hfree hw]

/-- Steps that do not go to a schema of the table lead on as before when the table only is changed. -/
theorem leads_iff_of_table (hcell : s.cells[T]? = some (.object V))
    (hcell' : s'.cells[T]? = some (.object W))
    (hnot : ∀ name rest, steps ≠ "components" :: "schemas" :: name :: rest) :
    s'.Leads (.node root) steps ↔ s.Leads (.node root) steps := by
  obtain ⟨entries, inner, hpath⟩ := tablePath_of_gated h hcell
  have hpath' := hpath.of_agree h hagree hcell'
  have hplace : ∀ {i k w} {entries : Entries Value}, i ∈ K → s.cells[i]? = some (.object entries) →
      entries.get? (.text k) = some w → (∀ g ∈ tableGates root c T, g.owner = i → g.key ≠ k) →
      View.Free root (tableGates root c T) ⟨s, K⟩ w := by
    intro i k w entries hi hentries hget hkey
    rintro x rfl
    have hstands : s.Stands i (some (.text k)) x :=
      (Store.stands_object hentries).mpr ⟨_, rfl, Entries.mem_of_get? hget⟩
    obtain ⟨hknown, hroot⟩ := h.known_of_stands i _ x hi hstands
    refine ⟨hknown, hroot, fun g hg heq => ?_⟩
    subst heq
    obtain ⟨howner, hkey'⟩ := h.only g hg i _ hi hstands
    exact hkey g hg howner.symm (by simpa using hkey'.symm)
  obtain ⟨hc, -, hTc⟩ := ne_of_gated h
  cases steps with
  | nil => simp
  | cons first rest =>
    rw [Store.leads_object hpath'.root_cell, Store.leads_object hpath.root_cell]
    refine exists_congr fun w => and_congr_right fun hw => ?_
    by_cases hfirst : first = "components"
    · obtain rfl : w = .node c := by simpa [hfirst, hpath.components_get] using hw.symm
      rw [Store.isNull_node hpath'.components_cell, Store.isNull_node hpath.components_cell]
      refine and_congr_right fun _ => ?_
      cases rest with
      | nil => simp
      | cons second rest =>
        rw [Store.leads_object hpath'.components_cell, Store.leads_object hpath.components_cell]
        refine exists_congr fun x => and_congr_right fun hx => ?_
        by_cases hsecond : second = "schemas"
        · obtain rfl : x = .node T := by simpa [hsecond, hpath.schemas_get] using hx.symm
          rw [Store.isNull_node hcell', Store.isNull_node hcell]
          cases rest with
          | nil => simp
          | cons name rest => exact absurd (by rw [hfirst, hsecond]) (hnot name rest)
        · refine isNull_and_leads_iff h hagree (hplace (h.gate_known ⟨root, "components", c⟩
            (by simp [tableGates])) hpath.components_cell hx fun g hg howner hkey => ?_)
          rcases hg with rfl | rfl
          · exact hc howner.symm
          · exact hsecond hkey.symm
    · refine isNull_and_leads_iff h hagree (hplace h.root_known hpath.root_cell hw fun g hg howner hkey => ?_)
      rcases hg with rfl | rfl
      · exact hfirst hkey.symm
      · exact hc howner

end

end Edit

namespace Procedure

open Edit

variable {t t' : Session} {table : SchemaTable} {E : List (Scalar × Tree)} {merge : Bool}
  {replacements : Replacements} {duplicates : List DuplicateShape} {root T : Nat} {V : Entries Value}

section

variable {C kept : Entries Value} {state : FoldState} {u : Session}
  (hready : Ready t.store root T V) (hE : (Tree.object E).IsJson)
  (hload : Runs (loadCatalogue (.object E)) t C u) (hfolded : Folded u.store V C V state kept)
include hready hE hload hfolded

/-- Steps to a schema lead on in the schema of the catalogue with that name, or else in the schema of
the table, unless it has been removed. -/
theorem leads_schema_iff {name : String} {rest : List String} :
    (u.store.set T (.object (kept.putAll C))).Leads (.node root)
        ("components" :: "schemas" :: name :: rest) ↔
      match Entries.get? name E with
      | some schema => schema.canonical.leads rest = true
      | none => state.replacements.has (pointerTo name) = false ∧
          t.store.Leads (.node root) ("components" :: "schemas" :: name :: rest) := by
  obtain ⟨c, K, hgated, -⟩ := hready.exists_gated
  obtain ⟨hkeys, hadds⟩ := adds_loadCatalogue hload
  obtain ⟨hheld, hobjects⟩ := holds_loadCatalogue (Tree.entriesAreJson_iff.mp hE.2) hload
  have hC : C.TextKeyed := ⟨hkeys ▸ hE.1.exists_text, hkeys ▸ hE.1.nodup⟩
  have hlt : T < t.store.cells.size := Store.lt_size_of_cell hready.cell
  have hcell' : (u.store.set T (.object (kept.putAll C))).cells[T]? = some (.object (kept.putAll C)) := by
    rw [Store.cells_set, if_pos ⟨rfl, hlt.trans_le hadds.size_le⟩]
  have hagree : ∀ i ∈ K, i ≠ T → (u.store.set T (.object (kept.putAll C))).cells[i]? = t.store.cells[i]? :=
    fun i hi => hadds.cells_set (hgated.lt i hi)
  obtain ⟨entries, inner, hpath⟩ := tablePath_of_gated hgated hready.cell
  rw [(hpath.of_agree hgated hagree hcell').leads_iff, hpath.leads_iff, hfolded.get?_putAll hC]
  rcases Store.get?_of_holds (.text name) hheld with ⟨hnone, hnone'⟩ | ⟨w, canonical, hw, hcanonical, hwheld⟩
  · have hget : Entries.get? name E = none := by
      rw [Entries.get?_eq_none, ← hkeys, ← Entries.get?_eq_none]
      exact hnone
    rw [hnone, hget, Option.none_or]
    dsimp only
    cases hhas : state.replacements.has (pointerTo name) with
    | true => simp
    | false =>
      simp only [Bool.false_eq_true, if_false, true_and]
      refine exists_congr fun w => and_congr_right fun hw => ?_
      exact isNull_and_leads_iff hgated hagree
        (free_of_mem_values hgated hready.cell (Entries.mem_values_of_get? hw))
  · rw [Entries.get?_map, Option.map_eq_some_iff] at hcanonical
    obtain ⟨schema, hschema, rfl⟩ := hcanonical
    have hmem : w ∈ C.values := Entries.mem_values_of_get? hw
    have hlast : (u.store.set T (.object (kept.putAll C))).Holds w schema.canonical :=
      hwheld.set (hadds.apart hlt hmem).not_reaches
    have hnull : schema.canonical.isNull = false := by
      obtain ⟨entries, heq⟩ := hobjects _ (Entries.mem_of_get? hschema)
      obtain ⟨entries', heq'⟩ : ∃ entries', Tree.canonical (.object entries) = .object entries' :=
        Tree.exists_canonical_object
      rw [show schema = .object entries from heq, heq']
      rfl
    rw [hw, hschema]
    simp [hlast.isNull_eq, hnull, hlast.leads_iff]

end

/-- A pointer that led somewhere before the folding is replaced at most once, and what it is replaced
by leads somewhere afterwards if it survives. -/
theorem resolves_iff_survives (hready : Ready t.store root T V) (htable : table.schemas = .node T)
    (hE : (Tree.object E).IsJson)
    (hrun : Runs (foldSchemas table (.object E) merge) t (replacements, duplicates) t') {r : String}
    {v : Value} (hr : t.store.resolve (.node root) r = .ok v) :
    ∃ q, replacements.follow (.text r) = .text q ∧
      ((∃ w, t'.store.resolve (.node root) q = .ok w) ↔
        Survives t.store (.node root) E replacements q) := by
  obtain ⟨C, u, state, kept, hload, hfolded, rfl, hstore⟩ :=
    folded_of_foldSchemas hrun htable hready.cell hready.textKeyed hE.1 hready.apart
  obtain ⟨-, hadds⟩ := adds_loadCatalogue hload
  obtain ⟨c, K, hgated, -⟩ := hready.exists_gated
  obtain ⟨before, hbefore, hleads⟩ := Store.exists_resolve_iff.mp ⟨v, hr⟩
  have hcell' : t'.store.cells[T]? = some (.object (kept.putAll C)) := by
    rw [hstore, Store.cells_set,
      if_pos ⟨rfl, (Store.lt_size_of_cell hready.cell).trans_le hadds.size_le⟩]
  have hagree : ∀ i ∈ K, i ≠ T → t'.store.cells[i]? = t.store.cells[i]? := by
    intro i hi hne
    rw [hstore, hadds.cells_set (hgated.lt i hi) hne]
  refine ⟨_, hfolded.follow_eq r, ?_⟩
  generalize hq : (state.replacements.get? (.text r)).getD r = q
  -- Either the pointer stays, or it is replaced by the pointer to a schema.
  have hsteps : ∃ steps, Pointer.steps? q = some steps ∧
      ((∃ name rest, steps = "components" :: "schemas" :: name :: rest) ∨
        t.store.Leads (.node root) steps) := by
    cases hget : state.replacements.get? (.text r) with
    | none =>
      rw [hget, Option.getD_none] at hq
      exact ⟨before, hq ▸ hbefore, .inr hleads⟩
    | some p =>
      obtain ⟨n, m, -, rfl, -⟩ := hfolded.exists_target hget
      obtain ⟨piece, more, hsplit⟩ := Text.exists_splitAtChar '/' m.toList
      have hm := Pointer.steps?_pointerTo m
      rw [hsplit, List.map_cons] at hm
      rw [hget, Option.getD_some] at hq
      exact ⟨_, hq ▸ hm, .inl ⟨_, _, rfl⟩⟩
  obtain ⟨steps, hsteps, hcases⟩ := hsteps
  rw [Store.exists_resolve_iff]
  unfold Survives
  simp only [Store.exists_resolve_iff, hsteps, Option.some.injEq, exists_eq_left']
  split
  · next name rest heq =>
    obtain rfl : steps = _ := by simpa using heq
    rw [hstore]
    exact leads_schema_iff hready hE hload hfolded
  · next hnot =>
    have hnot' : ∀ name rest, steps ≠ "components" :: "schemas" :: name :: rest :=
      fun name rest heq => hnot name rest (congrArg some heq)
    rw [leads_iff_of_table hgated hagree hready.cell hcell' hnot', iff_true]
    rcases hcases with ⟨name, rest, heq⟩ | hleads'
    · exact absurd heq (hnot' name rest)
    · exact hleads'

/-- **What becomes of a pointer.** Let a JSON document be normalized. A pointer that led somewhere
right before the folding has its replacement followed to a pointer that leads somewhere in the end just
if that one survives. -/
theorem normalize_resolves_iff_survives {document : Tree} {log : List Log.Record}
    {names : Option MethodNames} {result : Normalized} {s' : Session} (hdocument : document.IsJson)
    (hE : (Tree.object E).IsJson)
    (h : Runs (normalize (Store.empty.load document).1 names (.object E) merge)
      ⟨(Store.empty.load document).2, log⟩ result s') :
    ∃ table t, Runs (prepare (Store.empty.load document).1 names)
        ⟨(Store.empty.load document).2, log⟩ table t ∧
      ∀ r v, t.store.resolve result.document r = .ok v →
        ∃ q, result.replacements.follow (.text r) = .text q ∧
          ((∃ w, s'.store.resolve result.document q = .ok w) ↔
            Survives t.store result.document E result.replacements q) := by
  obtain ⟨table, t, hprepare, t₁, t₂, hstore₁, hfold, hstore₂, hroot⟩ := runs_normalize h
  obtain ⟨root, T, V, hnode, htable, hready⟩ := ready_of_prepare hdocument hprepare
  refine ⟨table, t, hprepare, fun r v hr => ?_⟩
  rw [hroot, hnode] at hr ⊢
  rw [← hstore₁] at hready hr ⊢
  rw [← hstore₂]
  exact resolves_iff_survives hready htable hE hfold hr

/-- Two schemas of one shape, and a pointer to the second. The slash in its name is written with a
tilde, as it has to be. -/
def respelled : Tree :=
  .ofFields
    [("paths", .ofFields []),
     ("components", .ofFields [("schemas", .ofFields
       [("Name", .ofFields [("type", .text "string")]),
        ("Name/Short", .ofFields [("type", .text "string")]),
        ("Both", .ofFields
          [("type", .text "object"),
           ("properties", .ofFields
             [("label", .ofFields [("$ref", .text "#/components/schemas/Name~1Short")])])])])])]

theorem isJson_respelled : respelled.IsJson := by decide +kernel

theorem normalize_resolves_iff_survives_respelled :
    let start := Store.empty.load respelled
    ∃ result s' table t, Runs (normalize start.1 none (.object []) true) ⟨start.2, []⟩ result s' ∧
      Runs (prepare start.1 none) ⟨start.2, []⟩ table t ∧
      ∀ r v, t.store.resolve result.document r = .ok v →
        ∃ q, result.replacements.follow (.text r) = .text q ∧
          ((∃ w, s'.store.resolve result.document q = .ok w) ↔
            Survives t.store result.document [] result.replacements q) := by
  intro start
  have hanswer : ((normalize start.1 none (.object []) true).runOn ⟨start.2, []⟩).1.toOption.map
      (fun _ => ()) = some () := by decide +kernel
  obtain ⟨result, s', hrun, -⟩ := exists_runs hanswer
  obtain ⟨table, t, hprepare, hresolves⟩ :=
    normalize_resolves_iff_survives isJson_respelled (by decide +kernel) hrun
  exact ⟨result, s', table, t, hrun, hprepare, hresolves⟩

/-- A handle that led to a schema before the folding may lead nowhere in the end. The handle stands in
the document, and its replacement is the handle itself: the schema that it leads to was removed under
another spelling of its name. -/
theorem handle_dangles :
    let start := Store.empty.load respelled
    let handle := "#/components/schemas/Name~1Short"
    ∃ result s' table t, Runs (normalize start.1 none (.object []) true) ⟨start.2, []⟩ result s' ∧
      Runs (prepare start.1 none) ⟨start.2, []⟩ table t ∧
      s'.store.resolve result.document "#/components/schemas/Both/properties/label/$ref" =
        .ok (.text handle) ∧
      (∃ v, t.store.resolve result.document handle = .ok v) ∧
      result.replacements.follow (.text handle) = .text handle ∧
      ¬ ∃ w, s'.store.resolve result.document handle = .ok w := by
  intro start handle
  have hprepare : passes (prepare start.1 none) ⟨start.2, []⟩ (fun _ t =>
      (t.store.resolve start.1 handle).toOption.isSome) = true := by decide +kernel
  have hnormalize : passes (normalize start.1 none (.object []) true) ⟨start.2, []⟩
      (fun result s' => decide (result.document = start.1) &&
        (decide ((s'.store.resolve start.1 "#/components/schemas/Both/properties/label/$ref").toOption =
          some (.text handle)) &&
        (decide (result.replacements.follow (.text handle) = .text handle) &&
          (s'.store.resolve start.1 handle).toOption.isNone))) = true := by decide +kernel
  obtain ⟨table, t, hprepared, hbefore⟩ := exists_runs_of_passes hprepare
  obtain ⟨result, s', hrun, hcheck⟩ := exists_runs_of_passes hnormalize
  simp only [Bool.and_eq_true, decide_eq_true_eq] at hcheck
  obtain ⟨hdocument, hplace, hfollow, hafter⟩ := hcheck
  rw [← hdocument] at hplace hbefore hafter
  refine ⟨result, s', table, t, hrun, hprepared, toOption_eq_some.mp hplace, ?_, hfollow, ?_⟩
  · obtain ⟨v, hv⟩ := Option.isSome_iff_exists.mp hbefore
    exact ⟨v, toOption_eq_some.mp hv⟩
  · rintro ⟨w, hw⟩
    simp [hw, Except.toOption] at hafter

end Procedure

end DeviceApi
