import DeviceApi.Proofs.Kinds.Loading
import DeviceApi.Proofs.Kinds.Schemas

/-!
# Procedures that agree

Two procedures accord on stores that are alike, as edits agree, whatever has been reported before. Reports and stages
change nothing about that.

The table of schemas says nothing about a type itself, so it has the same entries in two stores that are alike. Its
schemas have the same shape keys, and the same of them are folded. In the end the tables have the same entries again.
-/

namespace DeviceApi

variable {α β : Type} {kinds kinds' ks : List Kind} {k k' : Kind} {s s' : Store} {v root : Value} {name : String}
  {table : SchemaTable}

namespace Edit.Agree

/-- An empty object may be a node of any kind. -/
theorem newEmpty (h : s.Matches kinds s') : Agree kinds s s' (Edit.newObject []) (Edit.newObject []) (Same (OneOf [k])) :=
  newObject h (.refl .nil)

/-- A field is filled in both stores or in none. -/
theorem fieldOrNew (h : s.Matches kinds s') (hv : v.IsOf kinds [k]) (hne : name ≠ descriptionKey)
    (hbelow : k.below (some (.text name)) = [k']) (hk : k.mayRefer = false) :
    Agree kinds s s' (Edit.fieldOrNew v name) (Edit.fieldOrNew v name) (Same (OneOf [k'])) := by
  unfold Edit.fieldOrNew
  refine entriesOf_bind h hv fun k₁ entries entries' hk₁ halike => ?_
  obtain rfl := List.mem_singleton.mp hk₁
  rw [halike.get?_eq hne]
  cases hget : entries.get? (.text name) with
  | some w => exact pure h ⟨rfl, hbelow ▸ halike.fits.get? hget⟩
  | none =>
    refine (newEmpty (k := k') h).bind_same fun kinds₁ w t t' hgrown halike' hw => ?_
    refine (putField halike' (hv.mono hgrown) fun k₂ hk₂ => ?_).bind_same fun kinds₂ _ u u' hgrown' halike'' _ =>
      pure halike'' ⟨rfl, Value.IsOf.mono hw hgrown'⟩
    obtain rfl := List.mem_singleton.mp hk₂
    exact ⟨hbelow ▸ hw, fun hrefer => by simp [hk] at hrefer⟩

/-- The table of schemas is opened in both stores. -/
theorem openTable (h : s.Matches kinds s') (hroot : root.IsOf kinds [.root]) :
    Agree kinds s s' (Edit.openTable root) (Edit.openTable root)
      (Same fun kinds table => table.schemas.IsOf kinds [.table]) := by
  have hcomponents : Kind.root.below (some (.text "components")) = [.components] := by decide
  have hschemas : Kind.components.below (some (.text "schemas")) = [.table] := by decide
  unfold Edit.openTable
  refine (fieldOrNew h hroot (by decide) hcomponents rfl).bind_same fun kinds₁ components t t' _ halike hof => ?_
  refine (fieldOrNew halike hof (by decide) hschemas rfl).bind_same
    fun kinds₂ schemas u u' _ halike' hof' => ?_
  exact pure halike' ⟨rfl, hof'⟩

end Edit.Agree

namespace Procedure

open Edit

/-- Whatever has been reported, the procedures fail with the same fault, or they answer and the stores behind them and
the answers are as `Q` says. -/
def Accord (s s' : Store) (procedure procedure' : Procedure α) (Q : Store → Store → α → α → Prop) : Prop :=
  ∀ log log', match procedure.runOn ⟨s, log⟩, procedure'.runOn ⟨s', log'⟩ with
    | (.ok a, t), (.ok a', t') => Q t.store t'.store a a'
    | (.error f, _), (.error f', _) => f = f'
    | _, _ => False

/-- The stores are alike, and the answers are as `Q` says. -/
def Matching (kinds : List Kind) (Q : List Kind → α → α → Prop) (s s' : Store) (a a' : α) : Prop :=
  ∃ kinds', kinds <+: kinds' ∧ s.Matches kinds' s' ∧ Q kinds' a a'

theorem Matching.of_grown {Q : List Kind → α → α → Prop} {a a' : α} (h : Matching kinds' Q s s' a a')
    (hgrown : kinds <+: kinds') : Matching kinds Q s s' a a' := by
  obtain ⟨kinds'', hgrown', halike, ha⟩ := h
  exact ⟨kinds'', hgrown.trans hgrown', halike, ha⟩

namespace Accord

variable {procedure procedure' : Procedure α} {next next' : α → Procedure β} {Q Q' : Store → Store → α → α → Prop}
  {R : Store → Store → β → β → Prop} {P : List Kind → α → Prop} {I : List Kind → β → Prop} {a a' : α}

theorem pure (h : Q s s' a a') : Accord s s' (pure a) (pure a') Q := fun _ _ => h

theorem throw {f : Fault} : Accord s s' (throw f) (throw f) Q := fun _ _ => (rfl : f = f)

theorem mono (h : Accord s s' procedure procedure' Q) (hQ : ∀ t t' a a', Q t t' a a' → Q' t t' a a') :
    Accord s s' procedure procedure' Q' := by
  intro log log'
  have hrun := h log log'
  split at hrun
  · exact hQ _ _ _ _ hrun
  · exact hrun
  · exact hrun.elim

/-- If one of the procedures answers, so does the other. -/
theorem exists_runs (h : Accord s s' procedure procedure' Q) {log log' : List Log.Record} {t : Session}
    (hrun : Runs procedure ⟨s, log⟩ a t) : ∃ a' t', Runs procedure' ⟨s', log'⟩ a' t' ∧ Q t.store t'.store a a' := by
  have haccord := h log log'
  rw [hrun] at haccord
  split at haccord
  · next heq heq' =>
    obtain ⟨heqa, rfl⟩ := Prod.mk.inj heq
    obtain rfl := Except.ok.inj heqa
    exact ⟨_, _, heq', haccord⟩
  · next heq _ => cases (Prod.mk.inj heq).1
  · exact haccord.elim

/-- Sequences accord step by step. -/
theorem bind (h : Accord s s' procedure procedure' Q)
    (hnext : ∀ t t' a a', Q t t' a a' → Accord t t' (next a) (next' a') R) :
    Accord s s' (procedure >>= next) (procedure' >>= next') R := by
  intro log log'
  have hrun := h log log'
  rw [runOn_bind, runOn_bind]
  split at hrun
  · next a t a' t' heq heq' =>
    rw [heq, heq']
    exact hnext _ _ a a' hrun t.log t'.log
  · next heq heq' =>
    rw [heq, heq']
    exact hrun
  · exact hrun.elim

/-- Sequences accord if the first steps leave alike stores behind and have the same answer. -/
theorem bind_same (h : Accord s s' procedure procedure' (Matching kinds (Same P)))
    (hnext : ∀ kinds₁ a t t', kinds <+: kinds₁ → t.Matches kinds₁ t' → P kinds₁ a → Accord t t' (next a) (next' a) R) :
    Accord s s' (procedure >>= next) (procedure' >>= next') R := by
  refine h.bind fun t t' a a' hmatching => ?_
  obtain ⟨kinds₁, hgrown, halike, rfl, ha⟩ := hmatching
  exact hnext kinds₁ _ t t' hgrown halike ha

/-- Edits that agree do so inside of procedures. -/
theorem ofEdit {edit edit' : Edit α} {Q : List Kind → α → α → Prop} (h : Edit.Agree kinds s s' edit edit' Q) :
    Accord s s' (ofEdit edit) (Procedure.ofEdit edit') (Matching kinds Q) := by
  intro log log'
  rw [runOn_ofEdit, runOn_ofEdit]
  unfold Agree at h
  dsimp only
  split at h
  · next heq heq' =>
    rw [heq, heq']
    exact h
  · next heq heq' =>
    rw [heq, heq']
    exact h
  · exact h.elim

/-- Edits that only read go on with their answers. -/
theorem read_bind {edit edit' : Edit α} (h : edit.runOn s = (.ok a, s)) (h' : edit'.runOn s' = (.ok a', s'))
    (hnext : Accord s s' (next a) (next' a') R) :
    Accord s s' (Procedure.ofEdit edit >>= next) (Procedure.ofEdit edit' >>= next') R := by
  intro log log'
  rw [runOn_bind, runOn_bind, runOn_ofEdit, runOn_ofEdit, h, h']
  exact hnext log log'

/-- What is reported does not matter. -/
theorem report_bind {level level' : Log.Level} {message message' : String} {next next' : Unit → Procedure β}
    (hnext : Accord s s' (next ()) (next' ()) R) :
    Accord s s' (report level message >>= next) (report level' message' >>= next') R :=
  fun _ _ => hnext _ _

/-- Stages accord if their bodies do. -/
theorem stage (h : Accord s s' procedure procedure' Q) :
    Accord s s' (stage name procedure) (Procedure.stage name procedure') Q := by
  intro log log'
  rw [runOn_stage, runOn_stage]
  have hrun := h (started name ⟨s, log⟩).log (started name ⟨s', log'⟩).log
  split at hrun
  · next heq heq' =>
    simp only [started] at heq heq' ⊢
    rw [heq, heq']
    exact hrun
  · next heq heq' =>
    simp only [started] at heq heq' ⊢
    rw [heq, heq']
    exact hrun
  · exact hrun.elim

/-- Going through a list, with an answer for each item. -/
theorem mapM {f : α → Procedure β} {xs : List α} (h : s.Matches kinds s') (hlasts : Lasts I)
    (hstep : ∀ x ∈ xs, ∀ kinds₁ t t', kinds <+: kinds₁ → t.Matches kinds₁ t' →
      Accord t t' (f x) (f x) (Matching kinds₁ (Same I))) :
    Accord s s' (xs.mapM f) (xs.mapM f) (Matching kinds (Same fun kinds bs => ∀ b ∈ bs, I kinds b)) := by
  induction xs generalizing kinds s s' with
  | nil => exact pure ⟨kinds, List.prefix_rfl, h, rfl, by simp⟩
  | cons x xs ih =>
    rw [List.mapM_cons]
    refine (hstep x List.mem_cons_self kinds s s' List.prefix_rfl h).bind_same
      fun kinds₁ b t t' hgrown halike hb => ?_
    refine (ih halike fun y hy kinds₂ u u' hgrown' =>
      hstep y (List.mem_cons_of_mem _ hy) kinds₂ u u' (hgrown.trans hgrown')).bind_same
      fun kinds₂ bs u u' hgrown' halike' hbs => ?_
    refine pure ⟨kinds₂, hgrown.trans hgrown', halike', rfl, fun c hc => ?_⟩
    rcases List.mem_cons.mp hc with rfl | hmem
    · exact hlasts hgrown' hb
    · exact hbs c hmem

/-- Going through a list with what is known so far. -/
theorem foldlM {f : β → α → Procedure β} {xs : List α} {b : β} (h : s.Matches kinds s')
    (hstep : ∀ x ∈ xs, ∀ kinds₁ c t t', kinds <+: kinds₁ → t.Matches kinds₁ t' →
      Accord t t' (f c x) (f c x) (Matching kinds₁ (Same fun _ _ => True))) :
    Accord s s' (xs.foldlM f b) (xs.foldlM f b) (Matching kinds (Same fun _ _ => True)) := by
  induction xs generalizing kinds s s' b with
  | nil => exact pure ⟨kinds, List.prefix_rfl, h, rfl, trivial⟩
  | cons x xs ih =>
    rw [List.foldlM_cons]
    refine (hstep x List.mem_cons_self kinds b s s' List.prefix_rfl h).bind_same
      fun kinds₁ c t t' hgrown halike _ => ?_
    have hrest := ih (b := c) halike fun y hy kinds₂ d u u' hgrown' =>
      hstep y (List.mem_cons_of_mem _ hy) kinds₂ d u u' (hgrown.trans hgrown')
    exact hrest.mono fun u u' d d' hmatching => hmatching.of_grown hgrown

/-- A loop that only reports. -/
theorem forIn_report {level : Log.Level} {message : α → String} {xs : List α} :
    Accord s s' (forIn xs PUnit.unit fun x _ => do report level (message x); Pure.pure (ForInStep.yield PUnit.unit))
      (forIn xs PUnit.unit fun x _ => do report level (message x); Pure.pure (ForInStep.yield PUnit.unit))
      (fun t t' _ _ => t = s ∧ t' = s') := by
  induction xs with
  | nil => exact pure ⟨rfl, rfl⟩
  | cons x xs ih =>
    rw [List.forIn_cons, bind_assoc]
    exact report_bind ih

end Accord

/-- All operations are classified in the same way in both stores. -/
theorem accord_classifyAll {names : Option MethodNames} (h : s.Matches kinds s') (hroot : root.IsOf kinds [.root])
    (htable : table.schemas.IsOf kinds [.table]) :
    Accord s s' (classifyAll root table names) (classifyAll root table names) (Matching kinds (Same fun _ _ => True)) := by
  unfold classifyAll
  refine (Accord.ofEdit (Agree.visitOperations (fun kinds₁ t t' op hgrown halike hop => Agree.classifyAndName halike
    (hroot.mono hgrown) (htable.mono hgrown) hop) h hroot)).bind_same fun kinds₁ count t t' hgrown halike _ => ?_
  have hsize : Agree kinds₁ t t' table.size table.size (Same fun _ _ => True) := by
    unfold SchemaTable.size
    refine Agree.get_bind ?_
    rw [show t'.size table.schemas = t.size table.schemas by
      rw [Store.size, Store.size, halike.elements_eq (htable.mono hgrown) (by decide)]]
    exact Agree.ofExcept halike fun _ _ => trivial
  refine (Accord.ofEdit hsize).bind_same fun kinds₂ size u u' hgrown' halike' _ => ?_
  exact fun _ _ => ⟨kinds₂, hgrown.trans hgrown', halike', rfl, trivial⟩

end Procedure

/-! ## Folding -/

namespace Edit.Agree

/-- What belongs to no document is loaded in the same way. -/
theorem loadTree (h : s.Matches kinds s') (t : Tree) :
    Agree kinds s s' (Edit.loadTree t) (Edit.loadTree t) (Same (OneOf [.loose])) := Tree.loadAlike_loose t h

theorem shapeKeyOf (h : s.Matches kinds s') (hv : v.IsOf kinds [.schema, .property, .plain, .loose]) :
    Agree kinds s s' (Procedure.shapeKeyOf v) (Procedure.shapeKeyOf v) (Same fun _ _ => True) := by
  unfold Procedure.shapeKeyOf
  refine get_bind ?_
  rw [h.shapeKey_eq hv]
  exact ofExcept h fun _ _ => trivial

/-- A name is removed from the table of both stores. -/
theorem removeName {name : String} (h : s.Matches kinds s') (htable : table.schemas.IsOf kinds [.table]) :
    Agree kinds s s' (table.remove name) (table.remove name) (Same fun _ _ => True) := by
  refine removeKey h htable fun k hk entries entries' halike => ?_
  obtain rfl := List.mem_singleton.mp hk
  obtain rfl := halike.same rfl
  exact ⟨rfl, .refl (halike.fits.remove fun hrefer => by simp [Kind.mayRefer] at hrefer)⟩

end Edit.Agree

namespace Procedure

open Edit

variable {catalogue : Entries Value} {shapes : Entries Scalar} {merge : Bool} {state : FoldState}

/-- A catalogue is loaded in the same way into both stores. -/
theorem accord_loadCatalogue (h : s.Matches kinds s') (catalogue : Tree) :
    Accord s s' (loadCatalogue catalogue) (loadCatalogue catalogue)
      (Matching kinds (Same fun kinds schemas => ∀ e ∈ schemas, e.2.IsOf kinds [.loose])) := by
  unfold loadCatalogue
  cases catalogue with
  | object schemas =>
    refine Accord.mapM (I := fun kinds (e : Scalar × Value) => e.2.IsOf kinds [.loose]) h
      (fun hgrown he => he.mono hgrown) fun e _ kinds₁ t t' _ halike => ?_
    refine (Accord.ofEdit (Agree.loadTree halike e.2)).bind_same fun kinds₂ node u u' hgrown halike' hnode => ?_
    refine (Accord.ofEdit (Agree.canonicalize halike' (Value.IsOf.of_subset hnode (by decide)))).bind_same
      fun kinds₃ _ x x' hgrown' halike'' _ => ?_
    exact .pure ⟨kinds₃, hgrown.trans hgrown', halike'', rfl, Value.IsOf.mono hnode hgrown'⟩
  | _ => exact .throw

/-- The shapes of a catalogue are the same in both stores. -/
theorem accord_catalogueShapes (h : s.Matches kinds s') (hcatalogue : ∀ e ∈ catalogue, e.2.IsOf kinds [.loose]) :
    Accord s s' (catalogueShapes catalogue) (catalogueShapes catalogue) (Matching kinds (Same fun _ _ => True)) := by
  unfold catalogueShapes
  refine Accord.foldlM h fun e he kinds₁ shapes t t' hgrown halike => ?_
  have hkey := Agree.shapeKeyOf halike (((hcatalogue e he).mono hgrown).of_subset (by decide))
  refine (Accord.ofEdit hkey).bind_same fun kinds₂ key u u' hgrown' halike' _ => ?_
  exact .pure ⟨kinds₂, hgrown', halike', rfl, trivial⟩

/-- A schema is folded in the same way in both stores. -/
theorem accord_foldInto {name : String} {target : Scalar} (h : s.Matches kinds s')
    (htable : table.schemas.IsOf kinds [.table]) :
    Accord s s' (foldInto table state name target) (foldInto table state name target)
      (Matching kinds (Same fun _ _ => True)) := by
  unfold foldInto
  refine (Accord.ofEdit (Agree.removeName h htable)).bind_same fun kinds₁ _ t t' hgrown₁ halike₁ _ => ?_
  refine (Accord.ofEdit (Agree.textOf halike₁)).bind_same fun kinds₂ replaced u u' hgrown₂ halike₂ _ => ?_
  refine (Accord.ofEdit (Agree.textOf halike₂)).bind_same fun kinds₃ kept x x' hgrown₃ halike₃ _ => ?_
  exact Accord.report_bind (.pure ⟨kinds₃, (hgrown₁.trans hgrown₂).trans hgrown₃, halike₃, rfl, trivial⟩)

/-- What becomes of a schema of the table is the same in both stores. -/
theorem accord_foldSchema {name : String} (h : s.Matches kinds s') (htable : table.schemas.IsOf kinds [.table])
    (hv : v.IsOf kinds [.schema, .plain]) :
    Accord s s' (foldSchema table catalogue shapes merge state name v) (foldSchema table catalogue shapes merge state name v)
      (Matching kinds (Same fun _ _ => True)) := by
  have hreference : Agree kinds s s' (isReference v) (isReference v) (Same fun _ _ => True) :=
    Agree.isReference_bind h hv (.pure h ⟨rfl, trivial⟩)
  unfold foldSchema
  refine (Accord.ofEdit hreference).bind_same fun kinds₁ c t t' hgrown halike _ => ?_
  split
  · exact .pure ⟨kinds₁, hgrown, halike, rfl, trivial⟩
  · have hkey := Agree.shapeKeyOf halike ((hv.mono hgrown).of_subset (by decide))
    refine (Accord.ofEdit hkey).bind_same fun kinds₂ key u u' hgrown' halike' _ => ?_
    have hfold : ∀ state target, Accord u u' (foldInto table state name target) (foldInto table state name target)
        (Matching kinds (Same fun _ _ => True)) := fun state target =>
      (accord_foldInto halike' (htable.mono (hgrown.trans hgrown'))).mono fun _ _ _ _ hmatching =>
        hmatching.of_grown (hgrown.trans hgrown')
    split
    · exact hfold _ _
    · dsimp only
      split
      · exact hfold _ _
      · exact .pure ⟨kinds₂, hgrown.trans hgrown', halike', rfl, trivial⟩

/-- Two stores that were alike until their tables were given the same entries. -/
def MergedAlike (kinds : List Kind) (table : SchemaTable) (s s' : Store) : Prop :=
  ∃ (kinds' : List Kind) (t t' : Store) (id : Nat) (entries : Entries Value), kinds <+: kinds' ∧ t.Matches kinds' t' ∧ table.schemas = .node id ∧
    kinds'[id]? = some .table ∧ s = t.set id (.object entries) ∧ s' = t'.set id (.object entries)

/-- The size of the table is told in both stores. -/
theorem MergedAlike.runOn_size (h : MergedAlike kinds table s s') :
    ∃ n n', table.size.runOn s = (.ok n, s) ∧ table.size.runOn s' = (.ok n', s') := by
  obtain ⟨kinds', t, t', id, entries, -, halike, htable, hid, rfl, rfl⟩ := h
  have hlt : id < kinds'.length := (List.getElem?_eq_some_iff.mp hid).1
  have hsize : ∀ u : Store, id < u.cells.size → table.size.runOn (u.set id (.object entries)) =
      (.ok entries.keys.length, u.set id (.object entries)) := fun u hu => by
    have hshape : (u.set id (.object entries)).shape table.schemas = .object id entries :=
      htable ▸ Store.shape_node (by rw [Store.cells_set, if_pos ⟨rfl, hu⟩])
    refine runs_ofExcept.mpr ⟨?_, rfl⟩
    simp [Store.size, Store.elements, hshape, Except.map]
  exact ⟨_, _, hsize t (halike.size.symm ▸ hlt), hsize t' (halike.size'.symm ▸ hlt)⟩

/-- The tables are given the entries of a catalogue. -/
theorem accord_merge {schemas : Entries Value} (h : s.Matches kinds s') (htable : table.schemas.IsOf kinds [.table]) :
    Accord s s' (ofEdit (table.merge schemas)) (ofEdit (table.merge schemas))
      (fun t t' _ _ => MergedAlike kinds table t t') := by
  intro log log'
  rw [runOn_ofEdit, runOn_ofEdit]
  unfold SchemaTable.merge
  rw [Edit.runOn_bind, Edit.runOn_bind]
  rcases h.object_cases htable with ⟨hnone, hnone'⟩ | ⟨i, k, entries, entries', hk, hi, hshape, hshape', halike⟩
  · dsimp only
    rw [runOn_objectOf_none hnone, runOn_objectOf_none hnone']
    exact (rfl : Fault.misfit .noSuchOperation = _)
  · obtain rfl := List.mem_singleton.mp hk
    obtain rfl := halike.same rfl
    dsimp only
    rw [runOn_objectOf hshape, runOn_objectOf hshape']
    exact ⟨kinds, s, s', i, _, List.prefix_rfl, h, (Store.shape_eq_object.mp hshape).1, hi, rfl, rfl⟩

/-- The schemas of the table are folded in the same way, with the same answer. -/
theorem accord_foldSchemas (h : s.Matches kinds s') (htable : table.schemas.IsOf kinds [.table]) (catalogue : Tree) :
    Accord s s' (foldSchemas table catalogue merge) (foldSchemas table catalogue merge)
      (fun t t' a a' => a' = a ∧ MergedAlike kinds table t t') := by
  unfold foldSchemas
  refine (accord_loadCatalogue h catalogue).bind_same fun kinds₁ schemas t t' hgrown₁ halike₁ hschemas => ?_
  refine (accord_catalogueShapes halike₁ hschemas).bind_same fun kinds₂ shapes u u' hgrown₂ halike₂ _ => ?_
  have htable₂ := htable.mono (hgrown₁.trans hgrown₂)
  have hentries : Agree kinds₂ u u' table.entries table.entries
      (Same fun kinds entries => (Cell.object entries).Fits kinds .table) := by
    unfold SchemaTable.entries
    rw [← bind_pure (entriesOf table.schemas)]
    refine Agree.entriesOf_bind halike₂ htable₂ fun k entries entries' hk halike => ?_
    obtain rfl := List.mem_singleton.mp hk
    exact .pure halike₂ ⟨(halike.same rfl).symm, halike.fits⟩
  refine (Accord.ofEdit hentries).bind_same fun kinds₃ entries x x' hgrown₃ halike₃ hfits => ?_
  have hgrown := (hgrown₁.trans hgrown₂).trans hgrown₃
  refine (Accord.foldlM halike₃ fun e he kinds₄ state y y' hgrown₄ halike₄ => ?_).bind_same
    fun kinds₅ state z z' hgrown₅ halike₅ _ => ?_
  · obtain ⟨name, v⟩ := e
    obtain ⟨text, rfl⟩ := (hfits.textKeyed rfl).exists_text name (List.mem_map_of_mem he)
    exact accord_foldSchema halike₄ (htable.mono (hgrown.trans hgrown₄)) (Agree.isOf_tableEntry hfits he hgrown₄)
  · refine (accord_merge halike₅ (htable.mono (hgrown.trans hgrown₅))).bind fun m m' _ _ hmerged => ?_
    refine Accord.forIn_report.bind fun n n' _ _ hsame => ?_
    obtain ⟨rfl, rfl⟩ := hsame
    refine .pure ⟨rfl, ?_⟩
    obtain ⟨kinds₆, r, r', id, merged, hgrown₆, hrest⟩ := hmerged
    exact ⟨kinds₆, r, r', id, merged, (hgrown.trans hgrown₅).trans hgrown₆, hrest⟩

end Procedure

end DeviceApi
