import DeviceApi.Api.Operation
import DeviceApi.Proofs.Document.Holds
import DeviceApi.Proofs.Document.Runs
import Mathlib.Data.List.Basic

/-!
# The visit of operations

Operations are visited in the document itself, and a visit may change it. As long as no visit
touches the paths and what counts as a method in them, exactly those operations are visited that the
document had in the beginning.
-/

namespace DeviceApi

namespace Store

/-- The operation that entries declare for a method of a path. -/
def operationAt? (s : Store) (path : String) (entries : Entries Value) (method : Method) :
    Option Operation :=
  match entries.get? method.text with
  | some content =>
    if s.isTruthy content then
      some { path, method, id := s!"{method.text}_{pathId path}", content }
    else none
  | none => none

theorem methodOperations_eq {s : Store} {path : String} {entries : Entries Value} :
    s.methodOperations path entries = Method.all.filterMap (s.operationAt? path entries) := rfl

/-- The operation is one of those that entries of the paths declare. -/
def Declares (s : Store) (paths : Entries Value) (op : Operation) : Prop :=
  ∃ e ∈ paths, pathOfKey e.1 = .ok op.path ∧ ∃ entries, s.entries? e.2 = some entries ∧
    entries.get? op.method.text = some op.content

/-- In both stores the value declares the same methods. -/
structure SameMethods (s t : Store) (methods : Value) : Prop where
  isTruthy_eq : t.isTruthy methods = s.isTruthy methods
  entries?_eq_none : s.entries? methods = none → t.entries? methods = none
  get?_eq : ∀ entries, s.entries? methods = some entries → ∃ entries',
    t.entries? methods = some entries' ∧
      ∀ method : Method, entries'.get? method.text = entries.get? method.text
  content : ∀ entries, s.entries? methods = some entries → ∀ (method : Method) content,
    entries.get? method.text = some content → t.isTruthy content = s.isTruthy content

variable {s t : Store} {path : String} {entries entries' : Entries Value} {method : Method}
  {op : Operation}

theorem of_operationAt? (h : s.operationAt? path entries method = some op) :
    op.path = path ∧ op.method = method ∧ entries.get? method.text = some op.content := by
  unfold operationAt? at h
  split at h
  · next content hget =>
    split at h
    · obtain rfl := Option.some.inj h
      exact ⟨rfl, rfl, hget⟩
    · cases h
  · cases h

theorem operationAt?_eq {methods : Value} (h : s.SameMethods t methods)
    (hentries : s.entries? methods = some entries) (hentries' : t.entries? methods = some entries') :
    t.operationAt? path entries' method = s.operationAt? path entries method := by
  obtain ⟨entries₁, hentries₁, hget⟩ := h.get?_eq entries hentries
  obtain rfl : entries' = entries₁ := Option.some.inj (hentries'.symm.trans hentries₁)
  unfold operationAt?
  rw [hget method]
  cases hcontent : entries.get? method.text with
  | none => rfl
  | some content => simp only [h.content entries hentries method content hcontent]

/-- The operations of paths are those of the first path and then those of the others. -/
theorem pathOperations_cons {key : Scalar} {methods : Value} {rest : Entries Value}
    {ops : List Operation} : s.pathOperations ((key, methods) :: rest) = .ok ops ↔
      ∃ path here later, pathOfKey key = .ok path ∧
        (if s.isTruthy methods then ∃ entries, s.entries? methods = some entries ∧
          here = s.methodOperations path entries else here = []) ∧
        s.pathOperations rest = .ok later ∧ ops = here ++ later := by
  rw [pathOperations]
  cases hpath : pathOfKey key with
  | error m => simp [bind, Except.bind]
  | ok path =>
    cases hrest : s.pathOperations rest with
    | error m =>
      by_cases hpresent : s.isTruthy methods = true <;>
        cases s.entries? methods <;>
          simp [hpresent, bind, Except.bind, pure, Except.pure, throw, throwThe,
            MonadExceptOf.throw]
    | ok later =>
      by_cases hpresent : s.isTruthy methods = true <;>
        cases s.entries? methods <;>
          simp [hpresent, bind, Except.bind, pure, Except.pure, throw, throwThe,
            MonadExceptOf.throw, eq_comm]

theorem pathOperations_singleton {key : Scalar} {methods : Value} {ops : List Operation} :
    s.pathOperations [(key, methods)] = .ok ops ↔ ∃ path, pathOfKey key = .ok path ∧
      if s.isTruthy methods then ∃ entries, s.entries? methods = some entries ∧
        ops = s.methodOperations path entries else ops = [] := by
  rw [pathOperations_cons]
  constructor
  · rintro ⟨path, here, later, hpath, hhere, hlater, rfl⟩
    obtain rfl : [] = later := Except.ok.inj hlater
    exact ⟨path, hpath, by simpa using hhere⟩
  · rintro ⟨path, hpath, hhere⟩
    exact ⟨path, ops, [], hpath, hhere, rfl, by simp⟩

theorem paths_eq_ok {document : Value} {paths : Entries Value} :
    s.paths document = .ok paths ↔ ∃ root, s.entries? document = some root ∧
      if s.isTruthy ((root.get? "paths").getD .null) then
        s.entries? ((root.get? "paths").getD .null) = some paths
      else paths = [] := by
  unfold Store.paths
  cases hroot : s.entries? document with
  | none => simp
  | some root =>
    by_cases hpresent : s.isTruthy ((root.get? "paths").getD .null) = true
    · cases hpaths : s.entries? ((root.get? "paths").getD .null) <;> simp [hpresent, hpaths]
    · simp [hpresent, @eq_comm _ _ paths]

theorem operations_eq_ok {document : Value} {ops : List Operation} :
    s.operations document = .ok ops ↔
      ∃ paths, s.paths document = .ok paths ∧ s.pathOperations paths = .ok ops := by
  unfold operations
  cases s.paths document <;> simp [bind, Except.bind]

/-- Only what the paths declare is an operation of them. -/
theorem declares_of_mem {paths : Entries Value} {ops : List Operation}
    (h : s.pathOperations paths = .ok ops) (hop : op ∈ ops) : s.Declares paths op := by
  induction paths generalizing ops with
  | nil =>
    obtain rfl : [] = ops := Except.ok.inj h
    simp at hop
  | cons e rest ih =>
    obtain ⟨path, here, later, hpath, hhere, hlater, rfl⟩ := pathOperations_cons.mp h
    rcases List.mem_append.mp hop with hmem | hmem
    · split at hhere
      · obtain ⟨entries, hentries, rfl⟩ := hhere
        rw [methodOperations_eq, List.mem_filterMap] at hmem
        obtain ⟨method, -, hat⟩ := hmem
        obtain ⟨rfl, rfl, hget⟩ := of_operationAt? hat
        exact ⟨e, List.mem_cons_self, hpath, entries, hentries, hget⟩
      · simp [hhere] at hmem
    · obtain ⟨e', he', hdeclared⟩ := ih hlater hmem
      exact ⟨e', List.mem_cons_of_mem _ he', hdeclared⟩

/-- Paths that declare the same methods have the same operations. -/
theorem pathOperations_eq {paths : Entries Value} (h : ∀ e ∈ paths, s.SameMethods t e.2) :
    t.pathOperations paths = s.pathOperations paths := by
  induction paths with
  | nil => rfl
  | cons e rest ih =>
    obtain ⟨key, methods⟩ := e
    have hsame := h (key, methods) List.mem_cons_self
    rw [pathOperations, pathOperations, ih fun e he => h e (List.mem_cons_of_mem _ he),
      hsame.isTruthy_eq]
    cases hentries : s.entries? methods with
    | none => rw [hsame.entries?_eq_none hentries]
    | some entries =>
      obtain ⟨entries', hentries', -⟩ := hsame.get?_eq entries hentries
      have heq : ∀ path, t.methodOperations path entries' = s.methodOperations path entries :=
        fun path => by
          simp only [methodOperations_eq]
          exact List.filterMap_congr fun method _ => operationAt?_eq hsame hentries hentries'
      simp only [hentries', heq]

end Store

namespace Edit

variable {s s' t t' : Store} {path : String} {methods : Value} {entries : Entries Value} {n : Nat}
  {visit : Operation → Edit Unit} {I : Store → Prop}

@[simp] theorem runs_forM_nil {u : Unit} :
    Runs (([] : List Operation).forM visit) s u s' ↔ s = s' := by
  simp

@[simp] theorem runs_forM_cons {u : Unit} {op : Operation} {ops : List Operation} :
    Runs ((op :: ops).forM visit) s u s' ↔
      ∃ t, Runs (visit op) s () t ∧ Runs (ops.forM visit) t u s' := by
  change Runs (visit op >>= fun _ => ops.forM visit) s u s' ↔ _
  rw [runs_bind]
  constructor
  · rintro ⟨⟨⟩, t, hop, hrest⟩
    exact ⟨t, hop, hrest⟩
  · rintro ⟨t, hop, hrest⟩
    exact ⟨⟨⟩, t, hop, hrest⟩

theorem runs_forM_append {u : Unit} {ops others : List Operation} :
    Runs ((ops ++ others).forM visit) s u s' ↔
      ∃ t, Runs (ops.forM visit) s () t ∧ Runs (others.forM visit) t u s' := by
  induction ops generalizing s with
  | nil => simp
  | cons op ops ih =>
    rw [List.cons_append, runs_forM_cons]
    simp only [ih, runs_forM_cons]
    constructor
    · rintro ⟨t, hop, t', hops, hothers⟩
      exact ⟨t', ⟨t, hop, hops⟩, hothers⟩
    · rintro ⟨t', ⟨t, hop, hops⟩, hothers⟩
      exact ⟨t, hop, t', hops, hothers⟩

/-- Visiting operations keeps what each visit keeps. -/
theorem Runs.forM_induct {u : Unit} {ops : List Operation} (h : Runs (ops.forM visit) s u s')
    (hinit : I s) (hvisit : ∀ op ∈ ops, ∀ t u t', I t → Runs (visit op) t u t' → I t') : I s' := by
  induction ops generalizing s with
  | nil =>
    obtain rfl := runs_forM_nil.mp h
    exact hinit
  | cons op ops ih =>
    obtain ⟨t, hop, hrest⟩ := runs_forM_cons.mp h
    exact ih hrest (hvisit op List.mem_cons_self s () t hinit hop)
      fun op hmem => hvisit op (List.mem_cons_of_mem _ hmem)

/-- What is no object has no methods to visit. -/
theorem not_runs_visitMethods (h : s.entries? methods = none) :
    ¬ Runs (visitMethods path methods visit Method.all) s n s' := by
  intro hrun
  obtain ⟨_, _, hfield, -⟩ := runs_bind.mp hrun
  obtain ⟨⟨id, entries, hshape, -⟩, -⟩ := runs_fieldOf.mp hfield
  rw [Store.entries?_eq_some.mpr ⟨id, hshape⟩] at h
  cases h

/-- Visiting the methods of a path visits the operations that it declared in the store `s`. -/
theorem runs_visitMethods {remaining : List Method} (hsame : ∀ t, I t → s.SameMethods t methods)
    (hentries : s.entries? methods = some entries)
    (hvisit : ∀ op, op.path = path → entries.get? op.method.text = some op.content →
      ∀ t u t', I t → Runs (visit op) t u t' → I t') (hI : I t) :
    Runs (visitMethods path methods visit remaining) t n t' ↔
      n = (remaining.filterMap (s.operationAt? path entries)).length ∧
        Runs ((remaining.filterMap (s.operationAt? path entries)).forM visit) t () t' := by
  induction remaining generalizing t n with
  | nil =>
    simp only [List.filterMap_nil, List.length_nil, runs_forM_nil]
    exact runs_pure.trans (and_congr_left' eq_comm)
  | cons method rest ih =>
    obtain ⟨entries', hentries', hget⟩ := (hsame t hI).get?_eq entries hentries
    obtain ⟨id, hshape⟩ := Store.entries?_eq_some.mp hentries'
    have hfield : Runs (fieldOf methods method.text) t ((entries.get? method.text).getD .null) t :=
      runs_fieldOf.mpr ⟨⟨id, entries', hshape, by rw [hget]⟩, rfl⟩
    refine hfield.bind_iff.trans ?_
    rw [Runs.bind_iff (a := t.isTruthy ((entries.get? method.text).getD .null))
      (runs_isTruthy.mpr ⟨rfl, rfl⟩)]
    cases hcontent : entries.get? method.text with
    | none =>
      have hnone : s.operationAt? path entries method = none := by
        simp [Store.operationAt?, hcontent]
      rw [List.filterMap_cons_none hnone, Option.getD_none, if_neg (by simp [Store.isTruthy, Store.shape, Scalar.isTruthy])]
      exact ih hI
    | some content =>
      rw [Option.getD_some, (hsame t hI).content entries hentries method content hcontent]
      by_cases htruthy : s.isTruthy content = true
      · have hsome : s.operationAt? path entries method =
            some { path, method, id := s!"{method.text}_{pathId path}", content } := by
          simp [Store.operationAt?, hcontent, htruthy]
        rw [List.filterMap_cons_some hsome, if_pos htruthy]
        simp only [runs_bind, runs_pure, runs_forM_cons, List.length_cons]
        constructor
        · rintro ⟨_, t₁, hop, m, t₂, hrest, rfl, rfl⟩
          obtain ⟨rfl, hlater⟩ := (ih (hvisit _ rfl hcontent _ _ _ hI hop)).mp hrest
          exact ⟨rfl, t₁, hop, hlater⟩
        · rintro ⟨rfl, t₁, hop, hrest⟩
          exact ⟨_, t₁, hop, _, t', (ih (hvisit _ rfl hcontent _ _ _ hI hop)).mpr ⟨rfl, hrest⟩, rfl, rfl⟩
      · have hnone : s.operationAt? path entries method = none := by
          simp [Store.operationAt?, hcontent, htruthy]
        rw [List.filterMap_cons_none hnone, if_neg htruthy]
        exact ih hI

/-- Visits the operations of one path and adds their number to a count. -/
def visitPath (visit : Operation → Edit Unit) (count : Nat) (key : Scalar) (methods : Value) :
    Edit Nat := do
  let path ← ofExcept (pathOfKey key)
  if ← isTruthy methods then return count + (← visitMethods path methods visit Method.all)
  else return count

/-- Visiting the methods of a path keeps what each visit keeps of an operation that is declared at
its time. -/
theorem Runs.visitMethods_induct {remaining : List Method}
    (h : Runs (visitMethods path methods visit remaining) t n t') (hI : I t)
    (hvisit : ∀ (op : Operation) t id entries u t', I t → t.shape methods = .object id entries →
      entries.get? op.method.text = some op.content → Runs (visit op) t u t' → I t') : I t' := by
  induction remaining generalizing t n with
  | nil =>
    obtain ⟨-, rfl⟩ := runs_pure.mp h
    exact hI
  | cons method rest ih =>
    obtain ⟨content, _, hfield, h⟩ := runs_bind.mp h
    obtain ⟨⟨id, entries, hshape, hcontent⟩, rfl⟩ := runs_fieldOf.mp hfield
    obtain ⟨present, _, hpresent, h⟩ := runs_bind.mp h
    obtain ⟨htruthy, rfl⟩ := runs_isTruthy.mp hpresent
    split at h
    · next hc =>
      obtain ⟨_, t₁, hop, h⟩ := runs_bind.mp h
      obtain ⟨m, t₂, hrest, h⟩ := runs_bind.mp h
      obtain ⟨-, rfl⟩ := runs_pure.mp h
      refine ih hrest (hvisit _ t id entries _ t₁ hI hshape ?_ hop)
      cases hget : entries.get? method.text with
      | none =>
        rw [hget, Option.getD_none] at hcontent
        rw [← hcontent] at htruthy
        simp [Store.isTruthy, Store.shape, Scalar.isTruthy, hc] at htruthy
      | some w => simpa [hget] using hcontent
    · exact ih h hI

/-- Visiting a path keeps what each visit keeps of an operation that is declared at its time. -/
theorem Runs.visitPath_induct {key : Scalar} {m : Nat}
    (h : Runs (visitPath visit m key methods) t n t') (hI : I t)
    (hvisit : ∀ (op : Operation) t id entries u t', I t → t.shape methods = .object id entries →
      entries.get? op.method.text = some op.content → Runs (visit op) t u t' → I t') : I t' := by
  rw [visitPath, runs_bind] at h
  obtain ⟨path, _, hpath, h⟩ := h
  obtain ⟨-, rfl⟩ := runs_ofExcept.mp hpath
  obtain ⟨present, _, hpresent, h⟩ := runs_bind.mp h
  obtain ⟨-, rfl⟩ := runs_isTruthy.mp hpresent
  split at h
  · obtain ⟨k, t₁, hmethods, h⟩ := runs_bind.mp h
    obtain ⟨-, rfl⟩ := runs_pure.mp h
    exact hmethods.visitMethods_induct hI hvisit
  · obtain ⟨-, rfl⟩ := runs_pure.mp h
    exact hI

/-- A path that is declared to be present and yet no object is not visited. -/
theorem not_runs_visitPath {key : Scalar} {m : Nat} (htruthy : t.isTruthy methods = true)
    (h : t.entries? methods = none) : ¬ Runs (visitPath visit m key methods) t n t' := by
  intro hrun
  rw [visitPath, runs_bind] at hrun
  obtain ⟨path, _, hpath, hrun⟩ := hrun
  obtain ⟨-, rfl⟩ := runs_ofExcept.mp hpath
  obtain ⟨present, _, hpresent, hrun⟩ := runs_bind.mp hrun
  obtain ⟨rfl, rfl⟩ := runs_isTruthy.mp hpresent
  rw [if_pos htruthy, runs_bind] at hrun
  obtain ⟨_, _, hmethods, -⟩ := hrun
  exact not_runs_visitMethods h hmethods

/-- Visiting a path visits the operations that it declared in the store `s`. -/
theorem runs_visitPath {key : Scalar} {m : Nat} (hsame : ∀ t, I t → s.SameMethods t methods)
    (hvisit : ∀ op, s.Declares [(key, methods)] op →
      ∀ t u t', I t → Runs (visit op) t u t' → I t') (hI : I t) :
    Runs (visitPath visit m key methods) t n t' ↔
      ∃ ops, s.pathOperations [(key, methods)] = .ok ops ∧ n = m + ops.length ∧
        Runs (ops.forM visit) t () t' := by
  unfold visitPath
  simp only [Store.pathOperations_singleton]
  cases hpath : pathOfKey key with
  | error f => simp only [runs_bind, runs_ofExcept, reduceCtorEq, false_and, exists_false]
  | ok path =>
    have hkey : Runs (ofExcept (.ok path)) t path t := runs_ofExcept.mpr ⟨rfl, rfl⟩
    have htruthy : Runs (isTruthy methods) t (s.isTruthy methods) t :=
      runs_isTruthy.mpr ⟨(hsame t hI).isTruthy_eq, rfl⟩
    rw [hkey.bind_iff, htruthy.bind_iff]
    by_cases hpresent : s.isTruthy methods = true
    · simp only [if_pos hpresent]
      cases hentries : s.entries? methods with
      | none =>
        simp only [runs_bind, not_runs_visitMethods ((hsame t hI).entries?_eq_none hentries),
          reduceCtorEq, false_and, and_false, exists_false]
      | some entries =>
        have hmethods (k : Nat) (t₂ : Store) :
            Runs (visitMethods path methods visit Method.all) t k t₂ ↔ _ :=
          runs_visitMethods hsame hentries
            (fun op hop hget => hvisit op ⟨_, List.mem_singleton_self _, hop ▸ hpath, entries, hentries,
              hget⟩) hI
        simp only [runs_bind, hmethods, runs_pure]
        constructor
        · rintro ⟨_, _, ⟨rfl, hrun⟩, rfl, rfl⟩
          exact ⟨_, ⟨path, rfl, entries, rfl, rfl⟩, rfl, hrun⟩
        · rintro ⟨_, ⟨_, heq, entries', hentries', rfl⟩, rfl, hrun⟩
          obtain rfl := Except.ok.inj heq
          obtain rfl := Option.some.inj hentries'
          exact ⟨_, t', ⟨rfl, hrun⟩, rfl, rfl⟩
    · simp only [if_neg hpresent, runs_pure]
      constructor
      · rintro ⟨rfl, rfl⟩
        exact ⟨[], ⟨path, rfl, rfl⟩, rfl, runs_forM_nil.mpr rfl⟩
      · rintro ⟨_, ⟨_, -, rfl⟩, rfl, hrun⟩
        exact ⟨rfl, runs_forM_nil.mp hrun⟩

/-- Visiting the paths behind the first ones visits the operations that they declared in the store
`s`. -/
theorem runs_visitPaths {object : Value} {paths : Entries Value} {remaining m : Nat}
    (hpaths : ∀ t, I t → ∃ id, t.shape object = .object id paths)
    (hsame : ∀ t, I t → ∀ e ∈ paths, s.SameMethods t e.2)
    (hvisit : ∀ op, s.Declares paths op → ∀ t u t', I t → Runs (visit op) t u t' → I t')
    (hle : remaining ≤ paths.length) (hI : I t) :
    Runs (foldLastEntries object (visitPath visit) paths.length remaining m) t n t' ↔
      ∃ ops, s.pathOperations (paths.drop (paths.length - remaining)) = .ok ops ∧
        n = m + ops.length ∧ Runs (ops.forM visit) t () t' := by
  induction remaining generalizing t m with
  | zero =>
    obtain ⟨id, hshape⟩ := hpaths t hI
    have hentries : Runs (entriesOf object) t paths t := runs_entriesOf.mpr ⟨⟨id, hshape⟩, rfl⟩
    rw [foldLastEntries, hentries.bind_iff, if_neg (by simp)]
    simp only [runs_pure, Nat.sub_zero, List.drop_length, Store.pathOperations, Except.ok.injEq]
    constructor
    · rintro ⟨rfl, rfl⟩
      exact ⟨[], rfl, rfl, runs_forM_nil.mpr rfl⟩
    · rintro ⟨_, rfl, rfl, hrest⟩
      exact ⟨rfl, runs_forM_nil.mp hrest⟩
  | succ remaining ih =>
    obtain ⟨id, hshape⟩ := hpaths t hI
    have hentries : Runs (entriesOf object) t paths t := runs_entriesOf.mpr ⟨⟨id, hshape⟩, rfl⟩
    have hlt : paths.length - (remaining + 1) < paths.length := by omega
    rw [foldLastEntries, hentries.bind_iff, if_neg (by simp), List.getElem?_eq_getElem hlt,
      List.drop_eq_getElem_cons hlt,
      show paths.length - (remaining + 1) + 1 = paths.length - remaining by omega]
    have hmem : paths[paths.length - (remaining + 1)] ∈ paths := List.getElem_mem hlt
    generalize paths[paths.length - (remaining + 1)] = e at hmem
    obtain ⟨key, methods⟩ := e
    have hvisit' : ∀ op, s.Declares [(key, methods)] op →
        ∀ t u t', I t → Runs (visit op) t u t' → I t' := by
      rintro op ⟨e, he, hpath, hmethods⟩
      obtain rfl := List.mem_singleton.mp he
      exact hvisit op ⟨_, hmem, hpath, hmethods⟩
    have hfirst (k : Nat) (t₂ : Store) : Runs (visitPath visit m key methods) t k t₂ ↔ _ :=
      runs_visitPath (fun t hI => hsame t hI _ hmem) hvisit' hI
    dsimp only
    rw [runs_bind]
    simp only [hfirst]
    constructor
    · rintro ⟨_, t₁, ⟨ops, hops, rfl, hrun⟩, hlater⟩
      have hI₁ : I t₁ := hrun.forM_induct hI fun op hop => hvisit' op (Store.declares_of_mem hops hop)
      obtain ⟨others, hothers, rfl, hrun'⟩ := (ih (by omega) hI₁).mp hlater
      obtain ⟨path, hpath, hhere⟩ := Store.pathOperations_singleton.mp hops
      exact ⟨ops ++ others, Store.pathOperations_cons.mpr ⟨path, ops, others, hpath, hhere, hothers, rfl⟩,
        by rw [List.length_append, Nat.add_assoc], runs_forM_append.mpr ⟨t₁, hrun, hrun'⟩⟩
    · rintro ⟨_, hall, rfl, hrun⟩
      obtain ⟨path, here, others, hpath, hhere, hothers, rfl⟩ := Store.pathOperations_cons.mp hall
      have hops := Store.pathOperations_singleton.mpr ⟨path, hpath, hhere⟩
      obtain ⟨t₁, hrun₁, hrun₂⟩ := runs_forM_append.mp hrun
      have hI₁ : I t₁ := hrun₁.forM_induct hI fun op hop => hvisit' op (Store.declares_of_mem hops hop)
      exact ⟨_, t₁, ⟨here, hops, rfl, hrun₁⟩, (ih (by omega) hI₁).mpr ⟨others, hothers,
        by rw [List.length_append, Nat.add_assoc], hrun₂⟩⟩

/-- The visit in place visits the operations that the document has in the beginning, if none of the
visits changes the paths or the methods that these declare. -/
theorem runs_visitOperations {document : Value} (hI : I s)
    (hsame : ∀ root object paths, s.entries? document = some root →
      (root.get? "paths").getD .null = object → s.entries? object = some paths → ∀ t, I t →
        t.entries? object = some paths ∧ ∀ e ∈ paths, s.SameMethods t e.2)
    (hvisit : ∀ paths, s.paths document = .ok paths → ∀ op, s.Declares paths op →
      ∀ t u t', I t → Runs (visit op) t u t' → I t') :
    Runs (visitOperations document visit) s n s' ↔
      ∃ ops, s.operations document = .ok ops ∧ n = ops.length ∧ Runs (ops.forM visit) s () s' := by
  simp only [Store.operations_eq_ok, Store.paths_eq_ok] at hvisit ⊢
  rw [visitOperations]
  cases hroot : s.entries? document with
  | none =>
    have hfail : ∀ w t, ¬ Runs (fieldOf document "paths") s w t := by
      intro w t hfield
      obtain ⟨⟨id, entries, hshape, -⟩, -⟩ := runs_fieldOf.mp hfield
      rw [Store.entries?_eq_some.mpr ⟨id, hshape⟩] at hroot
      cases hroot
    simp only [runs_bind, hfail, reduceCtorEq, false_and, exists_false]
  | some root =>
    obtain ⟨id, hshape⟩ := Store.entries?_eq_some.mp hroot
    have hfield : Runs (fieldOf document "paths") s ((root.get? "paths").getD .null) s :=
      runs_fieldOf.mpr ⟨⟨id, root, hshape, rfl⟩, rfl⟩
    rw [hfield.bind_iff, Runs.bind_iff (runs_isTruthy.mpr ⟨rfl, rfl⟩)]
    by_cases hpresent : s.isTruthy ((root.get? "paths").getD .null) = true
    · rw [if_pos hpresent]
      change Runs (foldEntries _ 0 (visitPath visit)) s n s' ↔ _
      cases hpaths : s.entries? ((root.get? "paths").getD .null) with
      | none =>
        have hfail : ¬ Runs (foldEntries ((root.get? "paths").getD .null) 0 (visitPath visit)) s n s' := by
          intro hrun
          obtain ⟨id, entries, hshape⟩ := hrun.exists_shape_of_foldEntries
          rw [Store.entries?_eq_some.mpr ⟨id, hshape⟩] at hpaths
          cases hpaths
        simp [hfail, hpresent, hpaths]
      | some paths =>
        have hopen : Runs (entriesOf ((root.get? "paths").getD .null)) s paths s :=
          runs_entriesOf.mpr ⟨Store.entries?_eq_some.mp hpaths, rfl⟩
        rw [foldEntries, hopen.bind_iff]
        have hrun : Runs (foldLastEntries ((root.get? "paths").getD .null) (visitPath visit) paths.length
            paths.length 0) s n s' ↔ _ := runs_visitPaths
          (fun t hI => Store.entries?_eq_some.mp (hsame root _ paths hroot rfl hpaths t hI).1)
          (fun t hI => (hsame root _ paths hroot rfl hpaths t hI).2)
          (hvisit paths ⟨root, hroot, by rw [if_pos hpresent, hpaths]⟩) le_rfl hI
        rw [Nat.sub_self, List.drop_zero] at hrun
        rw [hrun]
        simp only [if_pos hpresent, hpaths, Nat.zero_add, Option.some.injEq, exists_eq_left']
    · rw [if_neg hpresent]
      simp only [if_neg hpresent, runs_pure, Option.some.injEq, exists_eq_left', exists_eq_left,
        Store.pathOperations, Except.ok.injEq, List.length_nil, runs_forM_nil]
      exact and_congr_left' eq_comm

/-- The paths are visited if they are present. -/
theorem runs_foldPaths {document : Value} {root paths : Entries Value} {id id' : Nat}
    (hroot : s.shape document = .object id root)
    (hpaths : s.shape ((root.get? "paths").getD .null) = .object id' paths) (hne : paths ≠ [])
    (h : Runs (visitOperations document visit) s n s') :
    Runs (foldEntries ((root.get? "paths").getD .null) 0 (visitPath visit)) s n s' := by
  have hfield : Runs (fieldOf document "paths") s ((root.get? "paths").getD .null) s :=
    runs_fieldOf.mpr ⟨⟨id, root, hroot, rfl⟩, rfl⟩
  rwa [visitOperations, hfield.bind_iff, Runs.bind_iff (runs_isTruthy.mpr ⟨rfl, rfl⟩), if_pos] at h
  simpa [Store.isTruthy, hpaths] using hne

end Edit

end DeviceApi
