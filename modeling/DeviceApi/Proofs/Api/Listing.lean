import DeviceApi.Proofs.Api.Visit
import DeviceApi.Proofs.Document.Entries
import Mathlib.Data.List.ProdSigma
import Mathlib.Data.List.Nodup

/-!
# The list of operations

The operations of a document are listed in the order of the paths and, within a path, in the order of the
methods, each of them once. The list depends on few nodes: the root, the paths, their items, and on what the
operations contain only so far as it counts as present.
-/

namespace DeviceApi

theorem Method.text_injective {method method' : Method} (h : method.text = method'.text) :
    method = method' := by
  cases method <;> cases method' <;> simp_all [Method.text]

theorem Method.mem_all (method : Method) : method ∈ Method.all := by
  cases method <;> decide

namespace Store

variable {s t u : Store} {paths entries entries' : Entries Value} {ops : List Operation} {v : Value}
  {path : String} {method : Method}

/-- The paths declare something for a path and a method that counts as present. -/
def Offers (s : Store) (paths : Entries Value) (path : String) (method : Method) : Prop :=
  ∃ item methods content, paths.get? (.text path) = some item ∧ s.entries? item = some methods ∧
    methods.get? method.text = some content ∧ s.isTruthy content = true

/-- The operations are those that the paths offer, each of them once, in the order of the paths and then of
the methods. -/
structure Lists (s : Store) (paths : Entries Value) (ops : List Operation) : Prop where
  order : (ops.map fun op => (Scalar.text op.path, op.method)).Sublist (paths.keys ×ˢ Method.all)
  nodup : (ops.map fun op => (op.path, op.method)).Nodup
  mem_iff : ∀ path method, (∃ op ∈ ops, op.path = path ∧ op.method = method) ↔ s.Offers paths path method
  id_eq : ∀ op ∈ ops, op.id = s!"{op.method.text}_{pathId op.path}"

theorem operationAt?_present {op : Operation} (h : s.operationAt? path entries method = some op) :
    s.isTruthy op.content = true ∧ op.id = s!"{op.method.text}_{pathId op.path}" := by
  unfold operationAt? at h
  split at h
  · split at h
    · next htruthy =>
      obtain rfl := Option.some.inj h
      exact ⟨htruthy, rfl⟩
    · cases h
  · cases h

theorem exists_operationAt? {content : Value} (hget : entries.get? method.text = some content)
    (hcontent : s.isTruthy content = true) (path : String) :
    ∃ op, s.operationAt? path entries method = some op := by
  simp [operationAt?, hget, hcontent]

/-- The methods of an operation of one path come in their order. -/
theorem sublist_methodOperations :
    ((s.methodOperations path entries).map fun op => (Scalar.text op.path, op.method)).Sublist
      (Method.all.map fun method => (Scalar.text path, method)) := by
  rw [methodOperations_eq]
  generalize Method.all = methods
  induction methods with
  | nil => exact .slnil
  | cons method rest ih =>
    cases hat : s.operationAt? path entries method with
    | none =>
      rw [List.filterMap_cons_none hat, List.map_cons]
      exact ih.cons _
    | some op =>
      obtain ⟨hpath, hmethod, -⟩ := of_operationAt? hat
      rw [List.filterMap_cons_some hat, List.map_cons, List.map_cons, hpath, hmethod]
      exact ih.cons_cons _

theorem mem_pathOperations {op : Operation} (h : s.pathOperations paths = .ok ops) :
    op ∈ ops ↔ ∃ e ∈ paths, ∃ path entries, pathOfKey e.1 = .ok path ∧ s.isTruthy e.2 = true ∧
      s.entries? e.2 = some entries ∧ op ∈ s.methodOperations path entries := by
  induction paths generalizing ops with
  | nil =>
    obtain rfl : [] = ops := Except.ok.inj h
    simp
  | cons e rest ih =>
    obtain ⟨path, here, later, hpath, hhere, hlater, rfl⟩ := pathOperations_cons.mp h
    have hfirst : op ∈ here ↔ ∃ path entries, pathOfKey e.1 = .ok path ∧ s.isTruthy e.2 = true ∧
        s.entries? e.2 = some entries ∧ op ∈ s.methodOperations path entries := by
      split at hhere
      · next htruthy =>
        obtain ⟨entries, hentries, rfl⟩ := hhere
        constructor
        · exact fun hop => ⟨path, entries, hpath, htruthy, hentries, hop⟩
        · rintro ⟨path', entries', hpath', -, hentries', hop⟩
          obtain rfl : path = path' := Except.ok.inj (hpath.symm.trans hpath')
          obtain rfl : entries = entries' := Option.some.inj (hentries.symm.trans hentries')
          exact hop
      · next htruthy =>
        simp only [hhere, List.not_mem_nil, false_iff]
        rintro ⟨_, _, -, h, -⟩
        exact htruthy h
    rw [List.mem_append, List.exists_mem_cons_iff, hfirst, ih hlater]

/-- The pairs of path and method come in the order of the paths and then of the methods. -/
theorem sublist_pathOperations (hkeys : ∀ key ∈ paths.keys, ∃ path, key = .text path)
    (h : s.pathOperations paths = .ok ops) :
    (ops.map fun op => (Scalar.text op.path, op.method)).Sublist (paths.keys ×ˢ Method.all) := by
  induction paths generalizing ops with
  | nil =>
    obtain rfl : [] = ops := Except.ok.inj h
    exact .slnil
  | cons e rest ih =>
    obtain ⟨path, here, later, hpath, hhere, hlater, rfl⟩ := pathOperations_cons.mp h
    obtain ⟨key, hkey⟩ := hkeys e.1 List.mem_cons_self
    obtain rfl : key = path := by simpa [hkey, pathOfKey] using hpath
    have hfirst : (here.map fun op => (Scalar.text op.path, op.method)).Sublist
        (Method.all.map fun method => (e.1, method)) := by
      split at hhere
      · obtain ⟨entries, -, rfl⟩ := hhere
        exact hkey ▸ sublist_methodOperations
      · simp [hhere]
    rw [List.map_append, Entries.keys_cons, List.product_cons]
    exact hfirst.append (ih (fun key hmem => hkeys key (List.mem_cons_of_mem _ hmem)) hlater)

/-- The operations of paths under different texts are listed. -/
theorem lists_of_pathOperations (hkeyed : paths.TextKeyed) (h : s.pathOperations paths = .ok ops) :
    s.Lists paths ops := by
  have horder := sublist_pathOperations hkeyed.exists_text h
  refine ⟨horder, ?_, fun path method => ⟨?_, ?_⟩, fun op hop => ?_⟩
  · have hall : Method.all.Nodup := by decide
    have hpairs := horder.nodup (hkeyed.nodup.product hall)
    have hmap : (ops.map fun op => (Scalar.text op.path, op.method)) =
        (ops.map fun op => (op.path, op.method)).map (Prod.map Scalar.text id) := by
      rw [List.map_map]
      rfl
    exact (hmap ▸ hpairs).of_map _
  · rintro ⟨op, hop, rfl, rfl⟩
    obtain ⟨e, he, path, methods, hpath, -, hmethods, hmem⟩ := (mem_pathOperations h).mp hop
    rw [methodOperations_eq, List.mem_filterMap] at hmem
    obtain ⟨method, -, hat⟩ := hmem
    obtain ⟨rfl, rfl, hget⟩ := of_operationAt? hat
    obtain ⟨key, hkey⟩ := hkeyed.exists_text e.1 (List.mem_map_of_mem he)
    obtain rfl : key = op.path := by simpa [hkey, pathOfKey] using hpath
    exact ⟨e.2, methods, op.content, Entries.get?_of_mem hkeyed.nodup (hkey ▸ he), hmethods, hget,
      (operationAt?_present hat).1⟩
  · rintro ⟨item, methods, content, hitem, hmethods, hget, hcontent⟩
    obtain ⟨op, hat⟩ := exists_operationAt? hget hcontent path
    obtain ⟨hpath, hmethod, -⟩ := of_operationAt? hat
    have htruthy : s.isTruthy item = true := by
      obtain ⟨id, hshape⟩ := entries?_eq_some.mp hmethods
      rw [isTruthy, hshape]
      cases methods with
      | nil => simp at hget
      | cons e rest => rfl
    refine ⟨op, (mem_pathOperations h).mpr ⟨_, Entries.mem_of_get? hitem, path, methods, rfl, htruthy,
      hmethods, ?_⟩, hpath, hmethod⟩
    rw [methodOperations_eq, List.mem_filterMap]
    exact ⟨method, method.mem_all, hat⟩
  · obtain ⟨e, he, path, methods, -, -, -, hmem⟩ := (mem_pathOperations h).mp hop
    rw [methodOperations_eq, List.mem_filterMap] at hmem
    obtain ⟨method, -, hat⟩ := hmem
    exact (operationAt?_present hat).2

/-! ## Two stores -/

theorem SameMethods.trans (h : s.SameMethods t v) (h' : t.SameMethods u v) : s.SameMethods u v where
  isTruthy_eq := h'.isTruthy_eq.trans h.isTruthy_eq
  entries?_eq_none hnone := h'.entries?_eq_none (h.entries?_eq_none hnone)
  get?_eq entries hentries := by
    obtain ⟨entries', hentries', hget⟩ := h.get?_eq entries hentries
    obtain ⟨entries'', hentries'', hget'⟩ := h'.get?_eq entries' hentries'
    exact ⟨entries'', hentries'', fun method => (hget' method).trans (hget method)⟩
  content entries hentries method content hcontent := by
    obtain ⟨entries', hentries', hget⟩ := h.get?_eq entries hentries
    exact (h'.content entries' hentries' method content ((hget method).trans hcontent)).trans
      (h.content entries hentries method content hcontent)

/-- The same methods are declared where the nodes of a path and of its methods stay. -/
theorem SameMethods.of_agree (hv : ∀ i, v = .node i → t.cells[i]? = s.cells[i]?)
    (hcontent : ∀ entries, s.entries? v = some entries → ∀ (method : Method) x,
      entries.get? method.text = some (.node x) → t.cells[x]? = s.cells[x]?) : s.SameMethods t v := by
  have hshape : ∀ {w : Value}, (∀ i, w = .node i → t.cells[i]? = s.cells[i]?) → t.shape w = s.shape w := by
    rintro (a | i) hw
    · rfl
    · simp only [shape, hw i rfl]
  refine ⟨by simp only [isTruthy, hshape hv], fun hnone => ?_, fun entries hentries => ⟨entries, ?_, fun _ => rfl⟩,
    fun entries hentries method content hget => ?_⟩
  · simpa only [entries?, hshape hv] using hnone
  · simpa only [entries?, hshape hv] using hentries
  · have hsame := hshape (w := content) fun x hx => hcontent entries hentries method x (hx ▸ hget)
    simp only [isTruthy, hsame]

/-- A document keeps its operations where the paths and what counts as a method in them stay. -/
theorem operations_of_sameMethods {document : Value} (hentries : s.entries? document = some entries)
    (hentries' : t.entries? document = some entries') (hget : entries'.get? "paths" = entries.get? "paths")
    (htruthy : t.isTruthy ((entries.get? "paths").getD .null) = s.isTruthy ((entries.get? "paths").getD .null))
    (hpaths : ∀ paths, s.entries? ((entries.get? "paths").getD .null) = some paths →
      t.entries? ((entries.get? "paths").getD .null) = some paths ∧ ∀ e ∈ paths, s.SameMethods t e.2)
    (h : s.operations document = .ok ops) : t.operations document = .ok ops := by
  obtain ⟨paths, hlisted, hops⟩ := operations_eq_ok.mp h
  obtain ⟨entries₁, hentries₁, hcases⟩ := paths_eq_ok.mp hlisted
  obtain rfl : entries = entries₁ := Option.some.inj (hentries.symm.trans hentries₁)
  have hagain : t.paths document = .ok paths ∧ t.pathOperations paths = .ok ops := by
    rw [paths_eq_ok]
    by_cases hpresent : s.isTruthy ((entries.get? "paths").getD .null) = true
    · rw [if_pos hpresent] at hcases
      obtain ⟨hsame, hmethods⟩ := hpaths paths hcases
      refine ⟨⟨entries', hentries', ?_⟩, by rw [pathOperations_eq hmethods, hops]⟩
      rw [hget, htruthy, if_pos hpresent]
      exact hsame
    · rw [if_neg hpresent] at hcases
      subst hcases
      refine ⟨⟨entries', hentries', ?_⟩, hops⟩
      rw [hget, htruthy, if_neg hpresent]
  exact operations_eq_ok.mpr ⟨paths, hagain⟩

end Store

end DeviceApi
