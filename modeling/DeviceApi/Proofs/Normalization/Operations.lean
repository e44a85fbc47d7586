import DeviceApi.Proofs.Api.Listing
import DeviceApi.Proofs.Api.Marks
import DeviceApi.Proofs.Normalization.Output

/-!
# The operations of a normalized document

No stage of normalization adds, drops or moves an operation: the root, the paths and what lies on the way to
the operations are gates, and the stages behind classification leave the gates as they are. The operations
keep the marks that classification has given them.
-/

namespace DeviceApi

/-- The paths of a document are under texts. -/
theorem Store.TextKeyed.paths {s : Store} {document : Value} {paths : Entries Value} (h : s.TextKeyed)
    (hdocument : s.paths document = .ok paths) : paths.TextKeyed := by
  obtain ⟨entries, -, hpaths⟩ := Store.paths_eq_ok.mp hdocument
  split at hpaths
  · obtain ⟨p, hshape⟩ := Store.entries?_eq_some.mp hpaths
    exact h p paths (Store.shape_eq_object.mp hshape).2
  · subst hpaths
    exact ⟨by simp, by simp⟩

/-- An operation of a normalized document has a handle for every role, it tells how its request is sent, and
if there is a source of names it has the name of its path. -/
structure Store.Normal (s : Store) (names : Option MethodNames) (op : Operation) : Prop where
  handle : ∀ role : Role, ∃ i, s.field? op.content (.text role.operationKey) = some (.node i)
  encoding : s.field? op.content (.text encodingKey) = some (.text op.method.encoding.text)
  name : ∀ source, names = some source → ∃ name, source.resolvePath op.path = .ok name ∧
    s.field? op.content (.text methodNameKey) = some (.text name)

namespace Edit

variable {root T c p : Nat} {s s' t : Store} {n : Nat} {g : Gate} {table : SchemaTable}
  {names : Option MethodNames} {entries : Entries Value} {ops : List Operation}

/-- Opening the table of a tidy document leaves its operations as they are. -/
theorem operations_of_openTable (htidy : s.Tidy root) (h : Runs (openTable (.node root)) s table s')
    (hops : s'.operations (.node root) = .ok ops) : s.operations (.node root) = .ok ops := by
  obtain ⟨htidy', c, before, after, inner, hbefore, hafter, hget, hcomponents, -, -, hagree⟩ :=
    cells_openTable h htidy
  have hc : s'.Stands root (some (.text "components")) c := stands_of_get? hafter hcomponents
  -- What lies below the paths was there before, and it is neither the root nor the components.
  have hbelow : ∀ {i key x}, (i < s.cells.size ∧ i ≠ root ∧ i ≠ c) → s'.Stands i key x →
      x < s.cells.size ∧ x ≠ root ∧ x ≠ c := by
    rintro i key x ⟨hlt, hroot, hi⟩ hx
    have hold := htidy.inside i key x (hx.of_cell_eq (hagree i hroot hi hlt).symm)
    refine ⟨hold.1, hold.2, ?_⟩
    rintro rfl
    exact hroot (htidy'.unique _ _ _ _ _ hx hc).1
  have hpaths : ∀ p, (after.get? "paths").getD .null = .node p → p < s.cells.size ∧ p ≠ root ∧ p ≠ c := by
    intro p hp
    rw [Store.getD_eq_node] at hp
    have hold := htidy.inside _ _ _ (stands_of_get? hbefore ((hget "paths" (by decide)).symm.trans hp))
    refine ⟨hold.1, hold.2, ?_⟩
    rintro rfl
    have hkey := (htidy'.unique _ _ _ _ _ (stands_of_get? hafter hp) hc).2
    simp at hkey
  have hshape : ∀ {v : Value}, (∀ i, v = .node i → i < s.cells.size ∧ i ≠ root ∧ i ≠ c) →
      s.shape v = s'.shape v := by
    rintro (a | i) hv
    · rfl
    · obtain ⟨hlt, hroot, hi⟩ := hv i rfl
      simp only [Store.shape, hagree i hroot hi hlt]
  refine Store.operations_of_sameMethods (Store.entries?_eq_some.mpr ⟨root, Store.shape_node hafter⟩)
    (Store.entries?_eq_some.mpr ⟨root, Store.shape_node hbefore⟩) (hget "paths" (by decide)).symm
    (by simp only [Store.isTruthy, hshape hpaths]) (fun paths hentries => ?_) hops
  obtain ⟨p, hp⟩ := Store.entries?_eq_some.mp hentries
  obtain ⟨hnode, hcell⟩ := Store.shape_eq_object.mp hp
  refine ⟨by rw [Store.entries?, hshape hpaths, ← Store.entries?, hentries], fun e he => ?_⟩
  have hitem : ∀ i, e.2 = .node i → i < s.cells.size ∧ i ≠ root ∧ i ≠ c := fun i hi =>
    hbelow (hpaths p hnode) ((Store.stands_object hcell).mpr ⟨e.1, rfl, by rw [← hi]; exact he⟩)
  refine .of_agree (fun i hi => ?_) fun methods hmethods method x hx => ?_
  · obtain ⟨hlt, hroot, hne⟩ := hitem i hi
    exact (hagree i hroot hne hlt).symm
  · obtain ⟨i, hshape'⟩ := Store.entries?_eq_some.mp hmethods
    obtain ⟨hi, hcell'⟩ := Store.shape_eq_object.mp hshape'
    obtain ⟨hlt, hroot, hne⟩ := hbelow (hitem i hi) (stands_of_get? hcell' hx)
    exact (hagree x hroot hne hlt).symm

theorem Mark.of_handle {op : Operation} {role : Role} {v : Value} (h : Mark names op role.operationKey v) :
    ∃ i, v = .node i := by
  generalize hkey : role.operationKey = key at h
  cases h with
  | handle role j => exact ⟨j, rfl⟩
  | encoding => exact absurd hkey (by cases role <;> decide)
  | name => exact absurd hkey (by cases role <;> decide)

theorem Mark.of_encoding {op : Operation} {v : Value} (h : Mark names op encodingKey v) :
    v = .text op.method.encoding.text := by
  generalize hkey : encodingKey = key at h
  cases h with
  | handle role j => exact absurd hkey (by cases role <;> decide)
  | encoding => rfl
  | name => exact absurd hkey (by decide)

theorem Mark.of_name {op : Operation} {source : MethodNames} {v : Value}
    (h : Mark (some source) op methodNameKey v) :
    ∃ name, source.resolvePath op.path = .ok name ∧ v = .text name := by
  generalize hkey : methodNameKey = key at h
  cases h with
  | handle role j => exact absurd hkey (by cases role <;> decide)
  | encoding => exact absurd hkey (by decide)
  | name hsource hname => exact ⟨_, Option.some.inj hsource ▸ hname, rfl⟩

/-- The marks of an operation are what makes it normal. -/
theorem Marked.normal {op : Operation} (h : Marked s names op) : s.Normal names op where
  handle role := by
    obtain ⟨v, hv, hmark⟩ := h _ (operationKey_mem_markKeys role)
    obtain ⟨i, rfl⟩ := hmark.of_handle
    exact ⟨i, hv⟩
  encoding := by
    obtain ⟨v, hv, hmark⟩ := h _ encodingKey_mem_markKeys
    exact hmark.of_encoding ▸ hv
  name source hsource := by
    subst hsource
    obtain ⟨v, hv, hmark⟩ := h methodNameKey (by simp [markKeys])
    obtain ⟨name, hname, rfl⟩ := hmark.of_name
    exact ⟨name, hname, hv⟩

/-- The marks of an operation are in one node. -/
theorem Marked.of_agree {op : Operation} (h : Marked s names op)
    (hagree : ∀ i, op.content = .node i → t.cells[i]? = s.cells[i]?) : Marked t names op := by
  intro key hkey
  obtain ⟨v, hfield, hmark⟩ := h key hkey
  refine ⟨v, ?_, hmark⟩
  obtain ⟨i, entries, hshape, hget⟩ := Store.field?_eq_some.mp hfield
  obtain ⟨hi, hcell⟩ := Store.shape_eq_object.mp hshape
  exact Store.field?_eq_some.mpr ⟨i, entries, hi ▸ Store.shape_node ((hagree i hi).trans hcell), hget⟩

namespace Opened

variable (h : Opened s root c T entries)
include h

/-- The table does not stand on the way to an operation. -/
theorem node_ne_table (hp : entries.get? "paths" = some (.node p)) (hg : OperationGate s p g) :
    g.node ≠ T := by
  obtain ⟨outer, houter, hcomponents⟩ := h.gated.stands ⟨root, "components", c⟩
    (mem_documentGates.mpr (.inr (.inl rfl)))
  obtain ⟨inner, hinner, hschemas⟩ := h.gated.stands ⟨c, "schemas", T⟩
    (mem_documentGates.mpr (.inr (.inr rfl)))
  obtain ⟨methods, hcell, hget⟩ := hg.stands
  have howner : g.owner ≠ c := h.owner_ne hp hg
    (.inr (.inl ⟨stands_of_get? houter hcomponents, by simp⟩))
  intro heq
  exact howner (h.tidy.unique _ _ _ _ _ (heq ▸ stands_of_get? hcell hget)
    (stands_of_get? hinner hschemas)).1

/-- What an operation contains tells its path and its method. -/
theorem content_unique {paths : Entries Value} {op op' : Operation} {i : Nat}
    (hdocument : s.paths (.node root) = .ok paths) (hop : s.Declares paths op) (hop' : s.Declares paths op')
    (hi : op.content = .node i) (hi' : op'.content = .node i) :
    op'.path = op.path ∧ op'.method = op.method := by
  obtain ⟨entries', hentries, hpaths⟩ := Store.paths_eq_ok.mp hdocument
  obtain rfl : entries = entries' := by
    simpa [Store.entries?_eq_some.mpr ⟨_, Store.shape_node h.cell⟩] using hentries
  obtain ⟨e, he, hpath, methods, hmethods, hget⟩ := hop
  obtain ⟨e', he', hpath', methods', hmethods', hget'⟩ := hop'
  split at hpaths
  case isFalse => simp [hpaths] at he
  obtain ⟨p, hshape⟩ := Store.entries?_eq_some.mp hpaths
  obtain ⟨-, hcell⟩ := Store.shape_eq_object.mp hshape
  obtain ⟨x, hshape⟩ := Store.entries?_eq_some.mp hmethods
  obtain ⟨x', hshape'⟩ := Store.entries?_eq_some.mp hmethods'
  obtain ⟨hx, hmethods⟩ := Store.shape_eq_object.mp hshape
  obtain ⟨hx', hmethods'⟩ := Store.shape_eq_object.mp hshape'
  obtain ⟨rfl, hmethod⟩ := h.tidy.unique _ _ _ _ _ (stands_of_get? hmethods (hi ▸ hget))
    (stands_of_get? hmethods' (hi' ▸ hget'))
  have hkey : some e.1 = some e'.1 := (h.tidy.unique _ _ _ _ _
    ((Store.stands_object hcell).mpr ⟨e.1, rfl, by rw [← hx]; exact he⟩)
    ((Store.stands_object hcell).mpr ⟨e'.1, rfl, by rw [← hx']; exact he'⟩)).2
  rw [Option.some.inj hkey] at hpath
  exact ⟨Except.ok.inj (hpath'.symm.trans hpath), (Method.text_injective (by simpa using hmethod)).symm⟩

variable (hnode : table.schemas = .node T)
  (hall : Runs (visitOperations (.node root) (classifyAndName (.node root) table names)) s n s')
include hnode hall

/-- What does not change the root and the gates but for the table leaves the operations of a classified
document as they were before. -/
theorem operations_of_agree (hroot : t.cells[root]? = s'.cells[root]?)
    (hagree : ∀ g ∈ deepGates s root (entries.get? "paths") c T, g.node ≠ T →
      t.cells[g.node]? = s'.cells[g.node]?) (hops : s.operations (.node root) = .ok ops) :
    t.operations (.node root) = .ok ops := by
  obtain ⟨-, K, registered, -, -, hclassifies⟩ := h.classifies hnode hall
  have hreached : Reached s root c T entries s' := ⟨K, registered, hclassifies.of_subset documentGates_subset⟩
  obtain ⟨-, hrootTable, -⟩ := ne_of_gated (h.gated.of_subset tableGates_subset)
  obtain ⟨entries', hcell', houtlasts⟩ := hclassifies.object h.cell
  have hpathsGate : ∀ p, entries.get? "paths" = some (.node p) →
      (⟨root, "paths", p⟩ : Gate) ∈ deepGates s root (entries.get? "paths") c T ∧ p ≠ T := fun p hp =>
    ⟨documentGates_subset (mem_documentGates.mpr (.inl ⟨p, hp, rfl⟩)),
      (paths_ne_of_gated (hp ▸ h.gated)).2⟩
  have hshape : t.shape ((entries.get? "paths").getD .null) = s'.shape ((entries.get? "paths").getD .null) := by
    cases hp : (entries.get? "paths").getD .null with
    | scalar a => rfl
    | node p =>
      obtain ⟨hgate, hne⟩ := hpathsGate p (Store.getD_eq_node.mp hp)
      simp only [Store.shape, hagree _ hgate hne]
  refine Store.operations_of_sameMethods (Store.entries?_eq_some.mpr ⟨root, Store.shape_node h.cell⟩)
    (Store.entries?_eq_some.mpr ⟨root, Store.shape_node (hroot.trans hcell')⟩)
    (houtlasts.get?_eq "paths" (by decide) fun heq => absurd heq.symm hrootTable) ?_ (fun paths hpaths => ?_) hops
  · have hlinked : View.Linked ⟨s, {i | i < s.cells.size}⟩ ((entries.get? "paths").getD .null) :=
      h.gated.linked_field (fun x hx => by
        obtain rfl : root = x := by simpa using hx
        exact h.gated.root_known) (Store.shape_node h.cell)
    rw [← hclassifies.isTruthy_eq h.gated_deepGates hlinked fun heq =>
      (hpathsGate T (Store.getD_eq_node.mp heq)).2 rfl]
    simp only [Store.isTruthy, hshape]
  · obtain ⟨hsame, hmethods⟩ := h.sameMethods hnode hall hreached hpaths
    refine ⟨by simpa only [Store.entries?, hshape] using hsame, fun e he => (hmethods e he).trans ?_⟩
    obtain ⟨p, hshape⟩ := Store.entries?_eq_some.mp hpaths
    obtain ⟨hp, hcell⟩ := Store.shape_eq_object.mp hshape
    rw [Store.getD_eq_node] at hp
    obtain ⟨key, hkey⟩ := (h.textKeyed p paths hcell).exists_text e.1 (List.mem_map_of_mem he)
    have hget := Entries.get?_of_mem (h.textKeyed p paths hcell).nodup (t := key) (v := e.2) (hkey ▸ he)
    have hgates : ∀ {g}, OperationGate s p g → t.cells[g.node]? = s'.cells[g.node]? := fun hg =>
      hagree _ (.inr ⟨p, hp, hg⟩) (h.node_ne_table hp hg)
    refine .of_agree (fun i hi => hgates (.item hcell (hi ▸ hget))) fun methods hdeclared method x hx => ?_
    cases hbefore : s.entries? e.2 with
    | none =>
      rw [(hmethods e he).entries?_eq_none hbefore] at hdeclared
      cases hdeclared
    | some before =>
      obtain ⟨after, hafter, hsame⟩ := (hmethods e he).get?_eq before hbefore
      obtain rfl : methods = after := Option.some.inj (hdeclared.symm.trans hafter)
      obtain ⟨i, hshape'⟩ := Store.entries?_eq_some.mp hbefore
      obtain ⟨hi, hcell'⟩ := Store.shape_eq_object.mp hshape'
      exact hgates (.content hcell (hi ▸ hget) hcell' ((hsame method).symm.trans hx))

end Opened

end Edit

namespace Procedure

open Edit

variable {root T c : Nat} {s s₁ : Store} {K : Set Nat} {gates : Set Gate} {t t' s' : Session}
  {table : SchemaTable} {names : Option MethodNames} {document catalogue : Tree} {merge : Bool}
  {log : List Log.Record} {result : Normalized} {answer : Replacements × List DuplicateShape}

/-- The stages behind classification leave the root and the gates as they are, but for the table. -/
theorem cells_eq_of_stages (hpassage : Passage root gates) (hgated : View.Gated root gates ⟨s, K⟩)
    (howner : ∀ g ∈ gates, g.owner ≠ T) (hgate : (⟨c, "schemas", T⟩ : Gate) ∈ gates)
    (hnode : table.schemas = .node T) (hstrip : Edit.Runs (stripEnvelopes table) s () s₁)
    (hcanonicalize : Edit.Runs (canonicalizeTable table) s₁ () t.store)
    (hfold : Runs (foldSchemas table catalogue merge) t answer t') :
    (root ≠ T → t'.store.cells[root]? = s.cells[root]?) ∧
      ∀ g ∈ gates, g.node ≠ T → t'.store.cells[g.node]? = s.cells[g.node]? := by
  obtain ⟨K₁, hsub₁, hgated₁, -, hroot₁, hgates₁⟩ :=
    keepsGates_stripEnvelopes howner hnode hgated (hgated.gate_known _ hgate) hpassage hstrip
  obtain ⟨K₂, hsub₂, hgated₂, -, hroot₂, hgates₂⟩ :=
    keepsGates_canonicalizeTable howner hnode hgated₁ (hgated₁.gate_known _ hgate) hpassage hcanonicalize
  refine ⟨fun hne => ?_, fun g hg hne => ?_⟩
  · exact (cells_foldSchemas hfold hnode (hgated₂.lt _ hgated₂.root_known) hne).trans (hroot₂.trans hroot₁)
  · exact (cells_foldSchemas hfold hnode (hgated₂.lt _ (hgated₂.gate_known g hg)) hne).trans
      ((hgates₂ g hg).trans (hgates₁ g hg))

/-- The operations of a normalized document are those that it has had, with their marks. -/
theorem exists_normal_operations (hdocument : document.IsJson)
    (h : Runs (normalize (Store.empty.load document).1 names catalogue merge)
      ⟨(Store.empty.load document).2, log⟩ result s') :
    ∃ ops, (Store.empty.load document).2.operations (Store.empty.load document).1 = .ok ops ∧
      s'.store.operations result.document = .ok ops ∧ ∀ op ∈ ops, s'.store.Normal names op := by
  obtain ⟨table, t, hprepare, t₁, t₂, hstore₁, hfold, hstore₂, hresult⟩ := runs_normalize h
  obtain ⟨root, c, T, entries, s₁, n, s₂, V, s₃, hroot, hnode, hopen, hopened, hvisit, -, -, hstrip, hcanonicalize⟩ :=
    opened_of_prepare hdocument hprepare
  obtain ⟨ops, hops, -, hrun⟩ := (hopened.runs_visitOperations hnode hvisit fun _ _ _ _ => id).mp hvisit
  obtain ⟨-, K, registered, -, -, hclassifies⟩ := hopened.classifies hnode hvisit
  have howner : ∀ g ∈ deepGates s₁ root (entries.get? "paths") c T, g.owner ≠ T := fun _ =>
    hopened.owner_ne_table
  have hgate : (⟨c, "schemas", T⟩ : Gate) ∈ deepGates s₁ root (entries.get? "paths") c T :=
    documentGates_subset (mem_documentGates.mpr (.inr (.inr rfl)))
  have hgated := hclassifies.gated howner hopened.gated_deepGates passage_deepGates
  obtain ⟨-, hrootT, -⟩ := ne_of_gated (hopened.gated.of_subset tableGates_subset)
  obtain ⟨hrootAgree, hagree⟩ := cells_eq_of_stages passage_deepGates hgated howner hgate hnode hstrip
    (hstore₁ ▸ hcanonicalize) hfold
  rw [hstore₂] at hrootAgree hagree
  rw [hresult, hroot]
  refine ⟨ops, operations_of_openTable (Store.tidy_load hroot) hopen hops,
    hopened.operations_of_agree hnode hvisit (hrootAgree hrootT.symm) hagree hops, fun op hop => ?_⟩
  -- No other operation has put its marks where those of this one are, and the stages keep them.
  obtain ⟨paths, hpaths, hlist⟩ := Store.operations_eq_ok.mp hops
  have hdeclares : ∀ op ∈ ops, s₁.Declares paths op := fun op hop => Store.declares_of_mem hlist hop
  have hmarked := marked_of_forM (fun op hop op' hop' i hi hi' =>
    hopened.content_unique hpaths (hdeclares op hop) (hdeclares op' hop') hi hi') hrun op hop
  refine (hmarked.of_agree fun x hx => ?_).normal
  have hcontent := hopened.isContent hpaths (hdeclares op hop) hx
  obtain ⟨g, hg, heq⟩ := hcontent.gate trivial
  obtain rfl : x = g.node := by simpa [hx] using heq
  exact hagree g hg fun hT => ((hcontent.writable g.node hx).2.2 _ hgate).2 hT.symm (by simp [wayKeys])

/-- **Normalization keeps the operations.** Let a JSON document be normalized, with a source of names or
without one. Its operations are in the end what they were in the beginning: those that its paths offer, each
of them once, in the order of the paths and then of the methods. And all of them have their handles, the
encoding of their request and their name. -/
theorem normalize_keeps_operations (hdocument : document.IsJson)
    (h : Runs (normalize (Store.empty.load document).1 names catalogue merge)
      ⟨(Store.empty.load document).2, log⟩ result s') :
    let start := Store.empty.load document
    ∃ paths ops, start.2.paths start.1 = .ok paths ∧ start.2.operations start.1 = .ok ops ∧
      start.2.Lists paths ops ∧ s'.store.operations result.document = .ok ops ∧
      ∀ op ∈ ops, s'.store.Normal names op := by
  intro start
  obtain ⟨ops, hbegin, hend, hnormal⟩ := exists_normal_operations hdocument h
  obtain ⟨paths, hpaths, hlist⟩ := Store.operations_eq_ok.mp hbegin
  have hkeyed : start.2.TextKeyed := .load (by simp [Store.TextKeyed, Store.empty]) hdocument
  exact ⟨paths, ops, hpaths, hbegin, Store.lists_of_pathOperations (hkeyed.paths hpaths) hlist, hend, hnormal⟩

theorem normalize_keeps_operations_reply :
    let document := describing
      [("/value/\x7bnumber\x7d/read", .ofFields [("get", readOperation ["number"] "#/components/schemas/Reply")])]
      [("schemas", .ofFields [("Reply", reply)])]
    let names : MethodNames :=
      { devices := [(.text "value", { name := "Value", methods := [(.text "read", "Read")] })] }
    let start := Store.empty.load document
    document.IsJson ∧ ∃ result s',
      Runs (normalize start.1 (some names) defaultCatalogue true) ⟨start.2, []⟩ result s' ∧
      ∃ paths ops, start.2.paths start.1 = .ok paths ∧ start.2.operations start.1 = .ok ops ∧
        start.2.Lists paths ops ∧ s'.store.operations result.document = .ok ops ∧
        ∀ op ∈ ops, s'.store.Normal (some names) op := by
  intro document names start
  have hjson : document.IsJson := by decide +kernel
  have hanswer : ((normalize start.1 (some names) defaultCatalogue true).runOn ⟨start.2, []⟩).1.toOption.map
      (fun result => result.replacements.length) = some 1 := by decide +kernel
  obtain ⟨result, s', hrun, -⟩ := exists_runs hanswer
  exact ⟨hjson, result, s', hrun, normalize_keeps_operations hjson hrun⟩

end Procedure

end DeviceApi
