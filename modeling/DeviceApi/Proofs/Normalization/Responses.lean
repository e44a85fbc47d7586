import DeviceApi.Proofs.Api.Responses
import DeviceApi.Proofs.Normalization.Output

/-!
# Responses in a document

Every operation of a document that can be classified has the three responses that classified operations have.
The comparison leaves optional keywords out at every depth, also where they are codes or media types: a response
under such a code is not looked at.
-/

namespace DeviceApi

namespace Edit

variable {D : Tree} {s s₀ s' : Store} {root T c : Nat} {u : Unit} {table : SchemaTable} {names : Option MethodNames}
  {done rest : List Operation} {op : Operation} {entries : Entries Value}

/-- Where classification has come to in a document, after some of its operations. -/
theorem Opened.reached_of_forM (h : Opened s₀ root c T entries) (hnode : table.schemas = .node T)
    {paths : Entries Value} (hpaths : s₀.paths (.node root) = .ok paths) (hdone : ∀ op ∈ done, s₀.Declares paths op)
    (hrun : Runs (done.forM (classifyAndName (.node root) table names)) s₀ u s) : Reached s₀ root c T entries s := by
  refine hrun.forM_induct (I := Reached s₀ root c T entries) ⟨_, [], .refl h.gated⟩ ?_
  rintro op hop t u t' ⟨K, registered, hstep⟩ hop'
  obtain ⟨K', registered', hstep', -⟩ := h.reached_of_runs hnode hstep
    ((h.free_content hpaths (hdone op hop)).mono hstep.known_sub) hop'
  exact ⟨K', registered', hstep'⟩

/-- The table of an operation that can be classified is an object. -/
theorem exists_schemas_of_classify {document : Value} (h : Runs (classify document table op) s u s') :
    ∃ T, table.schemas = .node T := by
  obtain ⟨_, _, _, _, _, _, _, _, _, _, -, -, -, hpath, -⟩ := runs_classify.mp h
  obtain ⟨_, _, _, -, hregister, -⟩ := runs_adoptParameters hpath
  obtain ⟨id, entries, hshape, -⟩ := runs_register hregister
  exact ⟨id, (Store.shape_eq_object.mp hshape).1⟩

/-- An operation in an opened document that can be classified responds as it should, before classification as
well as when its responses are looked at. -/
theorem Opened.responds (hopened : Opened s₀ root c T entries) (hnode : table.schemas = .node T)
    (hreached : Reached s₀ root c T entries s) {paths : Entries Value} (hpaths : s₀.paths (.node root) = .ok paths)
    (hdeclares : s₀.Declares paths op) (h : Runs (classify (.node root) table op) s u s') :
    ∃ responses t, Runs (responsesOf op) s responses s ∧ s.Puts (Given table names op) t ∧
      Runs (responsesOf op) t responses t ∧ Runs (classifyResponses (.node root) table op) t () s' ∧
      t.Responds (.node root) responses := by
  obtain ⟨K, registered, hstep⟩ := hreached
  have hgated := hopened.gated_of_classifies hstep
  have hcontent : IsContent root (documentGates root (entries.get? "paths") c T) False ⟨s, K⟩ op.content :=
    ⟨((hopened.free_content hpaths hdeclares).mono hstep.known_sub).writable passage_documentGates, False.elim⟩
  have hlinked := hcontent.writable.linked
  obtain ⟨t, K', path, request, hparts, -, -, hputs, hresponses⟩ := classifies_parts passage_documentGates hnode
    (owner_ne_schemas hopened.gated) (fun _ _ hcrowded => absurd hcrowded (not_crowded_documentGates hgated))
    hgated hcontent h
  have hgated' := hparts.gated (owner_ne_schemas hopened.gated) hgated passage_documentGates
  obtain ⟨responses, hrun, hresponds⟩ := responds_of_classifyResponses hgated'
    (hlinked.mono hparts.known_sub) hresponses
  obtain ⟨id, fields, -, -, -, -, -, -, -, -, hfields, -⟩ := runs_classify.mp h
  refine ⟨responses, t, ?_, hputs names, hrun, hresponses, hresponds⟩
  exact responsesOf_of_puts (hputs names) hfields
    (fun i hi => hgated.lt i (hgated.linked_field hlinked hfields i hi)) hrun hresponds

/-- **Three responses.** An operation that can be classified, whatever operations have been classified before
it, declares responses for success and for two errors. Those of errors lead to plain text alone. The other codes
that there may be, and the other keys in the responses of errors, are optional keywords. -/
theorem responds_of_classify (hD : D.IsJson)
    (hopen : Runs (openTable (Store.empty.load D).1) (Store.empty.load D).2 table s₀)
    (hops : s₀.operations (Store.empty.load D).1 = .ok (done ++ op :: rest))
    (hdone : Runs (done.forM (classifyAndName (Store.empty.load D).1 table names)) s₀ () s)
    (h : Runs (classify (Store.empty.load D).1 table op) s u s') :
    ∃ responses t, Runs (responsesOf op) s responses s ∧ s.Puts (Given table names op) t ∧
      Runs (responsesOf op) t responses t ∧ Runs (classifyResponses (Store.empty.load D).1 table op) t () s' ∧
      t.Responds (Store.empty.load D).1 responses := by
  obtain ⟨root, hroot, hopened⟩ := opened_of_load hD hopen
  rw [hroot] at hops hdone h ⊢
  obtain ⟨T, hnode⟩ := exists_schemas_of_classify h
  obtain ⟨c, entries, hopened⟩ := hopened T hnode
  obtain ⟨paths, hpaths, hlist⟩ := Store.operations_eq_ok.mp hops
  have hdeclares : ∀ op' ∈ done ++ op :: rest, s₀.Declares paths op' := fun op' hop' =>
    Store.declares_of_mem hlist hop'
  have hreached := hopened.reached_of_forM hnode hpaths
    (fun op' hop' => hdeclares op' (List.mem_append_left _ hop')) hdone
  exact hopened.responds hnode hreached hpaths (hdeclares op (by simp)) h

/-- Classifies the operations of a document in their order, and answers them and the store before that. -/
def classifyListed (document : Value) : Edit (List Operation × Store) := do
  let table ← openTable document
  let s ← get
  let ops ← ofExcept (s.operations document)
  ops.forM (classify document table)
  return (ops, s)

theorem exists_classify {document : Value} (check : Operation → Store → Bool)
    (h : Procedure.passes (.ofEdit (classifyListed document)) ⟨s₀, []⟩
      (fun result _ => result.1.any fun op => result.1.length == 1 && check op result.2) = true) :
    ∃ table s op s', Runs (openTable document) s₀ table s ∧ s.operations document = .ok [op] ∧
      Runs (classify document table op) s () s' ∧ check op s = true := by
  obtain ⟨⟨ops, s⟩, _, hrun, hcheck⟩ := Procedure.exists_runs_of_passes h
  obtain ⟨s', hrun, -⟩ := Procedure.runs_ofEdit.mp hrun
  simp only [classifyListed, runs_bind, runs_get, runs_ofExcept, runs_pure] at hrun
  obtain ⟨table, t, hopen, _, _, ⟨rfl, rfl⟩, _, _, ⟨hops, rfl⟩, _, _, hclassify, heq, rfl⟩ := hrun
  cases heq
  obtain ⟨op, hop, hboth⟩ := List.any_eq_true.mp hcheck
  obtain ⟨hlength, hpasses⟩ := Bool.and_eq_true_iff.mp hboth
  obtain ⟨op', hlist⟩ := List.length_eq_one_iff.mp (by simpa using hlength)
  obtain rfl : ops = [op'] := hlist
  obtain rfl : op = op' := List.mem_singleton.mp hop
  obtain ⟨_, hone, hnil⟩ := runs_forM_cons.mp hclassify
  obtain rfl := runs_forM_nil.mp hnil
  exact ⟨table, s, op, _, hopen, hops, hone, hpasses⟩

theorem responds_of_classify_reply :
    let document := Procedure.describing
      [("/value/\x7bnumber\x7d", .ofFields [("get", Procedure.readOperation ["number"] "#/components/schemas/Reply")])]
      [("schemas", .ofFields [("Reply", Procedure.reply)])]
    let start := Store.empty.load document
    document.IsJson ∧ ∃ table s op s', Runs (openTable start.1) start.2 table s ∧
      s.operations start.1 = .ok ([] ++ op :: []) ∧ Runs (classify start.1 table op) s () s' ∧
      ∃ responses t, Runs (responsesOf op) s responses s ∧ s.Puts (Given table none op) t ∧
        Runs (responsesOf op) t responses t ∧ Runs (classifyResponses start.1 table op) t () s' ∧
        t.Responds start.1 responses := by
  intro document start
  have hjson : document.IsJson := by decide +kernel
  have hpasses : Procedure.passes (.ofEdit (classifyListed start.1)) ⟨start.2, []⟩
      (fun result _ => result.1.any fun _ => result.1.length == 1 && true) = true := by decide +kernel
  obtain ⟨table, s, op, s', hopen, hops, hclassify, -⟩ := exists_classify (fun _ _ => true) hpasses
  have hops : s.operations start.1 = .ok ([] ++ op :: []) := hops
  exact ⟨hjson, table, s, op, s', hopen, hops, hclassify,
    responds_of_classify hjson hopen hops (runs_forM_nil.mpr rfl) hclassify⟩

/-- The operation with one more response, in which nothing stands. -/
def respondingAlso (code : String) : Tree → Tree
  | .object entries => .object (entries.map fun e =>
      match e with
      | (.text "responses", .object responses) => (e.1, .object (responses ++ [(.text code, .ofFields [])]))
      | _ => e)
  | t => t

/-- There may be a fourth response for all other codes, because the key it stands under is an optional keyword. -/
theorem classify_accepts_default :
    let document := Procedure.describing
      [("/value/\x7bnumber\x7d", .ofFields [("get", respondingAlso "default"
        (Procedure.readOperation ["number"] "#/components/schemas/Reply"))])]
      [("schemas", .ofFields [("Reply", Procedure.reply)])]
    let start := Store.empty.load document
    document.IsJson ∧ ∃ table s op s' responses, Runs (openTable start.1) start.2 table s ∧
      s.operations start.1 = .ok [op] ∧ Runs (classify start.1 table op) s () s' ∧
      Runs (responsesOf op) s responses s ∧
        Entries.keys responses = [.text "200", .text "400", .text "500", .text "default"] := by
  intro document start
  have hjson : document.IsJson := by decide +kernel
  let check : Operation → Store → Bool := fun op s =>
    decide (((responsesOf op).runOn s).1.toOption.map Entries.keys =
      some [.text "200", .text "400", .text "500", .text "default"])
  have hpasses : Procedure.passes (.ofEdit (classifyListed start.1)) ⟨start.2, []⟩
      (fun result _ => result.1.any fun op => result.1.length == 1 && check op result.2) = true := by
    decide +kernel
  obtain ⟨table, s, op, s', hopen, hops, hclassify, hkeys⟩ := exists_classify check hpasses
  obtain ⟨responses, hresponses, heq⟩ := Option.map_eq_some_iff.mp (of_decide_eq_true hkeys)
  refine ⟨hjson, table, s, op, s', responses, hopen, hops, hclassify, ?_, heq⟩
  rcases hrun : (responsesOf op).runOn s with ⟨answer, t⟩
  rw [hrun] at hresponses
  obtain rfl := toOption_eq_some.mp hresponses
  obtain ⟨rfl, -⟩ := runs_responsesOf hrun
  exact hrun

end Edit

end DeviceApi
