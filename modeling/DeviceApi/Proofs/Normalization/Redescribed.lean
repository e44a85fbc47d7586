import DeviceApi.Proofs.Kinds.Procedures
import DeviceApi.Proofs.Normalization.Output

/-!
# Descriptions say nothing about types

Two documents that differ in the texts of their descriptions alone are normalized in the same way: normalization fails
with the same fault for both, or the same pointers are replaced, the same shapes are reported and the tables of schemas
have the same names in the end.
-/

namespace DeviceApi

variable {kinds : List Kind} {k : Kind} {s s' : Store} {i : Nat} {v root : Value} {table : SchemaTable} {cell : Cell}

namespace Store

/-- The names in the table of schemas of a document, in order. -/
def schemaNames (s : Store) (document : Value) : List Scalar :=
  match ((s.field? document "components").bind fun components => s.field? components "schemas").bind s.entries? with
  | some schemas => schemas.keys
  | none => []

/-- Other nodes than the table stay as they are when the table is changed. -/
theorem field?_set_table {name : String} (hi : kinds[i]? = some .table) (hv : v.IsOf kinds [k]) (hk : k ≠ .table) :
    (s.set i cell).field? v name = s.field? v name := by
  have hshape : (s.set i cell).shape v = s.shape v := by
    cases v with
    | scalar a => rfl
    | node j =>
      obtain ⟨k', hk', hj⟩ := hv
      obtain rfl := List.mem_singleton.mp hk'
      have hne : j ≠ i := by
        rintro rfl
        rw [hi] at hj
        exact hk (Option.some.inj hj).symm
      simp only [shape, cells_set, hne, false_and, if_false]
  simp only [field?, entries?, hshape]

namespace Matches

variable (h : s.Matches kinds s') (hi : kinds[i]? = some .table)
include h

/-- What is no description stays the same in both stores when one node is changed to the same. -/
theorem entries?_set_eq (hv : v.IsOf kinds [k]) (hk : k.isDescribed = false) :
    (s'.set i cell).entries? v = (s.set i cell).entries? v := by
  cases v with
  | scalar a => rfl
  | node j =>
    obtain ⟨k', hk', hj⟩ := hv
    obtain rfl := List.mem_singleton.mp hk'
    simp only [entries?, shape, cells_set, h.size, h.size', h.cell_eq hj hk]

include hi

/-- Tables that have been given the same entries have the same names. -/
theorem schemaNames_set (hroot : root.IsOf kinds [.root]) :
    (s'.set i cell).schemaNames root = (s.set i cell).schemaNames root := by
  have hfield : ∀ {v : Value} {k : Kind} {name : String}, v.IsOf kinds [k] → k.isDescribed = false →
      s'.field? v name = s.field? v name := fun hv hk => by
    rw [field?, field?, h.entries?_eq hv fun k' hk' => List.mem_singleton.mp hk' ▸ hk]
  unfold schemaNames
  rw [field?_set_table hi hroot (by decide), field?_set_table hi hroot (by decide), hfield hroot rfl]
  cases hcomponents : s.field? root "components" with
  | none => rfl
  | some components =>
    have hof : components.IsOf kinds [.components] := h.isOf_field? hroot (by decide) hcomponents
    rw [Option.bind_some, Option.bind_some, field?_set_table hi hof (by decide), field?_set_table hi hof (by decide),
      hfield hof rfl]
    cases hschemas : s.field? components "schemas" with
    | none => rfl
    | some schemas =>
      have hof' : schemas.IsOf kinds [.table] := h.isOf_field? hof (by decide) hschemas
      rw [Option.bind_some, Option.bind_some, h.entries?_set_eq hof' rfl]

end Matches

end Store

namespace Procedure

open Edit

theorem schemaNames_of_mergedAlike (h : MergedAlike kinds table s s') (hroot : root.IsOf kinds [.root]) :
    s'.schemaNames root = s.schemaNames root := by
  obtain ⟨kinds', t, t', id, entries, hgrown, halike, -, hid, rfl, rfl⟩ := h
  exact halike.schemaNames_set hid (hroot.mono hgrown)

/-- Normalization does the same to alike documents. -/
theorem accord_normalize {names : Option MethodNames} {catalogue : Tree} {merge : Bool} (h : s.Matches kinds s')
    (hroot : root.IsOf kinds [.root]) :
    Accord s s' (normalize root names catalogue merge) (normalize root names catalogue merge) fun t t' result result' =>
      result' = result ∧ t'.schemaNames result.document = t.schemaNames result.document := by
  unfold normalize
  refine (Accord.ofEdit (Agree.openTable h hroot)).bind_same fun kinds₁ table t₁ t₁' hgrown₁ h₁ htable => ?_
  have hroot₁ := hroot.mono hgrown₁
  refine (Accord.stage (accord_classifyAll h₁ hroot₁ htable)).bind_same fun kinds₂ _ t₂ t₂' hgrown₂ h₂ _ => ?_
  have htable₂ := htable.mono hgrown₂
  refine (Accord.stage (.ofEdit (Agree.stripEnvelopes h₂ htable₂))).bind_same fun kinds₃ _ t₃ t₃' hgrown₃ h₃ _ => ?_
  have htable₃ := htable₂.mono hgrown₃
  refine (Accord.stage (.ofEdit (Agree.canonicalizeTable h₃ htable₃))).bind_same fun kinds₄ _ t₄ t₄' hgrown₄ h₄ _ => ?_
  have hroot₄ := hroot₁.mono ((hgrown₂.trans hgrown₃).trans hgrown₄)
  refine .stage ((accord_foldSchemas h₄ (htable₃.mono hgrown₄) catalogue).bind fun t₅ t₅' answer _ hfolded => ?_)
  obtain ⟨rfl, hmerged⟩ := hfolded
  obtain ⟨n, n', hsize, hsize'⟩ := hmerged.runOn_size
  exact .read_bind hsize hsize' (.report_bind (.pure ⟨rfl, schemaNames_of_mergedAlike hmerged hroot₄⟩))

/-- Descriptions of parameters, bodies, responses and schemas do not count: if two documents differ in the texts of such
descriptions alone, normalization fails with the same fault for both, or it replaces the same pointers, reports the same
shapes and leaves tables of schemas behind that have the same names in the same order. -/
theorem normalize_ignores_descriptions {D D' : Tree} (names : Option MethodNames) (catalogue : Tree) (merge : Bool)
    (h : Tree.Redescribed .root D D') (hplain : ∀ p ∈ D.pointers, Pointer.Plain p)
    (hplain' : ∀ p ∈ D'.pointers, Pointer.Plain p) :
    Accord (Store.empty.load D).2 (Store.empty.load D').2 (normalize (Store.empty.load D).1 names catalogue merge)
      (normalize (Store.empty.load D').1 names catalogue merge) fun s s' result result' =>
        result'.replacements = result.replacements ∧ result'.duplicates = result.duplicates ∧
          s'.schemaNames result'.document = s.schemaNames result.document := by
  have hempty : Store.empty.Matches [] Store.empty := ⟨rfl, rfl, fun i k hi => by simp at hi⟩
  obtain ⟨kinds, -, halike, hvalue, hroot⟩ := h.loadAlike hplain hplain' hempty
  rw [hvalue]
  refine (accord_normalize halike hroot).mono fun s s' result result' hsame => ?_
  obtain ⟨rfl, hnames⟩ := hsame
  exact ⟨rfl, rfl, hnames⟩

/-- A document in which a parameter, a schema and a property have the same description. -/
def noted (note : String) : Tree :=
  describing
    [("/value/\x7bnumber\x7d/read", .ofFields [("get", readOperation ["number"] "#/components/schemas/Reply")])]
    [("parameters", .ofFields [("Number", .ofFields [("name", .text "number"), ("description", .text note)])]),
     ("schemas", .ofFields [("Reply", .ofFields
       [("type", .text "object"),
        ("description", .text note),
        ("properties", .ofFields (Role.response.envelope ++
          [("Value", .ofFields [("type", .text "integer"), ("description", .text note)])])),
        ("required", .list (Role.response.envelope.map fun field => .text field.1))])])]

theorem normalize_ignores_descriptions_noted :
    Tree.Redescribed .root (noted "") (noted "The value.") ∧
      (∀ p ∈ (noted "").pointers, Pointer.Plain p) ∧ (∀ p ∈ (noted "The value.").pointers, Pointer.Plain p) ∧
      ∃ result s result' s', Runs (normalize (Store.empty.load (noted "")).1 none defaultCatalogue true) ⟨(Store.empty.load (noted "")).2, []⟩ result s ∧
        Runs (normalize (Store.empty.load (noted "The value.")).1 none defaultCatalogue true) ⟨(Store.empty.load (noted "The value.")).2, []⟩ result' s' ∧
        result'.replacements = result.replacements ∧ result'.duplicates = result.duplicates ∧
        s'.store.schemaNames result'.document = s.store.schemaNames result.document := by
  have hredescribed : Tree.Redescribed .root (noted "") (noted "The value.") := by decide +kernel
  have hplain : ∀ note, (noted note).pointers = [pointerTo "Reply"] → ∀ p ∈ (noted note).pointers, Pointer.Plain p := by
    intro note hpointers p hp
    obtain rfl : p = pointerTo "Reply" := by simpa [hpointers] using hp
    exact ⟨"schemas", "Reply", rfl, by decide +kernel, by decide +kernel⟩
  have hplain₁ := hplain "" (by decide +kernel)
  have hplain₂ := hplain "The value." (by decide +kernel)
  have hanswer : ((normalize (Store.empty.load (noted "")).1 none defaultCatalogue true).runOn ⟨(Store.empty.load (noted "")).2, []⟩).1.toOption.map
      (fun result => result.replacements.length) = some 1 := by decide +kernel
  obtain ⟨result, s, hrun, -⟩ := exists_runs hanswer
  have haccord := @normalize_ignores_descriptions (noted "") (noted "The value.") none defaultCatalogue true
    hredescribed hplain₁ hplain₂
  obtain ⟨result', s', hrun', hsame⟩ := haccord.exists_runs hrun
  exact ⟨hredescribed, hplain₁, hplain₂, result, s, result', s', hrun, hrun', hsame⟩

end Procedure

end DeviceApi
