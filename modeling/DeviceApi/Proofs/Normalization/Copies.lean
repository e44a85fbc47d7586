import DeviceApi.Proofs.Api.Runs
import DeviceApi.Proofs.Document.Places
import DeviceApi.Proofs.Normalization.Output
import DeviceApi.Proofs.Schema.Canonical

/-!
# Copies of parameter schemas

The property of a parameter is a copy of the schema that the parameter declares, and the copy is one level
deep. What is done to the property leaves the schema itself as it was, but it may change what lies inside of
the schema. So a declared parameter changes if its schema has schemas inside.
-/

namespace DeviceApi

variable {s t t' : Store} {region : Set Nat} {v w : Value} {cell : Cell} {i n : Nat} {u : Unit}

namespace Store

/-- The node lies inside of the value: below one of its parts. -/
def Inside (s : Store) (v : Value) (i : Nat) : Prop :=
  ∃ id cell w, v = .node id ∧ s.cells[id]? = some cell ∧ w ∈ cell.parts ∧ s.Reaches w i

/-- The region leads nowhere else. -/
def Encloses (s : Store) (region : Set Nat) : Prop :=
  ∀ i ∈ region, ∀ cell x, s.cells[i]? = some cell → .node x ∈ cell.parts → x ∈ region

/-- The value is a scalar, a node that has been added, or one of the region. -/
def Within (s : Store) (region : Set Nat) (v : Value) : Prop :=
  ∀ x, v = .node x → s.cells.size ≤ x ∨ x ∈ region

/-- Nodes have been added that lead to each other and to the region only. -/
structure GrowsOver (region : Set Nat) (s t : Store) : Prop extends Grows s t where
  within : ∀ i cell, s.cells.size ≤ i → t.cells[i]? = some cell → ∀ w ∈ cell.parts, s.Within region w

theorem encloses_reaches (v : Value) : s.Encloses {i | s.Reaches v i} := fun _ hi _ x hcell hpart =>
  Reaches.trans hi (.part hcell hpart (.here x))

theorem encloses_inside (v : Value) : s.Encloses {i | s.Inside v i} := by
  rintro i ⟨id, cell, w, rfl, hcell, hw, hreach⟩ cell' x hcell' hpart
  exact ⟨id, cell, w, rfl, hcell, hw, hreach.trans (.part hcell' hpart (.here x))⟩

theorem Encloses.union {region' : Set Nat} (h : s.Encloses region) (h' : s.Encloses region') :
    s.Encloses (region ∪ region') := fun i hi cell x hcell hpart =>
  hi.imp (fun hi => h i hi cell x hcell hpart) fun hi => h' i hi cell x hcell hpart

namespace GrowsOver

variable (h : s.GrowsOver region t)
include h

theorem add (hparts : ∀ w ∈ cell.parts, s.Within region w) : s.GrowsOver region (t.add cell).2 where
  toGrows := h.toGrows.trans (.add t cell)
  within i cell' hi hcell' := by
    rw [cells_add] at hcell'
    split at hcell'
    · obtain rfl := Option.some.inj hcell'
      exact hparts
    · exact h.within i cell' hi hcell'

theorem set (hn : s.cells.size ≤ n) (hparts : ∀ w ∈ cell.parts, s.Within region w) :
    s.GrowsOver region (t.set n cell) where
  size_le := by
    rw [size_set]
    exact h.size_le
  agree i hi := h.cells_set hi (by omega)
  within i cell' hi hcell' := by
    rw [cells_set] at hcell'
    split at hcell'
    · obtain rfl := Option.some.inj hcell'
      exact hparts
    · exact h.within i cell' hi hcell'

/-- What stands in a value within the region is within the region. -/
theorem within_part (henclosed : s.Encloses region) (hv : s.Within region (.node i))
    (hcell : t.cells[i]? = some cell) (hw : w ∈ cell.parts) : s.Within region w := by
  rintro x rfl
  rcases hv i rfl with hnew | hold
  · exact h.within i cell hnew hcell _ hw x rfl
  · by_cases hi : i < s.cells.size
    · exact .inr (henclosed i hold cell x ((h.agree i hi).symm.trans hcell) hw)
    · exact h.within i cell (by omega) hcell _ hw x rfl

/-- From within the region only its nodes and the new ones are reached. -/
theorem within_of_reaches (henclosed : s.Encloses region) (hv : s.Within region v) (hi : t.Reaches v i) :
    s.cells.size ≤ i ∨ i ∈ region := by
  induction hi with
  | here i => exact hv i rfl
  | part hcell hpart _ ih => exact ih (h.within_part henclosed hv hcell hpart)

omit h in
theorem within_elements {items : List Value} (hv : ∀ i cell, v = .node i → t.cells[i]? = some cell →
    ∀ w ∈ cell.parts, s.Within region w) (hitems : t.elements v = .ok items) (hw : w ∈ items) :
    s.Within region w := by
  rcases place_of_mem_elements hitems hw with ⟨a, rfl⟩ | ⟨i, cell, rfl, hcell, hplace⟩
  · simp [Within]
  · exact hv i cell rfl hcell w (cell.map_snd_places ▸ List.mem_map_of_mem hplace)

/-- The value of a pair within the region is within the region. -/
theorem within_pair {key : Scalar} (henclosed : s.Encloses region) (hv : s.Within region v)
    (hpair : t.pair v = .ok (key, w)) : s.Within region w := by
  obtain ⟨k, hitems⟩ := exists_elements_of_pair hpair
  refine within_elements (fun i cell hi hcell w hw => ?_) hitems (List.mem_pair.mpr (.inr rfl))
  exact h.within_part henclosed (hi ▸ hv) hcell hw

end GrowsOver

end Store

namespace Edit

/-- Putting entries over those of a new object leads to the parts of what they are taken from. -/
theorem growsOver_overlay (h : s.GrowsOver region t) (henclosed : s.Encloses region)
    (hn : s.cells.size ≤ n)
    (hw : ∀ i cell, w = .node i → t.cells[i]? = some cell → ∀ x ∈ cell.parts, s.Within region x)
    (hrun : Runs (overlay (.node n) w) t u t') : s.GrowsOver region t' := by
  refine hrun.overlay_induct (s.GrowsOver region) h ?_ ?_
  · intro entries id others hcell hothers
    obtain ⟨rfl, hcell'⟩ := Store.shape_eq_object.mp hothers
    refine h.set hn fun x hx => ?_
    obtain ⟨e, he, rfl⟩ := List.mem_map.mp hx
    rcases Entries.mem_or_of_mem_putAll he with hold | hmem
    · exact h.within n _ hn hcell e.2 (List.mem_map_of_mem hold)
    · obtain ⟨e', he', heq⟩ := List.mem_map.mp hmem
      exact heq ▸ hw id _ rfl hcell' e'.2 (List.mem_map_of_mem he')
  · intro items hitems item hitem t entries key value hgrows hcell hpair
    refine hgrows.set hn fun x hx => ?_
    rcases Entries.mem_values_put hx with hold | rfl
    · exact hgrows.within n _ hn hcell x hold
    · exact hgrows.within_pair henclosed (Store.GrowsOver.within_elements hw hitems hitem) hpair

/-- The property of a parameter leads to what lies below its description or inside of its schema. -/
theorem growsOver_propertyOf {parameter : Entries Value} (h : Runs (propertyOf parameter) s v t) :
    s.GrowsOver ({i | s.Reaches ((parameter.get? "description").getD .null) i} ∪
      {i | s.Inside ((parameter.get? "schema").getD .null) i}) t ∧ v = .node s.cells.size := by
  obtain ⟨t₁, hnew, hcases⟩ := runs_propertyOf h
  obtain ⟨rfl, rfl⟩ := runs_newObject.mp hnew
  refine ⟨?_, rfl⟩
  have hfirst : s.GrowsOver ({i | s.Reaches ((parameter.get? "description").getD .null) i} ∪
      {i | s.Inside ((parameter.get? "schema").getD .null) i}) (s.add (.object (describedBy s parameter))).2 := by
    refine Store.GrowsOver.add ⟨.refl s, fun i cell hi hcell => ?_⟩ fun w hw x hx => .inr (.inl ?_)
    · have := Store.lt_size_of_cell hcell
      omega
    · unfold describedBy at hw
      split at hw
      · obtain rfl : w = _ := by simpa [Cell.parts, Entries.values] using hw
        rw [hx]
        exact .here x
      · simp [Cell.parts, Entries.values] at hw
  rcases hcases with ⟨-, hoverlay⟩ | ⟨-, rfl⟩
  · refine growsOver_overlay hfirst ((Store.encloses_reaches _).union (Store.encloses_inside _)) le_rfl
      (fun i cell hi hcell x hx y hy => ?_) hoverlay
    by_cases hlt : i < s.cells.size
    · exact .inr (.inr ⟨i, cell, x, hi, (hfirst.agree i hlt).symm.trans hcell, hx, hy ▸ .here y⟩)
    · exact hfirst.within i cell (by omega) hcell x hx y hy
  · exact hfirst

/-- **A property is a copy of the schema.** Bringing the property of a parameter into canonical form changes
no older node, other than those that lie inside of the schema of the parameter or below its description. So
the parameter and the node of its schema stay as they are declared, if the schema is not inside of itself. -/
theorem canonicalize_property_frame {parameter : Entries Value} (h : Runs (propertyOf parameter) s v t)
    (hcanonicalize : Runs (canonicalize v) t u t') :
    ∀ i < s.cells.size, ¬ s.Reaches ((parameter.get? "description").getD .null) i →
      ¬ s.Inside ((parameter.get? "schema").getD .null) i → t'.cells[i]? = s.cells[i]? := by
  intro i hi hdescription hschema
  obtain ⟨hgrows, rfl⟩ := growsOver_propertyOf h
  have htrims := trims_canonicalize hcanonicalize
  refine (htrims.agree i fun hreach => ?_).trans (hgrows.agree i hi)
  rcases hgrows.within_of_reaches ((Store.encloses_reaches _).union (Store.encloses_inside _))
    (fun x hx => .inl (by simp at hx; omega)) hreach with hnew | hbelow | hinside
  · omega
  · exact hdescription hbelow
  · exact hschema hinside

/-- A parameter that is a list of integers. -/
def numbersParameter : Tree :=
  .ofFields
    [("name", .text "numbers"), ("in", .text "path"),
     ("schema", .ofFields [("type", .text "array"), ("items", .ofFields [("type", .text "integer")])])]

theorem canonicalize_property_frame_numbers :
    let start := Store.empty.load numbersParameter
    ∃ parameter v t t', start.2.entries? start.1 = some parameter ∧
      Runs (propertyOf parameter) start.2 v t ∧ Runs (canonicalize v) t () t' ∧
      ∀ i < start.2.cells.size, ¬ start.2.Reaches ((parameter.get? "description").getD .null) i →
        ¬ start.2.Inside ((parameter.get? "schema").getD .null) i → t'.cells[i]? = start.2.cells[i]? := by
  intro start
  have hpasses : Procedure.passes (Procedure.ofEdit (do
      canonicalize (← propertyOf (← entriesOf start.1)))) ⟨start.2, []⟩ (fun _ _ => true) = true := by
    decide +kernel
  obtain ⟨_, s', hrun, -⟩ := Procedure.exists_runs_of_passes hpasses
  obtain ⟨t', hrun, -⟩ := Procedure.runs_ofEdit.mp hrun
  obtain ⟨parameter, s, hparameter, hrun⟩ := runs_bind.mp hrun
  obtain ⟨v, t, hproperty, hcanonicalize⟩ := runs_bind.mp hrun
  obtain ⟨⟨id, hshape⟩, rfl⟩ := runs_entriesOf.mp hparameter
  exact ⟨parameter, v, t, t', Store.entries?_eq_some.mpr ⟨id, hshape⟩, hproperty, hcanonicalize,
    canonicalize_property_frame hproperty hcanonicalize⟩

end Edit

namespace Procedure

/-- A document with an operation whose parameter is a list of integers. -/
def listParameter : Tree :=
  describing
    [("/values/\x7bnumbers\x7d", .ofFields [("get", .ofFields
      [("parameters", .list (.ofFields [("$ref", .text "#/components/parameters/Numbers")] ::
         Role.request.envelope.map fun field => .ofFields
           [("name", .text field.1), ("in", .text "query"), ("schema", field.2)])),
       ("responses", .ofFields
         [("200", .ofFields [("content", .ofFields [("application/json", .ofFields
            [("schema", .ofFields [("$ref", .text "#/components/schemas/Reply")])])])]),
          ("400", errorResponseShape), ("500", errorResponseShape)])])])]
    [("parameters", .ofFields [("Numbers", Edit.numbersParameter)]),
     ("schemas", .ofFields [("Reply", reply)])]

/-- The schema inside of the schema of a parameter is shared with the copy. So normalization gives the items
of the declared parameter a format that the document does not have in the beginning. -/
theorem parameter_items_change :
    let start := Store.empty.load listParameter
    let format := "#/components/parameters/Numbers/schema/items/format"
    (¬ ∃ v, start.2.resolve start.1 format = .ok v) ∧
    ∃ result s', Runs (normalize start.1 none defaultCatalogue false) ⟨start.2, []⟩ result s' ∧
      s'.store.resolve result.document format = .ok (.text defaultIntegerFormat) := by
  intro start format
  have hbefore : (start.2.resolve start.1 format).toOption.isNone = true := by decide +kernel
  have hnormalize : passes (normalize start.1 none defaultCatalogue false) ⟨start.2, []⟩
      (fun result s' => decide ((s'.store.resolve result.document format).toOption =
        some (.text defaultIntegerFormat))) = true := by decide +kernel
  obtain ⟨result, s', hrun, hafter⟩ := exists_runs_of_passes hnormalize
  rw [decide_eq_true_eq] at hafter
  refine ⟨?_, result, s', hrun, toOption_eq_some.mp hafter⟩
  rintro ⟨v, hv⟩
  simp [hv, Except.toOption] at hbefore

end Procedure

end DeviceApi
