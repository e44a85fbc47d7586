import DeviceApi.Proofs.Api.Adoption

/-!
# Parameters that can be grouped

Parameters that lead to objects with a name and a location can be grouped just if they are located in the path or in
the query. The groups become new schemas without a role.
-/

namespace DeviceApi

variable {s s' t t' : Store} {v w declared : Value} {location : String}

namespace Store

/-- The declared parameter leads to an object with a name and the location. If it states a schema, then this is an
object. -/
def Locates (s : Store) (root declared : Value) (location : String) : Prop :=
  ∃ w id parameter name, s.dereference root declared = .ok w ∧ s.shape w = .object id parameter ∧
    parameter.get? "in" = some (.text location) ∧ parameter.get? "name" = some (.text name) ∧
    ∀ schema, parameter.get? "schema" = some schema → s.IsObject schema

theorem Locates.unique {root : Value} {location' : String} (h : s.Locates root declared location)
    (h' : s.Locates root declared location') : location = location' := by
  obtain ⟨w, id, parameter, name, hw, hshape, hin, -⟩ := h
  obtain ⟨w', id', parameter', name', hw', hshape', hin', -⟩ := h'
  obtain rfl : w = w' := Except.ok.inj (hw.symm.trans hw')
  rw [hshape, Shape.object.injEq] at hshape'
  obtain ⟨rfl, rfl⟩ := hshape'
  exact Scalar.text.inj (Value.scalar.inj (Option.some.inj (hin.symm.trans hin')))

end Store

namespace Edit

variable {root : Nat} {gates : Set Gate} {K : Set Nat} {items : List Value} {path query : Option Value}

/-- The property of a parameter is a new object if the schema of the parameter is an object. -/
theorem exists_runs_propertyOf {parameter : Entries Value}
    (hschema : ∀ schema, parameter.get? "schema" = some schema → s.IsObject schema) :
    ∃ w s', Runs (propertyOf parameter) s w s' ∧ s.Grows s' := by
  let t := (s.add (.object (describedBy s parameter))).2
  have hgrows : s.Grows t := .add s _
  have hnew : t.shape (.node s.cells.size) = .object s.cells.size (describedBy s parameter) :=
    Store.shape_node (by rw [Store.cells_add, if_pos rfl])
  by_cases htruthy : t.isTruthy ((parameter.get? "schema").getD .null) = true
  · obtain ⟨schema, hget⟩ : ∃ schema, parameter.get? "schema" = some schema := by
      cases hget : parameter.get? "schema" with
      | some schema => exact ⟨schema, rfl⟩
      | none => simp [hget, Store.isTruthy, Store.shape, Scalar.isTruthy] at htruthy
    have hputs : s.Puts (fun _ _ _ => False) t := .grow hgrows
    obtain ⟨id, others, hothers⟩ := hputs.isObject (hschema schema hget)
    let u := t.set s.cells.size (.object ((describedBy s parameter).putAll others))
    refine ⟨.node s.cells.size, u, ?_, ?_⟩
    · rw [propertyOf]
      refine runs_bind.mpr ⟨_, s, runs_isTruthy.mpr ⟨rfl, rfl⟩, runs_bind.mpr ⟨_, t, runs_newObject.mpr ⟨rfl, rfl⟩,
        runs_bind.mpr ⟨true, t, runs_isTruthy.mpr ⟨htruthy, rfl⟩, ?_⟩⟩⟩
      rw [if_pos rfl, hget, Option.getD_some]
      refine runs_bind.mpr ⟨(), u, runs_bind.mpr ⟨_, t, runs_objectOf.mpr ⟨hnew, rfl⟩,
        runs_bind.mpr ⟨_, t, runs_look.mpr ⟨rfl, rfl⟩, ?_⟩⟩, runs_pure.mpr ⟨rfl, rfl⟩⟩
      rw [hothers]
      exact runs_modify.mpr rfl
    · exact ⟨by simp [u, t], fun i hi => hgrows.cells_set hi (by omega)⟩
  · refine ⟨.node s.cells.size, t, ?_, hgrows⟩
    rw [propertyOf]
    refine runs_bind.mpr ⟨_, s, runs_isTruthy.mpr ⟨rfl, rfl⟩, runs_bind.mpr ⟨_, t, runs_newObject.mpr ⟨rfl, rfl⟩,
      runs_bind.mpr ⟨false, t, runs_isTruthy.mpr ⟨by simpa using htruthy, rfl⟩, ?_⟩⟩⟩
    rw [if_neg (by simp)]
    exact runs_pure.mpr ⟨rfl, rfl⟩

section

variable (hgated : View.Gated root gates ⟨s, K⟩)
include hgated

end

/-- The keys of the schema of a group. -/
def groupKeys : List String := ["type", "properties", "required"]

/-- The schema of a group is a new object without other keys. -/
theorem new_of_groupSchema? {group : Option ParameterGroup} {schema : Option Value}
    (h : Runs (groupSchema? group) s schema s') : schema.isSome = group.isSome ∧ ∀ v, schema = some v →
      ∃ x entries, v = .node x ∧ s.cells.size ≤ x ∧ s'.cells[x]? = some (.object entries) ∧
        ∀ key : String, key ∉ groupKeys → entries.get? key = none := by
  cases group with
  | none =>
    obtain ⟨rfl, -⟩ := runs_pure.mp h
    exact ⟨rfl, by simp⟩
  | some group =>
    obtain ⟨v, t, hgroup, hdone⟩ := runs_bind.mp h
    obtain ⟨rfl, rfl⟩ := runs_pure.mp hdone
    refine ⟨rfl, fun w hw => ?_⟩
    obtain rfl := Option.some.inj hw
    obtain ⟨properties, s₁, hproperties, hcases⟩ := runs_groupSchema hgroup
    obtain ⟨-, rfl⟩ := runs_newObject.mp hproperties
    rcases hcases with ⟨-, hnew⟩ | ⟨required, s₂, -, hrequired, hnew⟩
    · obtain ⟨rfl, rfl⟩ := runs_newObject.mp hnew
      refine ⟨_, _, rfl, by simp, by rw [Store.cells_add, if_pos rfl], fun key hkey => ?_⟩
      simp only [groupKeys, List.mem_cons, List.not_mem_nil, or_false, not_or] at hkey
      simp [Entries.get?_cons_text, Ne.symm hkey.1, Ne.symm hkey.2.1]
    · obtain ⟨-, rfl⟩ := runs_newList.mp hrequired
      obtain ⟨rfl, rfl⟩ := runs_newObject.mp hnew
      refine ⟨_, _, rfl, by simp; omega, by rw [Store.cells_add, if_pos rfl], fun key hkey => ?_⟩
      simp only [groupKeys, List.mem_cons, List.not_mem_nil, or_false, not_or] at hkey
      simp [Entries.get?_cons_text, Ne.symm hkey.1, Ne.symm hkey.2.1, Ne.symm hkey.2.2]

theorem exists_runs_groupSchema? (group : Option ParameterGroup) (s : Store) :
    ∃ schema s', Runs (groupSchema? group) s schema s' := by
  cases group with
  | none => exact ⟨none, s, runs_pure.mpr ⟨rfl, rfl⟩⟩
  | some group =>
    suffices h : ∃ v s', Runs (groupSchema group) s v s' by
      obtain ⟨v, s', h⟩ := h
      exact ⟨some v, s', runs_bind.mpr ⟨v, s', h, runs_pure.mpr ⟨rfl, rfl⟩⟩⟩
    let properties := s.add (.object group.properties)
    have hproperties : Runs (newObject group.properties) s properties.1 properties.2 := runs_newObject.mpr ⟨rfl, rfl⟩
    simp only [groupSchema, hproperties.bind_iff]
    by_cases hempty : group.required.isEmpty = true
    · simp only [if_pos hempty, runs_newObject]
      exact ⟨_, _, rfl, rfl⟩
    · simp only [if_neg hempty, runs_bind, runs_newList, runs_newObject]
      exact ⟨_, _, _, _, ⟨rfl, rfl⟩, rfl, rfl⟩

section

variable (hgated : View.Gated root gates ⟨s, K⟩) (helements : s.elements declared = .ok items)
  (hitems : ∀ item ∈ items, View.Linked ⟨s, K⟩ item ∧ ∃ location, s.Locates (.node root) item location)
include hgated helements hitems

end

/-- The schemas of the groups are new objects without other keys, and two of them if there are both. -/
theorem new_of_groupParameters (h : Runs (groupParameters v w) s (path, query) s') :
    (∀ v ∈ path.toList ++ query.toList, ∃ x entries, v = .node x ∧ s.cells.size ≤ x ∧
      s'.cells[x]? = some (.object entries) ∧ ∀ key : String, key ∉ groupKeys → entries.get? key = none) ∧
      ∀ v, path = some v → query ≠ some v := by
  obtain ⟨items, groups, t, t₁, -, hgroups, -, hpath, hquery⟩ := runs_groupParameters h
  have hgrows : s.Grows t := Runs.foldlM_induct (fun _ _ t => s.Grows t) hgroups (.refl s)
    fun _ _ _ _ _ _ _ _ hI hstep => hI.trans (grows_addParameter hstep)
  have hgrows₁ := grows_groupSchema? hpath
  have hgrows₂ := grows_groupSchema? hquery
  have hle := hgrows.size_le
  have hle₁ := hgrows₁.size_le
  refine ⟨fun v hv => ?_, fun v hv hv' => ?_⟩
  · rcases List.mem_append.mp hv with hmem | hmem
    · obtain ⟨x, entries, rfl, hx, hcell, hkeys⟩ := (new_of_groupSchema? hpath).2 v (by simpa using hmem)
      exact ⟨x, entries, rfl, by omega, (hgrows₂.agree x (Store.lt_size_of_cell hcell)).trans hcell, hkeys⟩
    · obtain ⟨x, entries, rfl, hx, hcell, hkeys⟩ := (new_of_groupSchema? hquery).2 v (by simpa using hmem)
      exact ⟨x, entries, rfl, by omega, hcell, hkeys⟩
  · obtain ⟨x, entries, rfl, -, hcell, -⟩ := (new_of_groupSchema? hpath).2 v hv
    obtain ⟨x', entries', heq, hx', -⟩ := (new_of_groupSchema? hquery).2 _ hv'
    obtain rfl : x = x' := by simpa using heq
    have hlt := Store.lt_size_of_cell hcell
    omega

end Edit

end DeviceApi
