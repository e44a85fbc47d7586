import DeviceApi.Proofs.Api.Contributions
import DeviceApi.Proofs.Api.Traces

/-!
# The schemas of groups

The schema of a group consists of new nodes, and what the parameters contribute tells what these nodes hold. So schemas
that have been made of the same contributions at two times are as good as each other.
-/

namespace DeviceApi

variable {s t : Store} {v w : Value} {u : Unit}

namespace Edit

variable {groups groups' : ParameterGroups}

/-- Two groups with the same names, in which the properties are related. -/
def Twin (R : Value → Value → Prop) (g g' : ParameterGroup) : Prop :=
  g'.required = g.required ∧ List.Forall₂ (Entries.Paired R) g.properties g'.properties

/-- The same contributions lead to groups that are alike, whatever the number of the first new node is. -/
theorem paired_gather {R : Value → Value → Prop} {ds : List Contribution} {n m : Nat}
    (hR : ∀ k < ds.length, R (.node (n + k)) (.node (m + k)))
    (h : List.Forall₂ (Entries.Paired (Twin R)) groups groups') :
    List.Forall₂ (Entries.Paired (Twin R)) (gather groups n ds) (gather groups' m ds) := by
  induction ds generalizing groups groups' n m with
  | nil => exact h
  | cons d ds ih =>
    have htwin : Twin R ((groups.get? d.location).getD {}) ((groups'.get? d.location).getD {}) := by
      rcases Entries.get?_of_paired h d.location with ⟨hnone, hnone'⟩ | ⟨g, g', hg, hg', htwin⟩
      · rw [hnone, hnone']
        exact ⟨rfl, .nil⟩
      · rwa [hg, hg']
    refine ih (fun k hk => ?_) (Entries.paired_put h ⟨?_, Entries.paired_put htwin.2 (hR 0 (by simp))⟩)
    · have hnext := hR (k + 1) (by simpa using hk)
      rwa [Nat.add_right_comm n, Nat.add_right_comm m]
    · exact congrArg (· ++ _) htwin.1

end Edit

namespace Store

variable {lo hi lo' hi' : Nat} {g g' : ParameterGroup} {more : Entries Value}

/-- Among the nodes from one number to another, the value is the schema of a group. Behind what it has from the group
there are further entries. -/
def Spells (s : Store) (lo hi : Nat) (g : ParameterGroup) (v : Value) (more : Entries Value) : Prop :=
  ∃ (x p : Nat) (fields : Entries Value), v = .node x ∧ lo ≤ p ∧ p < x ∧ x < hi ∧ s.cells[p]? = some (.object g.properties) ∧
    s.cells[x]? = some (.object (("type", .text "object") :: ("properties", .node p) :: (fields ++ more))) ∧
    (g.required = [] ∧ fields = [] ∨ g.required ≠ [] ∧ ∃ r, lo ≤ r ∧ r < x ∧ s.cells[r]? = some (.list g.required) ∧
      fields = [(.text "required", .node r)])

theorem Spells.frame (h : s.Spells lo hi g v more) (hcells : ∀ i, lo ≤ i → i < hi → t.cells[i]? = s.cells[i]?) :
    t.Spells lo hi g v more := by
  obtain ⟨x, p, fields, rfl, hp, hpx, hx, hproperties, hcell, hcases⟩ := h
  refine ⟨x, p, fields, rfl, hp, hpx, hx, ?_, ?_, hcases.imp id ?_⟩
  · rw [hcells p hp (hpx.trans hx), hproperties]
  · rw [hcells x (hp.trans hpx.le) hx, hcell]
  · rintro ⟨hne, r, hr, hrx, hrequired, hfields⟩
    exact ⟨hne, r, hr, hrx, (hcells r hr (hrx.trans hx)).trans hrequired, hfields⟩

/-- The schemas of two groups that are alike are as good as each other. -/
theorem Spells.mirrors (h : s.Spells lo hi g v more) (h' : t.Spells lo' hi' g' w more)
    (htwin : Edit.Twin (s.Mirrors t) g g') : s.Mirrors t v w := by
  obtain ⟨x, p, fields, rfl, -, -, -, hproperties, hcell, hcases⟩ := h
  obtain ⟨x', p', fields', rfl, -, -, -, hproperties', hcell', hcases'⟩ := h'
  have hsame : ∀ entries : Entries Value, List.Forall₂ (Entries.Paired (s.Mirrors t)) entries entries := fun entries =>
    List.forall₂_same.mpr fun e _ => ⟨rfl, .refl s t e.2⟩
  refine mirrors_object hcell hcell' (.cons ⟨rfl, .refl s t _⟩ (.cons ⟨rfl, mirrors_object hproperties hproperties' htwin.2⟩ ?_))
  refine List.rel_append ?_ (hsame more)
  rcases hcases with ⟨hnil, rfl⟩ | ⟨hne, r, -, -, hrequired, rfl⟩ <;>
    rcases hcases' with ⟨hnil', rfl⟩ | ⟨hne', r', -, -, hrequired', rfl⟩
  · exact .nil
  · exact absurd (htwin.1.trans hnil) hne'
  · exact absurd (htwin.1.symm.trans hnil') hne
  · exact .cons ⟨rfl, mirrors_of_cell hrequired (htwin.1 ▸ hrequired')⟩ .nil

end Store

namespace Edit

/-- The schema of a group is made of new nodes. -/
theorem spells_of_groupSchema? {group : Option ParameterGroup} (h : Runs (groupSchema? group) s (some v) t) :
    ∃ g, group = some g ∧ t.Spells s.cells.size t.cells.size g v [] := by
  cases group with
  | none => cases (runs_pure.mp h).1
  | some g =>
  obtain ⟨v, t', hgroup, hdone⟩ := runs_bind.mp h
  obtain ⟨heq, rfl⟩ := runs_pure.mp hdone
  obtain rfl := Option.some.inj heq
  obtain ⟨properties, s₁, hproperties, hcases⟩ := runs_groupSchema hgroup
  obtain ⟨rfl, rfl⟩ := runs_newObject.mp hproperties
  refine ⟨g, rfl, ?_⟩
  rcases hcases with ⟨hnil, hnew⟩ | ⟨required, s₂, hne, hrequired, hnew⟩
  · obtain ⟨rfl, rfl⟩ := runs_newObject.mp hnew
    refine ⟨_, s.cells.size, [], rfl, le_rfl, by simp, by simp, ?_, by rw [Store.cells_add, if_pos rfl]; rfl, .inl ⟨hnil, rfl⟩⟩
    rw [Store.cells_add, if_neg (by simp), Store.cells_add, if_pos rfl]
  · obtain ⟨rfl, rfl⟩ := runs_newList.mp hrequired
    obtain ⟨rfl, rfl⟩ := runs_newObject.mp hnew
    refine ⟨_, s.cells.size, [(.text "required", .node (s.cells.size + 1))], rfl, le_rfl, by simp only [Store.size_add]; omega, by simp, ?_, ?_,
      .inr ⟨hne, s.cells.size + 1, by omega, by simp, ?_, rfl⟩⟩
    · rw [Store.cells_add, if_neg (by simp only [Store.size_add]; omega), Store.cells_add, if_neg (by simp), Store.cells_add, if_pos rfl]
    · rw [Store.cells_add, if_pos rfl]
      simp [Store.add]
    · rw [Store.cells_add, if_neg (by simp), Store.cells_add, if_pos (by simp)]

end Edit

namespace Store

variable {n n' lo hi lo' hi' : Nat} {ds : List Contribution} {location : String} {role : Role} {more : Entries Value}
  {allowed : Nat → String → Value → Prop}

/-- The value is the schema of what has been contributed to a location. The objects of all properties are the nodes from a
number on, and the schema lies behind them between two other numbers. -/
structure Collects (s : Store) (n lo hi : Nat) (ds : List Contribution) (location : String) (v : Value)
    (more : Entries Value) : Prop where
  le : n + ds.length ≤ lo
  property : ∀ k d, ds[k]? = some d → s.cells[n + k]? = some (.object d.fields)
  spells : ∃ g, (gather [] n ds).get? location = some g ∧ s.Spells lo hi g v more

theorem Collects.exists_node (h : s.Collects n lo hi ds location v more) : ∃ x, v = .node x ∧ lo ≤ x ∧ x < hi := by
  obtain ⟨_, -, x, p, _, rfl, hp, hpx, hx, -⟩ := h.spells
  exact ⟨x, rfl, by omega, hx⟩

/-- The same contributions to the same location are collected in schemas that are as good as each other. -/
theorem Collects.mirrors (h : s.Collects n lo hi ds location v more) (h' : t.Collects n' lo' hi' ds location w more) :
    s.Mirrors t v w := by
  obtain ⟨g, hg, hspells⟩ := h.spells
  obtain ⟨g', hg', hspells'⟩ := h'.spells
  have hpaired : List.Forall₂ (Entries.Paired (Edit.Twin (s.Mirrors t))) (gather [] n ds) (gather [] n' ds) :=
    Edit.paired_gather (fun k hk => by
      have hd : ds[k]? = some ds[k] := List.getElem?_eq_getElem hk
      exact mirrors_of_cell (h.property k _ hd) (h'.property k _ hd)) .nil
  rcases Entries.get?_of_paired hpaired location with ⟨hnone, -⟩ | ⟨a, b, ha, hb, htwin⟩
  · rw [hg] at hnone
    cases hnone
  · obtain rfl := Option.some.inj (hg.symm.trans ha)
    obtain rfl := Option.some.inj (hg'.symm.trans hb)
    exact hspells.mirrors hspells' htwin

/-- The schema of a group has its role behind the other entries if nothing else is put there. -/
theorem Collects.of_puts (h : s.Collects n lo hi ds location v []) (hputs : s.Puts allowed t)
    (honly : ∀ i key w, allowed i key w → n ≤ i ∧ i < n + ds.length ∨ lo ≤ i ∧ i < hi →
      v = .node i ∧ key = roleKey ∧ w = .text role.text)
    (hrole : t.field? v roleKey = some (.text role.text)) :
    t.Collects n lo hi ds location v [(roleKey, .text role.text)] := by
  have hle := h.le
  obtain ⟨g, hg, x, p, fields, rfl, hp, hpx, hx, hproperties, hcell, hcases⟩ := h.spells
  have hkept : ∀ {i : Nat} {cell : Cell}, s.cells[i]? = some cell → n ≤ i ∧ i < n + ds.length ∨ lo ≤ i ∧ i < hi → i ≠ x →
      t.cells[i]? = some cell := by
    intro i cell hi hrange hne
    refine (hputs.cells_eq (lt_size_of_cell hi) fun key w hallowed => ?_).trans hi
    exact hne (Value.node.inj (honly i key w hallowed hrange).1).symm
  refine ⟨hle, fun k d hd => ?_, g, hg, x, p, fields, rfl, hp, hpx, hx, ?_, ?_, hcases.imp_right ?_⟩
  · obtain ⟨hk, -⟩ := List.getElem?_eq_some_iff.mp hd
    exact hkept (h.property k d hd) (.inl ⟨by omega, by omega⟩) (by omega)
  · exact hkept hproperties (.inr ⟨hp, by omega⟩) hpx.ne
  · rw [hputs.cells_eq_put hcell (fun key w hallowed => (honly x key w hallowed (.inr ⟨by omega, hx⟩)).2) hrole,
      Entries.put_of_notMem]
    · simp
    · rcases hcases with ⟨-, rfl⟩ | ⟨-, r, -, -, -, rfl⟩ <;> simp [roleKey]
  · rintro ⟨hne, r, hr, hrx, hrequired, hfields⟩
    exact ⟨hne, r, hr, hrx, hkept hrequired (.inr ⟨hr, by omega⟩) hrx.ne, hfields⟩

end Store

namespace Edit

variable {root : Nat} {gates : Set Gate} {K : Set Nat} {path query : Option Value}

/-- The schemas of the groups collect what the parameters contribute to the path and to the query. -/
theorem collects_of_groupParameters (hgated : View.Gated root gates ⟨s, K⟩) (hv : View.Linked ⟨s, K⟩ v)
    (h : Runs (groupParameters (.node root) v) s (path, query) t) :
    ∃ items ds m, s.elements v = .ok items ∧ List.Forall₂ (s.Contributes (.node root)) items ds ∧
      (∀ v, path = some v → t.Collects s.cells.size (s.cells.size + ds.length) m ds "path" v []) ∧
      ∀ v, query = some v → t.Collects s.cells.size m t.cells.size ds "query" v [] := by
  obtain ⟨items, ds, s₂, helements, hds, -, hpath, hquery⟩ := (runs_groupParameters_iff hgated hv).mp h
  have hgrows := grows_groupSchema? hpath
  have hgrows' := grows_groupSchema? hquery
  have hproperty : ∀ k d, ds[k]? = some d → t.cells[s.cells.size + k]? = some (.object d.fields) := fun k d hd => by
    have hcell := Store.cells_addProperties (t := s) hd
    rwa [(hgrows.trans hgrows').agree _ (Store.lt_size_of_cell hcell)]
  have hsize := hgrows.size_le
  rw [Store.size_addProperties] at hsize
  refine ⟨items, ds, s₂.cells.size, helements, hds, ?_, ?_⟩
  · rintro v rfl
    obtain ⟨g, hg, hspells⟩ := spells_of_groupSchema? hpath
    rw [Store.size_addProperties] at hspells
    exact ⟨le_rfl, hproperty, g, hg, hspells.frame fun i _ hi => hgrows'.agree i hi⟩
  · rintro v rfl
    exact ⟨hsize, hproperty, spells_of_groupSchema? hquery⟩

end Edit

end DeviceApi
