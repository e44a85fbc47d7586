import DeviceApi.Proofs.Api.Accepted
import DeviceApi.Proofs.Api.Spelled

/-!
# The course of a classification

To classify an operation is to group its parameters and then to adopt one schema in each role. An operation that has been
classified can be classified once more. It adopts the same contents again, and its parameters have new schemas, which are
as good as those from before. So nothing that the document holds changes.
-/

namespace DeviceApi

variable {s s₁ t t₁ t' u u' u₁ z : Store} {v w : Value} {i : Nat} {key : String}

namespace Edit

variable {root c T : Nat} {entries : Entries Value} {table : SchemaTable} {op : Operation} {path path' : Value}
  {query query' : Option Value} {taken taken' : Role → Option Adoption} {K : Set Nat}

/-! ## Grouping parameters once more -/

section

variable {media tagged : Value → Prop}

namespace Steady

-- A parameter is neither a media type nor a part of one. It may well be a schema that has been tagged, but its role is not
-- among what it contributes to its group.
variable (h : Steady s t root c T entries table op media tagged)
include h

/-- Going over a part and over what stands in it leads to the same as before. -/
theorem overlaid_eq {fields : Entries Value} (hv : Ordinary s root c T entries v) (hpart : IsPart s c v)
    (hshape : t.shape v = s.shape v) : t.overlaid fields v = s.overlaid fields v := by
  refine Store.overlaid_eq_of_shape_eq hshape fun items helements item hitem => ?_
  obtain ⟨hordinary, hsame⟩ : Ordinary s root c T entries item ∧ t.shape item = s.shape item := by
    rcases Store.place_of_mem_elements helements hitem with ⟨a, rfl⟩ | ⟨i, cell, rfl, hcell, hplace⟩
    · exact ⟨ordinary_scalar a, rfl⟩
    · have hordinary := h.opened.ordinary_place hv hcell hplace
      cases item with
      | scalar a => exact ⟨hordinary, rfl⟩
      | node j =>
        obtain ⟨hmedia, htagged⟩ := h.not_of_isPart hpart ⟨cell, hcell, hplace⟩ (by simp)
        exact ⟨hordinary, h.shape_eq hordinary hmedia htagged⟩
  refine Store.pair_eq_of_shape_eq hsame h.puts.size_le fun others hothers x hx j hj => ?_
  rcases Store.place_of_mem_elements hothers hx with ⟨a, rfl⟩ | ⟨k, cell, rfl, hcell, hplace⟩
  · cases hj
  · exact (h.opened.ordinary_place hordinary hcell hplace).lt j hj

/-- A parameter contributes the same as before. -/
theorem contributes {d : Contribution} (hv : Ordinary s root c T entries v) (hpart : IsPart s c v)
    (hd : s.Contributes (.node root) v d) : t.Contributes (.node root) v d := by
  obtain ⟨w, id, parameter, hw, hshape, hlocation, hfields, hname, hkey, hrequired⟩ := hd
  have hplain := fun v p hv hp => (h.plain v p hv hp).1
  have hordinary := h.ordinary_dereference hv hw
  have hwpart := h.opened.isPart_dereference hplain hv hpart hw
  obtain ⟨id', parameter', hshape'⟩ := h.puts.isObject ⟨id, parameter, hshape⟩
  obtain ⟨hnode, hcell⟩ := Store.shape_eq_object.mp hshape
  have hget : ∀ key : String, key ≠ roleKey → parameter'.get? key = parameter.get? key := by
    intro key hrole
    have hsame := h.field_eq hordinary (fun _ => h.not_media_of_isPart hwpart) fun heq => absurd heq hrole
    rwa [Store.field?, Store.field?, Store.entries?_eq_some.mpr ⟨id, hshape⟩,
      Store.entries?_eq_some.mpr ⟨id', hshape'⟩] at hsame
  have hpresent : ∀ {key : String} {x : Value}, parameter.get? key = some x → Ordinary s root c T entries x :=
    fun hx => h.opened.ordinary_field hordinary (Store.field?_eq_some.mpr ⟨id, parameter, hshape, hx⟩)
  have hvalue : ∀ key : String, Ordinary s root c T entries ((parameter.get? key).getD .null) := by
    intro key
    cases hx : parameter.get? key with
    | none => exact ordinary_scalar .null
    | some x => exact hpresent hx
  have hdescribed : describedBy t parameter' = describedBy s parameter := by
    rw [describedBy, describedBy, hget "description" (by decide), h.isTruthy_eq (hvalue "description")]
  have hproperty : t.propertyFields parameter' = s.propertyFields parameter := by
    rw [Store.propertyFields, Store.propertyFields, hget "schema" (by decide), hdescribed, h.isTruthy_eq (hvalue "schema")]
    have hkey : ∀ type ∈ contentTypes, some (Scalar.text "schema") ≠ some (.text type) := by decide
    have hstands : ∀ x, (parameter.get? "schema").getD .null = .node x → s.Stands id (some (.text "schema")) x :=
      fun x hx => stands_of_get? hcell (Store.getD_eq_node.mp hx)
    rw [h.overlaid_eq (hvalue "schema") (fun x hx => ⟨id, _, hstands x hx, ?_, hkey⟩)]
    · cases hschema : (parameter.get? "schema").getD .null with
      | scalar a => rfl
      | node x =>
        obtain ⟨hmedia, htagged⟩ := h.not_of_isPart (hnode ▸ hwpart) (hstands x hschema) hkey
        exact h.shape_eq (hschema ▸ hvalue "schema") hmedia htagged
    · exact fun heq => hordinary.ne_components (hnode.trans (congrArg Value.node heq))
  refine ⟨w, id', parameter', (h.dereference_iff hv).mpr hw, hshape', ?_, hproperty.trans hfields,
    (hget "name" (by decide)).trans hname, ?_, ?_⟩
  · rw [hget "in" (by decide), Store.key_eq_of_lt (hvalue "in").lt h.puts.size_le, hlocation]
  · rw [Store.key_eq_of_lt (hpresent hname).lt h.puts.size_le, hkey]
  · rw [hget "required" (by decide), h.isTruthy_eq (hvalue "required"), hrequired]

/-- The parameters that an operation declares contribute the same as before. -/
theorem contributes_declared {items : List Value} {ds : List Contribution} (hobject : s.IsObject op.content)
    (hitems : s.elements (s.declared op "parameters") = .ok items)
    (hds : List.Forall₂ (s.Contributes (.node root)) items ds) :
    t.elements (t.declared op "parameters") = .ok items ∧ List.Forall₂ (t.Contributes (.node root)) items ds := by
  have hordinary := ordinary_declared h.opened h.content "parameters"
  have hshape : t.shape (t.declared op "parameters") = s.shape (s.declared op "parameters") :=
    h.shape_declared hobject (by decide) (by decide)
  refine ⟨by rw [Store.elements, hshape]; exact hitems, forall₂_imp_of_mem (fun item hitem d _ hd => ?_) hds⟩
  rcases Store.place_of_mem_elements hitems hitem with ⟨a, rfl⟩ | ⟨i, cell, hi, hcell, hplace⟩
  · exact h.contributes (ordinary_scalar a) (fun i hi => by cases hi) hd
  · rw [hi] at hordinary
    refine h.contributes (h.opened.ordinary_place hordinary hcell hplace) ?_ hd
    rintro x rfl
    exact ⟨i, none, ⟨cell, hcell, hplace⟩, fun heq => hordinary.ne_components (congrArg Value.node heq), by simp⟩

end Steady

end

/-! ## The course -/

/-- What may be put under a key of a node when all of this is adopted. -/
def Adopts (s : Store) (table : SchemaTable) (op : Operation) (taken : Role → Option Adoption) (i : Nat) (key : String)
    (w : Value) : Prop :=
  ∃ role x, taken role = some x ∧ x.Changes s table op role i key w

/-- An operation has been classified in a store `t`. Grouping its parameters has led to `t₁`, and after that nothing has
been put anywhere but what is adopted. -/
structure Course (s t t₁ t' : Store) (root c T : Nat) (entries : Entries Value) (table : SchemaTable) (op : Operation)
    (path : Value) (query : Option Value) (taken : Role → Option Adoption) : Prop where
  group : Runs (groupParameters (.node root) (t.declared op "parameters")) t (some path, query) t₁
  puts : t₁.Puts (Adopts s table op taken) t'
  held : Taken s t' root c T entries table op taken
  path : taken .path = some (.parameters path)
  request : op.method = .get ∧ (∃ v, query = some v ∧ taken .request = some (.parameters v)) ∨
    op.method ≠ .get ∧ query = none ∧ ∃ found, taken .request = some (.content found)
  response : ∃ found, taken .response = some (.content found)
  encoding : t'.field? op.content encodingKey = some (.text op.method.encoding.text)

variable (hplaced : Placed s root c T entries table op)
include hplaced

/-- Among new nodes, only the schemas of parameters are given something: their role. -/
theorem Adopts.tag_of_le (h : Adopts s table op taken i key w) (htaken : Taken s t root c T entries table op taken)
    (hle : s.cells.size ≤ i) : ∃ role, taken role = some (.parameters (.node i)) ∧ key = roleKey ∧ w = .text role.text := by
  obtain ⟨role, x, hx, hc⟩ := h
  cases hc with
  | registered hi => exact absurd (hplaced.schemas.lt i hi) (by omega)
  | handle hi | encoding hi => exact absurd (hplaced.object.lt i hi) (by omega)
  | media heq _ hi =>
    have hheld := hplaced.held (heq ▸ htaken.found role x hx)
    exact absurd (hheld.media.lt i hi) (by omega)
  | tag hi =>
    cases x with
    | parameters v => exact ⟨role, hi ▸ hx, rfl, rfl⟩
    | content found =>
      have hheld := hplaced.held (htaken.found role _ hx)
      exact absurd (hheld.schema.lt i hi) (by omega)

namespace Course

/-- In the end, the schemas of the groups still collect what the parameters contribute, and they have their roles. -/
theorem collects (h : Course s t t₁ t' root c T entries table op path query taken) (hle : s.cells.size ≤ t.cells.size)
    (hgated : View.Gated root (documentGates root (entries.get? "paths") c T) ⟨t, K⟩)
    (hlinked : View.Linked ⟨t, K⟩ (t.declared op "parameters")) :
    ∃ items ds lo, t.elements (t.declared op "parameters") = .ok items ∧
      List.Forall₂ (t.Contributes (.node root)) items ds ∧
      t'.Collects t.cells.size (t.cells.size + ds.length) lo ds "path" path [(roleKey, .text Role.path.text)] ∧
      ∀ v, query = some v → taken .request = some (.parameters v) →
        t'.Collects t.cells.size lo t₁.cells.size ds "query" v [(roleKey, .text Role.request.text)] := by
  obtain ⟨items, ds, lo, helements, hds, hpath, hquery⟩ := collects_of_groupParameters hgated hlinked h.group
  have hpath := hpath path rfl
  obtain ⟨x, rfl, hx, hxlo⟩ := hpath.exists_node
  have hsize := hpath.le
  -- Where a role is put, and which one it is.
  have hcases : ∀ {i key w}, Adopts s table op taken i key w → t.cells.size ≤ i → key = roleKey ∧
      (i = x ∧ w = .text Role.path.text ∨
        query = some (.node i) ∧ lo ≤ i ∧ i < t₁.cells.size ∧ w = .text Role.request.text) := by
    intro i key w hc hi
    obtain ⟨role, hrole, hkey, hw⟩ := hc.tag_of_le hplaced h.held (hle.trans hi)
    refine ⟨hkey, ?_⟩
    obtain rfl | ⟨rfl, -⟩ := (h.held.found role _ hrole).2
    · have heq := hrole.symm.trans h.path
      simp only [Option.some.injEq, Adoption.parameters.injEq, Value.node.injEq] at heq
      exact .inl ⟨heq, hw⟩
    · rcases h.request with ⟨-, v, hv, hrequest⟩ | ⟨-, -, found, hrequest⟩
      · have heq := hrole.symm.trans hrequest
        simp only [Option.some.injEq, Adoption.parameters.injEq] at heq
        subst heq
        obtain ⟨y, heq, hy, hylo⟩ := (hquery _ hv).exists_node
        obtain rfl := Value.node.inj heq
        exact .inr ⟨hv, hy, hylo, hw⟩
      · cases hrole.symm.trans hrequest
  refine ⟨items, ds, lo, helements, hds, ?_, fun v hv hrequest => ?_⟩
  · refine hpath.of_puts h.puts (fun i key w hc hrange => ?_) (h.held.trace .path _ h.path).role_eq
    obtain ⟨hkey, ⟨rfl, hw⟩ | ⟨-, hi, -⟩⟩ := hcases hc (by omega)
    · exact ⟨rfl, hkey, hw⟩
    · omega
  · have hlo := (hquery v hv).le
    refine (hquery v hv).of_puts h.puts (fun i key w hc hrange => ?_) (h.held.trace .request _ hrequest).role_eq
    obtain ⟨hkey, ⟨rfl, hw⟩ | ⟨hi, -, -, hw⟩⟩ := hcases hc (by omega)
    · omega
    · exact ⟨Option.some.inj (hv.symm.trans hi), hkey, hw⟩

variable (h : Course s s s₁ u root c T entries table op path query taken)
  (h' : Course s u u₁ z root c T entries table op path' query' taken')
include h h'

/-- What is adopted once more is like what has been adopted. -/
theorem alike (hgated : View.Gated root (documentGates root (entries.get? "paths") c T) ⟨u, K⟩)
    (hknown : {i | i < s.cells.size} ⊆ K) (role : Role) {y : Adoption} (hy : taken' role = some y) :
    ∃ x, taken role = some x ∧ Adoption.Alike u z x y := by
  have hordinary := ordinary_declared hplaced.opened hplaced.content "parameters"
  have hdeclared : u.declared op "parameters" = s.declared op "parameters" :=
    h.held.declared_eq hplaced.object (by decide)
  obtain ⟨items, ds, lo, helements, hds, hpath, hquery⟩ := h.collects hplaced le_rfl hplaced.opened.gated hordinary.linked
  obtain ⟨items', ds', lo', helements', hds', hpath', hquery'⟩ := h'.collects hplaced h.held.puts.size_le hgated
    (hdeclared ▸ hordinary.linked.mono hknown)
  obtain ⟨hsame, hcontributes⟩ := h.held.contributes_declared hplaced.object helements hds
  obtain rfl := Except.ok.inj (hsame.symm.trans helements')
  obtain rfl := List.right_unique_forall₂' (fun _ _ _ hd hd' => hd.unique hd') hcontributes hds'
  have hnew := (new_of_groupParameters h'.group).1
  cases role with
  | path =>
    obtain rfl := Option.some.inj (h'.path.symm.trans hy)
    refine ⟨_, h.path, .parameters (fun i hi => ?_) (hpath.mirrors hpath')⟩
    obtain ⟨x, _, hx, hle, -⟩ := hnew path' (by simp)
    exact Value.node.inj (hx.symm.trans hi) ▸ hle
  | request =>
    rcases h'.request with ⟨hmethod, v', hv', hrequest'⟩ | ⟨hmethod, -, found', hrequest'⟩
    · obtain rfl := Option.some.inj (hrequest'.symm.trans hy)
      obtain ⟨-, v, hv, hrequest⟩ := h.request.resolve_right fun hnot => hnot.1 hmethod
      refine ⟨_, hrequest, .parameters (fun i hi => ?_) ((hquery v hv hrequest).mirrors (hquery' v' hv' hrequest'))⟩
      obtain ⟨x, _, hx, hle, -⟩ := hnew v' (by simp [hv'])
      exact Value.node.inj (hx.symm.trans hi) ▸ hle
    · obtain rfl := Option.some.inj (hrequest'.symm.trans hy)
      obtain ⟨-, -, found, hrequest⟩ := h.request.resolve_left fun hnot => hmethod hnot.1
      obtain rfl := (h.held.found .request _ hrequest).1.unique (h'.held.found .request _ hrequest').1
      exact ⟨_, hrequest, .content found⟩
  | response =>
    obtain ⟨found', hresponse'⟩ := h'.response
    obtain rfl := Option.some.inj (hresponse'.symm.trans hy)
    obtain ⟨found, hresponse⟩ := h.response
    obtain rfl := (h.held.found .response _ hresponse).1.unique (h'.held.found .response _ hresponse').1
    exact ⟨_, hresponse, .content found⟩

end Course

end Edit

end DeviceApi
