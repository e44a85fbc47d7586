import DeviceApi.Normalization
import DeviceApi.Proofs.Api.Parameters

/-!
# Writes of classification

Classification tags schemas, writes under a few keys of operations and their contents, and puts
schemas into the table. None of these writes moves a gate, and what was in the document under other
keys stays there.
-/

namespace DeviceApi

/-- The keys under which classification puts something, the table aside. -/
def classificationKeys : List String :=
  [roleKey, "schema", encodingKey, methodNameKey] ++ Role.all.map Role.operationKey

/-- The name is one that an operation gives to a schema. -/
def IsGenerated (name : String) : Prop :=
  ∃ (op : Operation) (role : Role), name = op.schemaName role

theorem IsGenerated.ne_type {name : String} (h : IsGenerated name) : name ≠ "type" := by
  obtain ⟨op, role, rfl⟩ := h
  intro heq
  have hlist := congrArg (List.reverse ∘ String.toList) heq
  cases role <;>
    simp [Operation.schemaName, Role.text, String.toList_append] at hlist

/-- What classification leaves of the entries of an object. Only the table may be given its first
entry, and only the table is given entries under generated names. -/
structure Outlasts (inTable : Prop) (entries entries' : Entries Value) : Prop where
  filled : entries ≠ [] → entries' ≠ []
  empty : ¬ inTable → entries = [] → entries' = []
  keys_prefix : entries.keys <+: entries'.keys
  get?_eq : ∀ key, key ∉ classificationKeys → (inTable → ¬ IsGenerated key) →
    entries'.get? (.text key) = entries.get? (.text key)

namespace Outlasts

variable {inTable : Prop} {entries entries' entries'' : Entries Value}

theorem refl (inTable : Prop) (entries : Entries Value) : Outlasts inTable entries entries :=
  ⟨id, fun _ => id, List.prefix_rfl, fun _ _ _ => rfl⟩

theorem trans (h : Outlasts inTable entries entries') (h' : Outlasts inTable entries' entries'') :
    Outlasts inTable entries entries'' where
  filled hne := h'.filled (h.filled hne)
  empty hnot hnil := h'.empty hnot (h.empty hnot hnil)
  keys_prefix := h.keys_prefix.trans h'.keys_prefix
  get?_eq key hkey hname := (h'.get?_eq key hkey hname).trans (h.get?_eq key hkey hname)

theorem put {key : String} {v : Value} (hfilled : ¬ inTable → entries ≠ [])
    (hkey : key ∈ classificationKeys ∨ inTable ∧ IsGenerated key) :
    Outlasts inTable entries (entries.put (.text key) v) where
  filled _ hnil := by
    have hget : (entries.put (.text key) v).get? (.text key) = some v := Entries.get?_put_self
    simp [hnil] at hget
  empty hnot hnil := absurd hnil (hfilled hnot)
  keys_prefix := by
    rw [Entries.keys_put]
    split
    · exact List.prefix_rfl
    · exact List.prefix_append _ _
  get?_eq key' hkey' hname := by
    rw [Entries.get?_put, if_neg]
    rintro rfl
    rcases hkey with hwritten | ⟨hin, hgenerated⟩
    · exact hkey' hwritten
    · exact hname hin hgenerated

end Outlasts

variable {root : Nat} {gates : Set Gate} {strict : Prop} {table : Nat}

/-- From one view of a document to another by writes of classification. The entries are those that
are registered in the table on the way. If the writes are strict, none of them puts a node inside of
itself. -/
inductive Classifies (root : Nat) (gates : Set Gate) (strict : Prop) (table : Nat) :
    View → Entries Value → View → Prop
  | extend {view view' : View} (hext : view.Extends root gates view') :
      Classifies root gates strict table view [] view'
  | tag {s : Store} {K : Set Nat} {i : Nat} {entries : Entries Value} (role : Role) (hi : i ∈ K)
      (hcrowded : ¬ Crowded root gates i) (hcell : s.cells[i]? = some (.object entries))
      (hobject : entries.get? "type" = some (.text "object")) :
      Classifies root gates strict table ⟨s, K⟩ []
        ⟨s.set i (.object (entries.put (.text roleKey) (.text role.text))), K⟩
  | write {s : Store} {K : Set Nat} {i : Nat} {entries : Entries Value} {key : String} {v : Value}
      (hi : View.Writable root gates ⟨s, K⟩ (.node i)) (hcell : s.cells[i]? = some (.object entries))
      (hfilled : entries ≠ []) (hkey : key ∈ classificationKeys)
      (hv : View.Free root gates ⟨s, K⟩ v) (hnot : strict → ¬ s.Reaches v i) :
      Classifies root gates strict table ⟨s, K⟩ []
        ⟨s.set i (.object (entries.put (.text key) v)), K⟩
  | register {s : Store} {K : Set Nat} {entries : Entries Value} {name : String} {v : Value}
      (hcell : s.cells[table]? = some (.object entries)) (hname : IsGenerated name)
      (hv : View.Free root gates ⟨s, K⟩ v) :
      Classifies root gates strict table ⟨s, K⟩ [(.text name, v)]
        ⟨s.set table (.object (entries.put (.text name) v)), K⟩
  | trans {view view' view'' : View} {entries entries' : Entries Value}
      (h : Classifies root gates strict table view entries view')
      (h' : Classifies root gates strict table view' entries' view'') :
      Classifies root gates strict table view (entries ++ entries') view''

namespace Classifies

variable {view view' view'' : View} {registered : Entries Value} {i : Nat} {cell : Cell}
  {entries entries' : Entries Value} {v : Value} {key : String}

theorem refl (h : view.Gated root gates) : Classifies root gates strict table view [] view :=
  .extend (.refl h)

/-- A table that is not on the way to a gate stays so, and with it all gates. -/
theorem gated (h : Classifies root gates strict table view registered view')
    (htable : ∀ g ∈ gates, g.owner ≠ table) (hgated : view.Gated root gates)
    (hpassage : Passage root gates) : view'.Gated root gates := by
  induction h with
  | extend hext => exact hext.gated
  | tag role hi hcrowded hcell hobject =>
    exact hgated.put hcell View.free_scalar (hpassage.ne_key hcrowded (by decide))
  | write hi hcell hfilled hkey hv =>
    exact hgated.put hcell hv fun g hg howner => absurd howner ((hi _ rfl).2.2 g hg).1
  | register hcell hname hv =>
    exact hgated.put hcell hv fun g hg howner => absurd howner (htable g hg)
  | trans h h' ih ih' => exact ih' (ih hgated)

/-- Writes that keep some gates keep fewer gates as well, and need not be strict. -/
theorem of_subset {gates' : Set Gate} (h : Classifies root gates strict table view registered view')
    (hsub : gates' ⊆ gates) : Classifies root gates' False table view registered view' := by
  have hfree : ∀ {view : View} {v : Value}, view.Free root gates v → view.Free root gates' v :=
    fun hv x hx => ⟨(hv x hx).1, (hv x hx).2.1, fun g hg => (hv x hx).2.2 g (hsub hg)⟩
  induction h with
  | extend hext => exact .extend ⟨hext.grows, hext.known_sub, hext.gated.of_subset hsub, hext.sound⟩
  | tag role hi hcrowded hcell hobject =>
    exact .tag role hi (fun hc => hcrowded ⟨hsub hc.1, hc.2.imp fun _ hg => ⟨hsub hg.1, hg.2⟩⟩) hcell hobject
  | write hi hcell hfilled hkey hv =>
    exact .write (fun x hx => ⟨(hi x hx).1, (hi x hx).2.1, fun g hg => (hi x hx).2.2 g (hsub hg)⟩) hcell
      hfilled hkey (hfree hv) False.elim
  | register hcell hname hv => exact .register hcell hname (hfree hv)
  | trans h h' ih ih' => exact .trans ih ih'

/-- Strict writes bring in no cycle. -/
theorem sound (h : Classifies root gates True table view registered view')
    (htable : ∀ g ∈ gates, g.owner ≠ table) (hgate : ∃ g ∈ gates, g.node = table)
    (hpassage : Passage root gates) (hgated : view.Gated root gates) (hsound : view.Sound) :
    view'.Sound := by
  induction h with
  | extend hext => exact hext.sound hsound
  | tag role hi hcrowded hcell hobject => exact hsound.put hi hcell View.linked_scalar (by simp)
  | write hi hcell hfilled hkey hv hnot =>
    exact hsound.put (hi _ rfl).1 hcell hv.linked (hnot trivial)
  | register hcell hname hv =>
    obtain ⟨g, hg, rfl⟩ := hgate
    refine hsound.put (hgated.gate_known g hg) hcell hv.linked fun hreach => ?_
    exact (hgated.free_of_reaches hpassage hv hreach g.node rfl).2.2 g hg rfl
  | trans h h' ih ih' => exact ih' (h.gated htable hgated hpassage) (ih hgated hsound)

theorem known_sub (h : Classifies root gates strict table view registered view') :
    view.known ⊆ view'.known := by
  induction h with
  | extend hext => exact hext.known_sub
  | tag | write | register => exact subset_rfl
  | trans h h' ih ih' => exact ih.trans ih'

theorem size_le (h : Classifies root gates strict table view registered view') :
    view.store.cells.size ≤ view'.store.cells.size := by
  induction h with
  | extend hext => exact hext.grows.size_le
  | tag | write | register => simp
  | trans h h' ih ih' => exact ih.trans ih'

theorem exists_text (h : Classifies root gates strict table view registered view') :
    ∀ key ∈ registered.keys, ∃ t, key = .text t := by
  induction h with
  | extend | tag | write => simp
  | @register s K entries name v hcell hname hv =>
    intro key hkey
    exact ⟨name, by simpa using hkey⟩
  | trans h h' ih ih' =>
    intro key hkey
    rw [Entries.keys_append] at hkey
    rcases List.mem_append.mp hkey with hmem | hmem
    · exact ih key hmem
    · exact ih' key hmem

/-- What is no object stays as it is. -/
theorem cell_eq (h : Classifies root gates strict table view registered view')
    (hcell : view.store.cells[i]? = some cell) (hnot : ∀ entries, cell ≠ .object entries) :
    view'.store.cells[i]? = some cell := by
  have hset : ∀ {s : Store} {j : Nat} {entries entries' : Entries Value},
      s.cells[j]? = some (.object entries) → s.cells[i]? = some cell →
      (s.set j (.object entries')).cells[i]? = some cell := by
    intro s j entries entries' hobject hcell
    rw [Store.cells_set, if_neg]
    · exact hcell
    · rintro ⟨rfl, -⟩
      exact hnot entries (by simpa [hcell] using hobject)
  induction h with
  | extend hext => exact (hext.grows.agree i (Store.lt_size_of_cell hcell)).trans hcell
  | tag role _ _ hobject _ => exact hset hobject hcell
  | write _ hobject _ _ _ _ => exact hset hobject hcell
  | register hobject _ _ => exact hset hobject hcell
  | trans h h' ih ih' => exact ih' (ih hcell)

/-- An object stays one. -/
theorem object (h : Classifies root gates strict table view registered view')
    (hcell : view.store.cells[i]? = some (.object entries)) :
    ∃ entries', view'.store.cells[i]? = some (.object entries') ∧
      Outlasts (i = table) entries entries' := by
  have hset : ∀ {s : Store} {j : Nat} {before entries after : Entries Value},
      s.cells[j]? = some (.object before) → s.cells[i]? = some (.object entries) →
      Outlasts (j = table) before after →
      ∃ entries', (s.set j (.object after)).cells[i]? = some (.object entries') ∧
        Outlasts (i = table) entries entries' := by
    intro s j before entries after hbefore hcell hafter
    by_cases hi : i = j
    · subst hi
      obtain rfl : before = entries := by simpa [hcell] using hbefore.symm
      exact ⟨after, by rw [Store.cells_set, if_pos ⟨rfl, Store.lt_size_of_cell hcell⟩], hafter⟩
    · exact ⟨entries, by rw [Store.cells_set, if_neg fun h => hi h.1, hcell], .refl _ _⟩
  induction h generalizing entries with
  | extend hext =>
    exact ⟨entries, (hext.grows.agree i (Store.lt_size_of_cell hcell)).trans hcell, .refl _ _⟩
  | tag role _ _ hobject htype =>
    refine hset hobject hcell (.put (fun _ hnil => ?_) (.inl (by simp [classificationKeys])))
    simp [hnil] at htype
  | write _ hobject hfilled hkey _ _ => exact hset hobject hcell (.put (fun _ => hfilled) (.inl hkey))
  | register hobject hname _ =>
    exact hset hobject hcell (.put (fun h => absurd rfl h) (.inr ⟨rfl, hname⟩))
  | trans h h' ih ih' =>
    obtain ⟨middle, hmiddle, houtlasts⟩ := ih hcell
    obtain ⟨last, hlast, houtlasts'⟩ := ih' hmiddle
    exact ⟨last, hlast, houtlasts.trans houtlasts'⟩

/-- Whether a value counts as present does not change, the table aside. -/
theorem isTruthy_eq (h : Classifies root gates strict table view registered view')
    (hgated : view.Gated root gates) (hv : view.Linked v) (hnot : v ≠ .node table) :
    view'.store.isTruthy v = view.store.isTruthy v := by
  cases v with
  | scalar a => rfl
  | node i =>
    have hlt : i < view.store.cells.size := hgated.lt i (hv i rfl)
    have hcell : view.store.cells[i]? = some view.store.cells[i] := Array.getElem?_eq_getElem hlt
    unfold Store.isTruthy Store.shape
    cases hkind : view.store.cells[i] with
    | object entries =>
      rw [hkind] at hcell
      obtain ⟨entries', hcell', houtlasts⟩ := h.object hcell
      have hiff : entries' = [] ↔ entries = [] :=
        ⟨fun hnil => by_contra fun hne => houtlasts.filled hne hnil,
          houtlasts.empty fun heq => hnot (heq ▸ rfl)⟩
      simp only [hcell, hcell']
      rw [Bool.eq_iff_iff]
      simp [hiff]
    | list items =>
      rw [hkind] at hcell
      simp only [hcell, h.cell_eq hcell (by simp)]
    | pair key value =>
      rw [hkind] at hcell
      simp only [hcell, h.cell_eq hcell (by simp)]
    | set members =>
      rw [hkind] at hcell
      simp only [hcell, h.cell_eq hcell (by simp)]

theorem get?_type_eq (h : Classifies root gates strict table view registered view')
    (hcell : view.store.cells[i]? = some (.object entries))
    (hcell' : view'.store.cells[i]? = some (.object entries')) :
    entries'.get? "type" = entries.get? "type" := by
  obtain ⟨last, hlast, houtlasts⟩ := h.object hcell
  obtain rfl : last = entries' := by simpa [hcell'] using hlast.symm
  exact houtlasts.get?_eq "type" (by decide) fun _ hname => hname.ne_type rfl

/-- A gate on the way to the table that does not state a type like a schema is not tagged like one, so
nothing comes into it, except into the table what is registered. -/
theorem gate_cell (h : Classifies root gates strict table view registered view')
    (hgate : ∃ g ∈ gates, g.node = i ∧ g.key ∈ wayKeys) (hcell : view.store.cells[i]? = some (.object entries))
    (hnot : entries.get? "type" ≠ some (.text "object")) :
    view'.store.cells[i]? =
      some (.object (if i = table then entries.putAll registered else entries)) := by
  induction h generalizing entries with
  | extend hext => simpa using (hext.grows.agree i (Store.lt_size_of_cell hcell)).trans hcell
  | @tag s K j before role _ _ hobject htype =>
    rw [Store.cells_set, if_neg]
    · simpa using hcell
    · rintro ⟨rfl, -⟩
      obtain rfl : before = entries := by simpa [hcell] using hobject.symm
      exact hnot htype
  | write hj hobject _ _ _ _ =>
    rw [Store.cells_set, if_neg]
    · simpa using hcell
    · rintro ⟨rfl, -⟩
      obtain ⟨g, hg, hnode, hkey⟩ := hgate
      exact ((hj _ rfl).2.2 g hg).2 hnode hkey
  | @register s K before name v hobject hname _ =>
    rw [Store.cells_set]
    by_cases hi : i = table
    · subst hi
      obtain rfl : before = entries := by simpa [hcell] using hobject.symm
      rw [if_pos ⟨rfl, Store.lt_size_of_cell hcell⟩, if_pos rfl]
      rfl
    · rw [if_neg fun h => hi h.1, if_neg hi]
      exact hcell
  | trans h h' ih ih' =>
    have hmiddle := ih hcell hnot
    have hlast := ih' hmiddle (h.get?_type_eq hcell hmiddle ▸ hnot)
    by_cases hi : i = table
    · simpa only [if_pos hi, Entries.putAll_append] using hlast
    · simpa only [if_neg hi] using hlast

/-- Nothing comes into the paths when gates stand in them. -/
theorem cell_of_crowded (h : Classifies root gates strict table view registered view')
    (htable : ∀ g ∈ gates, g.owner ≠ table) (hpassage : Passage root gates)
    (hgated : view.Gated root gates) (hi : Crowded root gates i) :
    view'.store.cells[i]? = view.store.cells[i]? := by
  obtain ⟨g, hg, howner⟩ := hi.2
  induction h with
  | extend hext => exact hext.grows.agree i (hgated.lt i (hgated.gate_known _ hi.1))
  | tag role _ hcrowded _ _ =>
    rw [Store.cells_set, if_neg]
    rintro ⟨rfl, -⟩
    exact hcrowded hi
  | write hj _ _ _ _ _ =>
    rw [Store.cells_set, if_neg]
    rintro ⟨rfl, -⟩
    exact ((hj _ rfl).2.2 g hg).1 howner
  | register _ _ _ =>
    rw [Store.cells_set, if_neg]
    rintro ⟨rfl, -⟩
    exact htable g hg howner
  | trans h h' ih ih' => exact (ih' (h.gated htable hgated hpassage)).trans (ih hgated)

theorem quiet (h : Classifies root gates strict table view registered view')
    (htable : ∀ g ∈ gates, g.owner ≠ table) (hpassage : Passage root gates)
    (hgated : view.Gated root gates) (hquiet : Edit.Quiet root gates view.store) :
    Edit.Quiet root gates view'.store := fun x entries hx hcell =>
  hquiet x entries hx (h.cell_of_crowded htable hpassage hgated hx ▸ hcell)

end Classifies

end DeviceApi
