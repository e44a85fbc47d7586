import DeviceApi.Proofs.Schema.CanonicalForm
import DeviceApi.Schema.Folding

/-!
# The catalogue in a store

The schemas of a catalogue become nodes that nothing else leads to. They hold trees and lie apart
from every older node, so no later change to an older node changes their shapes.
-/

namespace DeviceApi

namespace Store

variable {s s' s'' : Store} {v : Value} {values : List Value}

/-- The stores agree on the older nodes, and the values hold trees of which no older node is a
part. -/
structure Adds (s s' : Store) (values : List Value) : Prop extends Grows s s' where
  fresh : ∀ v ∈ values, ∀ id, s'.Reaches v id → s.cells.size ≤ id
  exists_holds : ∀ v ∈ values, ∃ t, s'.Holds v t

theorem Adds.nil : Adds s s [] where
  toGrows := .refl s
  fresh := by simp
  exists_holds := by simp

theorem Adds.cons (h : Adds s s' [v]) (h' : Adds s' s'' values) : Adds s s'' (v :: values) := by
  obtain ⟨t, ht⟩ := h.exists_holds v List.mem_cons_self
  have hkept : ∀ i, s'.Reaches v i → s''.cells[i]? = s'.cells[i]? :=
    fun i hi => h'.agree i (ht.reaches_lt hi)
  refine ⟨h.toGrows.trans h'.toGrows, fun w hw i hi => ?_, fun w hw => ?_⟩
  · rcases List.mem_cons.mp hw with rfl | hmem
    · exact h.fresh w List.mem_cons_self i (hi.of_agree hkept)
    · exact h.size_le.trans (h'.fresh w hmem i hi)
  · rcases List.mem_cons.mp hw with rfl | hmem
    · exact ⟨t, ht.frame hkept⟩
    · exact h'.exists_holds w hmem

/-- Values that have been added lie apart from every older node. -/
theorem Adds.apart {id : Nat} (h : Adds s s' values) (hid : id < s.cells.size) (hv : v ∈ values) :
    s'.Apart id v where
  not_reaches hreach := absurd (h.fresh v hv id hreach) (by omega)
  lt_size _ hi := by
    obtain ⟨t, ht⟩ := h.exists_holds v hv
    exact ht.reaches_lt hi

end Store

namespace Edit

variable {s s' : Store} {v : Value}

/-- A tree that is loaded and brought into canonical form is added to the store. -/
theorem adds_canonicalize {t : Tree} {u : Unit}
    (h : Runs (canonicalize (s.load t).1) (s.load t).2 u s') : s.Adds s' [(s.load t).1] := by
  have hload := Store.loads_load t s
  have htrims := trims_canonicalize h
  obtain ⟨u, hu⟩ := hload.exists_holds List.mem_cons_self
  have hfresh : ∀ i, (s.load t).2.Reaches (s.load t).1 i → s.cells.size ≤ i :=
    hload.fresh _ List.mem_cons_self
  refine ⟨⟨htrims.size_eq ▸ hload.size_le, fun i hi => ?_⟩, fun w hw i hi => ?_, fun w hw => ?_⟩
  · rw [htrims.agree i fun hreach => absurd (hfresh i hreach) (by omega), hload.agree i hi]
  · obtain rfl := List.mem_singleton.mp hw
    exact hfresh i (htrims.reaches hi)
  · obtain rfl := List.mem_singleton.mp hw
    exact htrims.exists_holds hu

end Edit

namespace Procedure

open Edit

variable {s s' : Session}

/-- Loading a catalogue adds one schema for each of its entries. -/
theorem adds_loadCatalogue {E : List (Scalar × Tree)} {schemas : Entries Value}
    (h : Runs (loadCatalogue (.object E)) s schemas s') :
    schemas.keys = Entries.keys E ∧ s.store.Adds s'.store schemas.values := by
  unfold loadCatalogue at h
  induction E generalizing s schemas with
  | nil =>
    obtain ⟨rfl, rfl⟩ := runs_pure.mp h
    exact ⟨rfl, .nil⟩
  | cons e rest ih =>
    obtain ⟨first, t, hfirst, schemas', hrest, rfl⟩ := runs_mapM_cons.mp h
    simp only [runs_bind, runs_monadLift, runs_loadTree, runs_pure] at hfirst
    obtain ⟨node, _, ⟨_, ⟨rfl, rfl⟩, rfl⟩, _, _, ⟨store, hcanonical, rfl⟩, rfl, rfl⟩ := hfirst
    obtain ⟨hkeys, hadds⟩ := ih hrest
    exact ⟨congrArg (e.1 :: ·) hkeys, (adds_canonicalize hcanonical).cons hadds⟩

/-- A catalogue of JSON trees is loaded in canonical form, and all of its schemas are objects. -/
theorem holds_loadCatalogue {E : List (Scalar × Tree)} {schemas : Entries Value}
    (hE : ∀ e ∈ E, e.2.IsJson) (h : Runs (loadCatalogue (.object E)) s schemas s') :
    List.Forall₂ s'.store.HoldsEntry schemas (E.map fun e => (e.1, e.2.canonical)) ∧
      ∀ e ∈ E, ∃ entries, e.2 = .object entries := by
  unfold loadCatalogue at h
  induction E generalizing s schemas with
  | nil =>
    obtain ⟨rfl, rfl⟩ := runs_pure.mp h
    exact ⟨.nil, by simp⟩
  | cons e rest ih =>
    obtain ⟨first, t, hfirst, schemas', hrest, rfl⟩ := runs_mapM_cons.mp h
    simp only [runs_bind, runs_monadLift, runs_loadTree, runs_pure] at hfirst
    obtain ⟨node, _, ⟨_, ⟨rfl, rfl⟩, rfl⟩, _, _, ⟨store, hcanonical, rfl⟩, rfl, rfl⟩ := hfirst
    obtain ⟨-, hadds⟩ := adds_loadCatalogue hrest
    obtain ⟨hheld, hobjects⟩ := ih (fun e he => hE e (List.mem_cons_of_mem _ he)) hrest
    have hjson := hE e List.mem_cons_self
    obtain ⟨id, values, hshape⟩ := exists_object_of_canonicalize hcanonical
    obtain ⟨entries, hentries, -⟩ := (Store.holds_load hjson s.store).object_of_shape hshape
    refine ⟨.cons ⟨rfl, (holds_canonical_of_load hjson hcanonical).extend hadds.toGrows⟩ hheld, ?_⟩
    exact List.forall_mem_cons.mpr ⟨⟨entries, hentries⟩, hobjects⟩

@[simp] theorem runs_shapeKeyOf {s s' : Store} {v : Value} {key : String} :
    Edit.Runs (shapeKeyOf v) s key s' ↔ s.shapeKey v = .ok key ∧ s = s' := by
  simp only [shapeKeyOf, runs_get_bind, runs_ofExcept]

/-- A shape that the catalogue is searched by is the one of the schema with the name found. -/
theorem catalogueShapes_sound {schemas : Entries Value} {shapes : Entries Scalar}
    (h : Runs (catalogueShapes schemas) s shapes s') :
    s' = s ∧ ∀ key name, shapes.get? (.text key) = some name →
      ∃ v, (name, v) ∈ schemas ∧ s.store.shapeKey v = .ok key := by
  refine Runs.foldlM_induct (fun _ shapes t => t = s ∧ ∀ key name,
    shapes.get? (.text key) = some name →
      ∃ v, (name, v) ∈ schemas ∧ s.store.shapeKey v = .ok key) h ⟨rfl, by simp⟩ ?_
  rintro done ⟨name, schema⟩ rest shapes t shapes' t' hdone ⟨rfl, hsound⟩ hrun
  simp only [runs_bind, runs_monadLift, runs_shapeKeyOf, runs_pure] at hrun
  obtain ⟨key, _, ⟨_, ⟨hkey, rfl⟩, rfl⟩, rfl, rfl⟩ := hrun
  refine ⟨rfl, fun key' name' hname => ?_⟩
  split at hname
  · exact hsound key' name' hname
  · rw [Entries.get?_put] at hname
    split at hname
    · next heq =>
      obtain rfl : name = name' := by simpa using hname
      exact ⟨schema, hdone ▸ by simp, heq ▸ hkey⟩
    · exact hsound key' name' hname

end Procedure

end DeviceApi
