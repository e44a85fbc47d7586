import DeviceApi.Proofs.Kinds.Agreement
import DeviceApi.Proofs.Kinds.Trees

/-!
# References in stores that differ in descriptions

A plain pointer leads through the components and one of their groups, where no description counts. So a
reference leads to the same node in two stores that are alike.
-/

namespace DeviceApi

variable {kinds ks ks' ks'' : List Kind} {k : Kind} {s s' : Store} {root v w : Value} {name p : String}
  {steps : List String}

namespace Kind

/-- The kinds to which a reference may lead. -/
def referred : List Kind := [described, schema, plain]

end Kind

namespace Store.Matches

section

variable (h : s.Matches kinds s')
include h

/-- A step goes to the same value in both stores from a node that is the same. -/
theorem step_eq (hv : v.IsOf kinds ks) (hks : ∀ k ∈ ks, k.isDescribed = false) : s'.step v name = s.step v name := by
  unfold step
  rw [h.shape_eq hv hks]

theorem isOf_step (hv : v.IsOf kinds ks)
    (hks : ∀ k ∈ ks, k ≠ .loose ∧ k.below (some (.text name)) ⊆ ks' ∧ k.items ⊆ ks')
    (hstep : s.step v name = .ok (some w)) : w.IsOf kinds ks' := by
  cases v with
  | scalar a => simp [step, shape] at hstep
  | node i =>
    obtain ⟨k, hk, hi⟩ := hv
    obtain ⟨hne, hbelow, hitems⟩ := hks k hk
    obtain ⟨cell, cell', hcell, -, -, hfits, -⟩ := h.cells i k hi
    cases hfits.json hne with
    | list items =>
      simp only [step, shape, hcell] at hstep
      split at hstep
      · cases hstep
      · have hmem : w ∈ items := List.mem_of_getElem? (Except.ok.inj hstep)
        exact (hfits.places (none, w) (List.mem_map.mpr ⟨w, hmem, rfl⟩)).of_subset hitems
      · cases hstep
    | object hkeys hnodup =>
      simp only [step, shape, hcell] at hstep
      exact (hfits.get? (Except.ok.inj hstep)).of_subset hbelow

/-- Steps lead to the same value in both stores if the first one does and those behind it. -/
theorem follow_eq (hv : v.IsOf kinds ks)
    (hks : ∀ k ∈ ks, k.isDescribed = false ∧ k ≠ .loose ∧ k.below (some (.text name)) ⊆ ks' ∧ k.items ⊆ ks')
    (hrest : ∀ u : Value, u.IsOf kinds ks' → s'.follow u steps = s.follow u steps ∧
      ∀ w, s.follow u steps = .ok (some w) → w.IsOf kinds ks'') :
    s'.follow v (name :: steps) = s.follow v (name :: steps) ∧
      ∀ w, s.follow v (name :: steps) = .ok (some w) → w.IsOf kinds ks'' := by
  rw [follow, follow, h.step_eq hv fun k hk => (hks k hk).1]
  cases hstep : s.step v name with
  | error m => exact ⟨rfl, fun w hw => by cases hw⟩
  | ok found =>
    cases found with
    | none => exact ⟨rfl, fun w hw => by cases hw⟩
    | some u =>
      have hu := h.isOf_step hv (fun k hk => (hks k hk).2) hstep
      obtain ⟨heq, hof⟩ := hrest u hu
      simp only [h.isNull_eq hu, heq]
      refine ⟨trivial, fun w hw => ?_⟩
      split at hw
      · cases hw
      · exact hof w hw

/-- A plain pointer leads to the same value in both stores. -/
theorem resolve_eq (hroot : root.IsOf kinds [.root]) (hplain : Pointer.Plain p) :
    s'.resolve root p = s.resolve root p ∧ ∀ w, s.resolve root p = .ok w → w.IsOf kinds Kind.referred := by
  obtain ⟨group, name, hsteps⟩ := hplain.exists_steps
  have hhere : ∀ u : Value, u.IsOf kinds Kind.referred → s'.follow u [] = s.follow u [] ∧
      ∀ w, s.follow u [] = .ok (some w) → w.IsOf kinds Kind.referred := fun u hu => by
    refine ⟨rfl, fun w heq => ?_⟩
    obtain rfl : u = w := by simpa [follow] using heq
    exact hu
  have hlast : ∀ u : Value, u.IsOf kinds [.table, .group, .plain] → s'.follow u [name] = s.follow u [name] ∧
      ∀ w, s.follow u [name] = .ok (some w) → w.IsOf kinds Kind.referred := fun u hu => by
    refine h.follow_eq hu ?_ hhere
    simp only [List.forall_mem_cons]
    exact ⟨⟨rfl, by decide, Kind.below_subset (by decide) _, by decide⟩,
      ⟨rfl, by decide, Kind.below_subset (by decide) _, by decide⟩,
      ⟨rfl, by decide, Kind.below_subset (by decide) _, by decide⟩, by simp⟩
  have hgroup : ∀ u : Value, u.IsOf kinds [.components, .plain] →
      s'.follow u [group, name] = s.follow u [group, name] ∧
      ∀ w, s.follow u [group, name] = .ok (some w) → w.IsOf kinds Kind.referred := fun u hu => by
    refine h.follow_eq hu ?_ hlast
    simp only [List.forall_mem_cons]
    exact ⟨⟨rfl, by decide, Kind.below_subset (by decide) _, by decide⟩,
      ⟨rfl, by decide, Kind.below_subset (by decide) _, by decide⟩, by simp⟩
  have hfollow : s'.follow root ["components", group, name] = s.follow root ["components", group, name] ∧
      ∀ w, s.follow root ["components", group, name] = .ok (some w) → w.IsOf kinds Kind.referred := by
    refine h.follow_eq hroot ?_ hgroup
    simp only [List.forall_mem_cons]
    exact ⟨⟨rfl, by decide, by decide, by decide⟩, by simp⟩
  unfold resolve
  rw [hsteps]
  dsimp only
  rw [hfollow.1]
  refine ⟨rfl, fun w hw => ?_⟩
  split at hw
  · next v heq => exact Except.ok.inj hw ▸ hfollow.2 v heq
  · cases hw
  · cases hw

/-- A chain of references ends at the same value in both stores. -/
theorem chainEnd_eq (hroot : root.IsOf kinds [.root]) (fuel : Nat) (seen : List String)
    (hv : v.IsOf kinds Kind.referred) : s'.chainEnd root fuel seen v = s.chainEnd root fuel seen v ∧
      ∀ w, s.chainEnd root fuel seen v = .ok w → w.IsOf kinds Kind.referred := by
  have hself : ∀ w, (.ok v : Except Fault Value) = .ok w → w.IsOf kinds Kind.referred := fun w hw =>
    Except.ok.inj hw ▸ hv
  induction fuel generalizing seen v with
  | zero => exact ⟨rfl, hself⟩
  | succ fuel ih =>
    unfold chainEnd
    rcases h.object_cases hv with ⟨hnone, hnone'⟩ | ⟨i, k, entries, entries', hk, hi, hshape, hshape', halike⟩
    · simp only [hnone, hnone']
      exact ⟨trivial, hself⟩
    · simp only [entries?_eq_some.mpr ⟨i, hshape⟩, entries?_eq_some.mpr ⟨i, hshape'⟩,
        show entries'.get? referenceKey = entries.get? referenceKey from halike.get?_eq (by decide)]
      cases hget : entries.get? referenceKey with
      | none => exact ⟨rfl, hself⟩
      | some pointer =>
        have hkinds : ∀ k ∈ Kind.referred, k.mayRefer = true ∧ k.below (some (.text referenceKey)) = [.plain] := by
          decide
        have hpointer : pointer.IsOf kinds [.plain] := (hkinds k hk).2 ▸ halike.fits.get? hget
        dsimp only
        rw [h.shape_eq hpointer (by decide)]
        cases hcontent : s.shape pointer with
        | scalar a =>
          cases a with
          | text p =>
            have htext : s.isText pointer p = true := by simp [isText, hcontent]
            obtain rfl : pointer = .text p := isText_iff.mp htext
            obtain ⟨hresolve, hof⟩ := h.resolve_eq hroot (halike.fits.pointer (hkinds k hk).1 entries p rfl hget)
            dsimp only
            split
            · exact ⟨rfl, by simp⟩
            · rw [hresolve]
              cases hnext : s.resolve root p with
              | error f => exact ⟨rfl, by simp⟩
              | ok u => exact ih (p :: seen) (hof u hnext) fun w hw => Except.ok.inj hw ▸ hof u hnext
          | _ => exact ⟨rfl, by simp⟩
        | _ => exact ⟨rfl, by simp⟩

/-- What a value refers to is the same in both stores. -/
theorem dereference_eq (hroot : root.IsOf kinds [.root]) (hv : v.IsOf kinds Kind.referred) :
    s'.dereference root v = s.dereference root v ∧
      ∀ w, s.dereference root v = .ok w → w.IsOf kinds Kind.referred := by
  unfold dereference
  rw [h.size_eq]
  exact h.chainEnd_eq hroot _ _ hv

end

end Store.Matches

namespace Edit

theorem runOn_get (s : Store) : (get : Edit Store).runOn s = (.ok s, s) := rfl

theorem runOn_dereference (s : Store) : (dereference root v).runOn s = (s.dereference root v, s) := by
  rw [dereference, runOn_bind, runOn_get]
  cases h : s.dereference root v <;> simp only [h] <;> rfl

namespace Agree

variable {β : Type} {R : List Kind → β → β → Prop}

theorem dereference_bind {next next' : Value → Edit β} (h : s.Matches kinds s') (hroot : root.IsOf kinds [.root])
    (hv : v.IsOf kinds Kind.referred)
    (hnext : ∀ w, s.dereference root v = .ok w → w.IsOf kinds Kind.referred →
      Agree kinds s s' (next w) (next' w) R) :
    Agree kinds s s' (dereference root v >>= next) (dereference root v >>= next') R := by
  obtain ⟨heq, hof⟩ := h.dereference_eq hroot hv
  refine read_bind (runOn_dereference s) (runOn_dereference s') ?_
  rw [heq]
  cases hdereference : s.dereference root v with
  | error f => exact .inl ⟨f, rfl, rfl⟩
  | ok w => exact .inr ⟨w, w, rfl, rfl, hnext w hdereference (hof w hdereference)⟩

theorem shownTree (h : s.Matches kinds s') (hv : v.IsOf kinds [.plain, .loose]) :
    Agree kinds s s' (shownTree v) (Edit.shownTree v) (Same fun _ _ => True) := by
  unfold Edit.shownTree
  refine get_bind ?_
  dsimp only
  rw [h.tree_eq hv]
  exact ite Iff.rfl (fun _ => pure h ⟨rfl, trivial⟩) fun _ => misfit

end Agree

end Edit

end DeviceApi
