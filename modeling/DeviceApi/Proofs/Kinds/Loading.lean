import DeviceApi.Proofs.Document.Contained
import DeviceApi.Proofs.Kinds.Stores

/-!
# Documents that are loaded with other descriptions

Two JSON documents may differ in the texts of their descriptions: those of parameters, bodies and responses, and those
of their schemas and of the schemas below these. Which nodes these are follows from their places. When both documents
are loaded, the stores are alike.
-/

namespace DeviceApi

/-- The kind that a document declares at a place of a node of this kind. -/
def Kind.declared (kind : Kind) (place : Option Scalar) : Kind := (kind.below place).headD .plain

namespace Tree

/-- The values are texts of a description that says something about a node of this kind. -/
structure AreDescriptions (kind : Kind) (key : Scalar) (t u : Tree) : Prop where
  described : kind.isDescribed = true
  key_eq : key = .text descriptionKey
  left : t.text?.isSome = true
  right : u.text?.isSome = true

instance {kind : Kind} {key : Scalar} {t u : Tree} : Decidable (AreDescriptions kind key t u) :=
  decidable_of_iff (kind.isDescribed = true ∧ key = .text descriptionKey ∧ t.text?.isSome = true ∧ u.text?.isSome = true)
    ⟨fun h => ⟨h.1, h.2.1, h.2.2.1, h.2.2.2⟩, fun h => ⟨h.described, h.key_eq, h.left, h.right⟩⟩

theorem exists_text {t : Tree} (h : t.text?.isSome = true) : ∃ a, t = .text a := by
  unfold text? at h
  split at h
  · exact ⟨_, rfl⟩
  · cases h

mutual

/-- The trees are JSON for a node of the kind, and the same but for the texts of descriptions. -/
def Redescribed (kind : Kind) : Tree → Tree → Prop
  | .scalar a, .scalar b => b = a ∧ a.isJson = true
  | .list items, .list others => RedescribedItems (kind.declared none) items others
  | .object entries, .object others => Entries.TextKeyed entries ∧ RedescribedEntries kind entries others
  | _, _ => False

/-- The items of two lists are the same but for descriptions. -/
def RedescribedItems (kind : Kind) : List Tree → List Tree → Prop
  | [], [] => True
  | t :: ts, u :: us => Redescribed kind t u ∧ RedescribedItems kind ts us
  | _, _ => False

/-- The entries of two objects of the kind are the same but for descriptions. -/
def RedescribedEntries (kind : Kind) : List (Scalar × Tree) → List (Scalar × Tree) → Prop
  | [], [] => True
  | (key, t) :: ts, (key', u) :: us => key' = key ∧
      (Redescribed (kind.declared (some key)) t u ∨ AreDescriptions kind key t u) ∧ RedescribedEntries kind ts us
  | _, _ => False

end

mutual

/-- Going through two trees at once tells whether they are the same but for descriptions. -/
def decideRedescribed (kind : Kind) : (t u : Tree) → Decidable (Redescribed kind t u)
  | .scalar _, .scalar _ => inferInstanceAs (Decidable (_ ∧ _))
  | .list items, .list others => decideRedescribedItems (kind.declared none) items others
  | .object entries, .object others => @instDecidableAnd _ _ inferInstance (decideRedescribedEntries kind entries others)
  | .scalar _, .list _ | .scalar _, .pair .. | .scalar _, .set _ | .scalar _, .object _ | .scalar _, .enclosing _ =>
    .isFalse id
  | .list _, .scalar _ | .list _, .pair .. | .list _, .set _ | .list _, .object _ | .list _, .enclosing _ =>
    .isFalse id
  | .object _, .scalar _ | .object _, .list _ | .object _, .pair .. | .object _, .set _ | .object _, .enclosing _ =>
    .isFalse id
  | .pair .., _ | .set _, _ | .enclosing _, _ => .isFalse id

def decideRedescribedItems (kind : Kind) : (ts us : List Tree) → Decidable (RedescribedItems kind ts us)
  | [], [] => .isTrue trivial
  | t :: ts, u :: us => @instDecidableAnd _ _ (decideRedescribed kind t u) (decideRedescribedItems kind ts us)
  | [], _ :: _ => .isFalse id
  | _ :: _, [] => .isFalse id

def decideRedescribedEntries (kind : Kind) :
    (ts us : List (Scalar × Tree)) → Decidable (RedescribedEntries kind ts us)
  | [], [] => .isTrue trivial
  | (key, t) :: ts, (_, u) :: us => @instDecidableAnd _ _ inferInstance (@instDecidableAnd _ _
      (@instDecidableOr _ _ (decideRedescribed (kind.declared (some key)) t u) inferInstance)
      (decideRedescribedEntries kind ts us))
  | [], _ :: _ => .isFalse id
  | _ :: _, [] => .isFalse id

end

instance {kind : Kind} {t u : Tree} : Decidable (Redescribed kind t u) := decideRedescribed kind t u

/-- The values of two entries are the same but for descriptions. -/
def RedescribedEntry (kind : Kind) (e e' : Scalar × Tree) : Prop :=
  e'.1 = e.1 ∧ (Redescribed (kind.declared (some e.1)) e.2 e'.2 ∨ AreDescriptions kind e.1 e.2 e'.2)

theorem redescribedItems_iff {kind : Kind} {ts us : List Tree} :
    RedescribedItems kind ts us ↔ List.Forall₂ (Redescribed kind) ts us := by
  induction ts generalizing us with
  | nil => cases us <;> simp [RedescribedItems]
  | cons t ts ih => cases us <;> simp [RedescribedItems, ih]

theorem redescribedEntries_iff {kind : Kind} {ts us : List (Scalar × Tree)} :
    RedescribedEntries kind ts us ↔ List.Forall₂ (RedescribedEntry kind) ts us := by
  induction ts generalizing us with
  | nil => cases us <;> simp [RedescribedEntries]
  | cons t ts ih => cases us <;> simp [RedescribedEntries, RedescribedEntry, ih, and_assoc]

end Tree

theorem Entries.TextKeyed.of_keys_eq {α β : Type} {entries : Entries α} {others : Entries β} (h : entries.TextKeyed)
    (heq : others.keys = entries.keys) : others.TextKeyed :=
  ⟨heq ▸ h.exists_text, heq ▸ h.nodup⟩

variable {kinds kinds' : List Kind} {k : Kind} {s s' : Store} {entries entries' : Entries Value} {t u : Tree} {p : String} {key : Scalar}

/-- The value of the entry is the same in both stores, or it is a text of a description. -/
def LoadedAlike (kinds : List Kind) (k : Kind) (e e' : Scalar × Value) : Prop :=
  e'.1 = e.1 ∧ (e'.2 = e.2 ∧ e.2.IsOf kinds [k.declared (some e.1)] ∨
    k.isDescribed = true ∧ e.1 = .text descriptionKey ∧ (∃ t, e.2 = .text t) ∧ ∃ t, e'.2 = .text t)

theorem LoadedAlike.mono {e e' : Scalar × Value} (h : LoadedAlike kinds k e e') (hgrown : kinds <+: kinds') :
    LoadedAlike kinds' k e e' :=
  ⟨h.1, h.2.imp_left fun hsame => ⟨hsame.1, hsame.2.mono hgrown⟩⟩

theorem LoadedAlike.symm {e e' : Scalar × Value} (h : LoadedAlike kinds k e e') : LoadedAlike kinds k e' e := by
  obtain ⟨hkey, ⟨hvalue, hof⟩ | ⟨hdescribed, hdescription, htext, htext'⟩⟩ := h
  · exact ⟨hkey.symm, .inl ⟨hvalue.symm, by rwa [hkey, hvalue]⟩⟩
  · exact ⟨hkey.symm, .inr ⟨hdescribed, hkey.trans hdescription, htext', htext⟩⟩

namespace Kind

theorem below_ne_nil (kind : Kind) (place : Option Scalar) : kind.below place ≠ [] := by
  have hall : ∀ ks ∈ kind.items :: kind.others :: kind.fields.map Prod.snd, ks ≠ [] := by cases kind <;> decide
  exact hall _ (kind.below_mem place)

theorem declared_mem_below (kind : Kind) (place : Option Scalar) : kind.declared place ∈ kind.below place := by
  unfold declared
  cases hbelow : kind.below place with
  | nil => exact absurd hbelow (kind.below_ne_nil place)
  | cons first rest => exact List.mem_cons_self

@[simp] theorem declared_loose (place : Option Scalar) : loose.declared place = loose := by
  rw [declared, below_loose]
  rfl

end Kind

/-! ## Entries that have been loaded -/

section

variable (h : List.Forall₂ (LoadedAlike kinds k) entries entries')
include h

theorem keys_of_loadedAlike : entries'.keys = entries.keys := Entries.keys_eq_of_forall₂ h fun _ _ he => he.1

theorem eq_of_loadedAlike (hk : k.isDescribed = false) : entries' = entries := by
  induction h with
  | nil => rfl
  | cons he _ ih =>
    obtain ⟨hkey, ⟨hvalue, -⟩ | ⟨hdescribed, -⟩⟩ := he
    · rw [ih, Prod.ext hkey hvalue]
    · rw [hk] at hdescribed
      cases hdescribed

theorem undescribed_of_loadedAlike : entries.undescribed = entries'.undescribed := by
  induction h with
  | nil => rfl
  | @cons e e' rest rest' he _ ih =>
    have hrest : List.filter (fun e => e.1.isOther) rest = List.filter (fun e => e.1.isOther) rest' := ih
    obtain ⟨hkey, ⟨hvalue, -⟩ | ⟨-, hdescription, -⟩⟩ := he
    · rw [Prod.ext hkey hvalue, Entries.undescribed, Entries.undescribed, List.filter_cons, List.filter_cons, hrest]
    · have hnot : e.1.isOther = false := by simp [hdescription, Scalar.isOther]
      have hnot' : e'.1.isOther = false := by rw [hkey, hnot]
      rw [Entries.undescribed, Entries.undescribed, List.filter_cons_of_neg (by simp [hnot]),
        List.filter_cons_of_neg (by simp [hnot']), hrest]

theorem description_of_loadedAlike : entries.get? descriptionKey = entries'.get? descriptionKey ∨
    entries.IsDescribed ∧ entries'.IsDescribed := by
  induction h with
  | nil => exact .inl rfl
  | @cons e e' rest rest' he _ ih =>
    obtain ⟨key, v⟩ := e
    obtain ⟨key', w⟩ := e'
    obtain ⟨rfl, hvalue⟩ := he
    unfold Entries.IsDescribed at ih ⊢
    simp only [Entries.get?]
    split
    · rcases hvalue with ⟨rfl, -⟩ | ⟨-, -, ⟨t, rfl⟩, u, rfl⟩
      · exact .inl rfl
      · exact .inr ⟨fun _ hv => ⟨t, (Option.some.inj hv).symm⟩, fun _ hv => ⟨u, (Option.some.inj hv).symm⟩⟩
    · exact ih

theorem isOf_of_loadedAlike {e : Scalar × Value} (he : e ∈ entries) : e.2.IsOf kinds (k.below (some e.1)) := by
  obtain ⟨e', -, -, ⟨-, hof⟩ | ⟨-, -, ⟨t, ht⟩, -⟩⟩ := exists_mem_of_forall₂ h he
  · exact hof.of_subset (List.cons_subset.mpr ⟨k.declared_mem_below _, List.nil_subset _⟩)
  · exact ht ▸ Value.isOf_text

theorem alikeIn_of_loadedAlike (hfits : (Cell.object entries).Fits kinds k)
    (hfits' : (Cell.object entries').Fits kinds k) : entries.AlikeIn kinds k entries' where
  alike := ⟨undescribed_of_loadedAlike h, description_of_loadedAlike h⟩
  keys _ := (keys_of_loadedAlike h).symm
  same hk := (eq_of_loadedAlike h hk).symm
  fits := hfits
  fits' := hfits'

end

/-! ## Loading -/

namespace Tree

/-- Two trees are loaded into alike stores as the same value of the kind. -/
def LoadAlike (k : Kind) (t u : Tree) : Prop :=
  ∀ {kinds : List Kind} {s s' : Store}, s.Matches kinds s' → ∃ kinds', kinds <+: kinds' ∧
    (s.load t).2.Matches kinds' (s'.load u).2 ∧ (s'.load u).1 = (s.load t).1 ∧ (s.load t).1.IsOf kinds' [k]

theorem loadAlike_scalar {a : Scalar} (h : a.isJson = true ∨ k = .loose) : LoadAlike k (.scalar a) (.scalar a) :=
  fun halike => ⟨_, List.prefix_rfl, halike, rfl, h.imp_right fun hk => List.mem_singleton.mpr hk.symm⟩

theorem loadAlike_items {ts us : List Tree} (h : List.Forall₂ (LoadAlike k) ts us) (halike : s.Matches kinds s') :
    ∃ kinds', kinds <+: kinds' ∧ (s.loadItems ts).2.Matches kinds' (s'.loadItems us).2 ∧
      (s'.loadItems us).1 = (s.loadItems ts).1 ∧ ∀ v ∈ (s.loadItems ts).1, v.IsOf kinds' [k] := by
  induction h generalizing kinds s s' with
  | nil => exact ⟨kinds, List.prefix_rfl, halike, rfl, by simp [Store.loadItems]⟩
  | @cons t u ts us ht _ ih =>
    obtain ⟨kinds₁, hgrown, halike₁, hvalue, hof⟩ := ht halike
    obtain ⟨kinds₂, hgrown', halike₂, hvalues, hall⟩ := ih halike₁
    refine ⟨kinds₂, hgrown.trans hgrown', halike₂, ?_, fun v hv => ?_⟩
    · simp only [Store.loadItems, hvalue, hvalues]
    · rcases List.mem_cons.mp hv with rfl | hmem
      · exact hof.mono hgrown'
      · exact hall v hmem

/-- Two entries are loaded into alike stores in the same way, or they are descriptions. -/
def LoadEntryAlike (k : Kind) (e e' : Scalar × Tree) : Prop :=
  e'.1 = e.1 ∧ (LoadAlike (k.declared (some e.1)) e.2 e'.2 ∨ AreDescriptions k e.1 e.2 e'.2)

theorem loadAlike_entries {ts us : List (Scalar × Tree)} (h : List.Forall₂ (LoadEntryAlike k) ts us)
    (halike : s.Matches kinds s') : ∃ kinds', kinds <+: kinds' ∧
      (s.loadEntries ts).2.Matches kinds' (s'.loadEntries us).2 ∧
      List.Forall₂ (LoadedAlike kinds' k) (s.loadEntries ts).1 (s'.loadEntries us).1 := by
  induction h generalizing kinds s s' with
  | nil => exact ⟨kinds, List.prefix_rfl, halike, .nil⟩
  | @cons e e' ts us he _ ih =>
    obtain ⟨key, t⟩ := e
    obtain ⟨key', u⟩ := e'
    obtain ⟨rfl, hload | hdescriptions⟩ := he
    · obtain ⟨kinds₁, hgrown, halike₁, hvalue, hof⟩ := hload halike
      obtain ⟨kinds₂, hgrown', halike₂, hall⟩ := ih halike₁
      exact ⟨kinds₂, hgrown.trans hgrown', halike₂, .cons ⟨rfl, .inl ⟨hvalue, hof.mono hgrown'⟩⟩ hall⟩
    · obtain ⟨a, rfl⟩ := exists_text hdescriptions.left
      obtain ⟨b, rfl⟩ := exists_text hdescriptions.right
      obtain ⟨kinds₂, hgrown, halike₂, hall⟩ := ih halike
      exact ⟨kinds₂, hgrown, halike₂, .cons ⟨rfl, .inr ⟨hdescriptions.described, hdescriptions.key_eq,
        ⟨a, rfl⟩, b, rfl⟩⟩ hall⟩

/-- Nodes that are added for trees over what has been loaded for the trees in them. -/
theorem loadAlike_add {cell cell' : Cell} (h : s.Matches kinds s') (hcell : cell.Alike k cell')
    (hfits : cell.Fits kinds k) (hfits' : cell'.Fits kinds k) :
    ∃ kinds', kinds <+: kinds' ∧ (s.add cell).2.Matches kinds' (s'.add cell').2 ∧
      (s'.add cell').1 = (s.add cell).1 ∧ (s.add cell).1.IsOf kinds' [k] := by
  refine ⟨kinds ++ [k], List.prefix_append _ _, h.add hcell (hfits.mono (List.prefix_append _ _))
    (hfits'.mono (List.prefix_append _ _)), ?_, k, List.mem_singleton_self k, ?_⟩
  · simp only [Store.add, h.size, h.size']
  · rw [h.size]
    simp

theorem load_eq_text (h : (s.load t).1 = .text p) : t = .text p := by
  cases t <;> simp_all [Store.load, Store.add]

theorem get?_loadEntries {ts : List (Scalar × Tree)} (h : (s.loadEntries ts).1.get? key = some (.text p)) :
    Entries.get? key ts = some (.text p) := by
  induction ts generalizing s with
  | nil => cases h
  | cons e ts ih =>
    obtain ⟨key', t⟩ := e
    simp only [Store.loadEntries, Entries.get?] at h ⊢
    split at h
    · next hkey => rw [if_pos hkey, load_eq_text (Option.some.inj h)]
    · next hkey =>
      rw [if_neg hkey]
      exact ih h

theorem keys_loadEntries {ts : List (Scalar × Tree)} : (s.loadEntries ts).1.keys = Entries.keys ts := by
  induction ts generalizing s with
  | nil => rfl
  | cons e ts ih => exact congrArg (e.1 :: ·) ih

/-- The entries of an object whose references are pointers of the common form may be those of a node. -/
theorem fits_loadEntries {ts : List (Scalar × Tree)} (hkeyed : Entries.TextKeyed ts)
    (hplain : ∀ p ∈ (Tree.object ts).pointers, Pointer.Plain p)
    (hof : ∀ e ∈ (s.loadEntries ts).1, e.2.IsOf kinds (k.below (some e.1))) :
    (Cell.object (s.loadEntries ts).1).Fits kinds k := by
  refine .object ?_ (fun name v hv => hof _ hv) fun _ p hget => hplain p ?_
  · exact hkeyed.of_keys_eq keys_loadEntries
  · exact Inside.refl.mem_pointers (get?_loadEntries hget)

/-- Documents that are the same but for descriptions are loaded into alike stores. -/
theorem Redescribed.loadAlike (h : Redescribed k t u) (hplain : ∀ p ∈ t.pointers, Pointer.Plain p)
    (hplain' : ∀ p ∈ u.pointers, Pointer.Plain p) : LoadAlike k t u := by
  induction t using Tree.inductionOn generalizing k u with
  | scalar a =>
    cases u with
    | scalar b =>
      obtain ⟨rfl, ha⟩ := h
      exact loadAlike_scalar (.inl ha)
    | _ => exact h.elim
  | list items ih =>
    cases u with
    | list others =>
      have hall : List.Forall₂ (Redescribed (k.declared none)) items others := redescribedItems_iff.mp h
      have hload : List.Forall₂ (LoadAlike (k.declared none)) items others := by
        refine forall₂_imp_of_mem (fun t ht u hu htu => ih t ht htu (fun p hp => hplain p ?_) fun p hp => hplain' p ?_) hall
        · rw [pointers, pointersOfItems_eq]
          exact List.mem_flatMap.mpr ⟨t, ht, hp⟩
        · rw [pointers, pointersOfItems_eq]
          exact List.mem_flatMap.mpr ⟨u, hu, hp⟩
      intro kinds s s' halike
      obtain ⟨kinds₁, hgrown, halike₁, hvalues, hof⟩ := loadAlike_items hload halike
      have hfits : (Cell.list (s.loadItems items).1).Fits kinds₁ k := .list fun v hv =>
        (hof v hv).of_subset (List.cons_subset.mpr ⟨k.declared_mem_below none, List.nil_subset _⟩)
      obtain ⟨kinds₂, hgrown', hadded⟩ := loadAlike_add halike₁ (.refl _) hfits hfits
      refine ⟨kinds₂, hgrown.trans hgrown', ?_⟩
      simpa only [Store.load, hvalues] using hadded
    | _ => exact h.elim
  | object entries ih =>
    cases u with
    | object others =>
      obtain ⟨hkeyed, hentries⟩ := h
      have hall := redescribedEntries_iff.mp hentries
      have hkeyed' : Entries.TextKeyed others :=
        hkeyed.of_keys_eq (Entries.keys_eq_of_forall₂ hall fun _ _ he => he.1)
      have hload : List.Forall₂ (LoadEntryAlike k) entries others := by
        refine forall₂_imp_of_mem (fun e he e' he' hee' => ⟨hee'.1, hee'.2.imp_left fun hvalue =>
          ih e he hvalue (fun p hp => hplain p ?_) fun p hp => hplain' p ?_⟩) hall
        · exact List.mem_append_right _ (pointersOfEntries_eq _ ▸ List.mem_flatMap.mpr ⟨e, he, hp⟩)
        · exact List.mem_append_right _ (pointersOfEntries_eq _ ▸ List.mem_flatMap.mpr ⟨e', he', hp⟩)
      intro kinds s s' halike
      obtain ⟨kinds₁, hgrown, halike₁, hloaded⟩ := loadAlike_entries hload halike
      have hfits : (Cell.object (s.loadEntries entries).1).Fits kinds₁ k :=
        fits_loadEntries hkeyed hplain fun e he => isOf_of_loadedAlike hloaded he
      have hfits' : (Cell.object (s'.loadEntries others).1).Fits kinds₁ k :=
        fits_loadEntries hkeyed' hplain' fun e he => isOf_of_loadedAlike (hloaded.flip.imp fun _ _ he => LoadedAlike.symm he) he
      obtain ⟨kinds₂, hgrown', hadded⟩ :=
        loadAlike_add halike₁ (alikeIn_of_loadedAlike hloaded hfits hfits').cells hfits hfits'
      exact ⟨kinds₂, hgrown.trans hgrown', hadded⟩
    | _ => exact h.elim
  | pair | set | enclosing => exact h.elim

theorem fits_loose {cell : Cell} (h : ∀ v ∈ cell.parts, v.IsOf kinds [.loose]) : cell.Fits kinds .loose where
  json hne := absurd rfl hne
  keyed hk := by cases hk
  places e he := by
    rw [Kind.below_loose]
    exact h _ (cell.map_snd_places ▸ List.mem_map_of_mem he)
  pointer hk := by cases hk

/-- A tree that belongs to no document is loaded in the same way. -/
theorem loadAlike_loose (t : Tree) : LoadAlike .loose t t := by
  induction t using Tree.inductionOn with
  | scalar a => exact loadAlike_scalar (.inr rfl)
  | enclosing => exact fun halike => ⟨_, List.prefix_rfl, halike, rfl, Value.isOf_null⟩
  | set members => exact fun halike => loadAlike_add halike (.refl _) (fits_loose (by simp [Cell.parts])) (fits_loose (by simp [Cell.parts]))
  | pair a b iha ihb =>
    intro kinds s s' halike
    obtain ⟨kinds₁, hgrown, halike₁, hvalue, hof⟩ := iha halike
    obtain ⟨kinds₂, hgrown', halike₂, hvalue', hof'⟩ := ihb halike₁
    have hfits : (Cell.pair (s.load a).1 ((s.load a).2.load b).1).Fits kinds₂ .loose := fits_loose fun v hv => by
      rcases List.mem_pair.mp hv with rfl | rfl
      · exact hof.mono hgrown'
      · exact hof'
    obtain ⟨kinds₃, hgrown'', hadded⟩ := loadAlike_add halike₂ (.refl _) hfits hfits
    refine ⟨kinds₃, (hgrown.trans hgrown').trans hgrown'', ?_⟩
    simpa only [Store.load, hvalue, hvalue'] using hadded
  | list items ih =>
    intro kinds s s' halike
    obtain ⟨kinds₁, hgrown, halike₁, hvalues, hof⟩ :=
      loadAlike_items (List.forall₂_same.mpr fun t ht => ih t ht) halike
    have hfits : (Cell.list (s.loadItems items).1).Fits kinds₁ .loose := fits_loose hof
    obtain ⟨kinds₂, hgrown', hadded⟩ := loadAlike_add halike₁ (.refl _) hfits hfits
    refine ⟨kinds₂, hgrown.trans hgrown', ?_⟩
    simpa only [Store.load, hvalues] using hadded
  | object entries ih =>
    intro kinds s s' halike
    have hload : List.Forall₂ (LoadEntryAlike .loose) entries entries := List.forall₂_same.mpr fun e he =>
      ⟨rfl, .inl (by rw [Kind.declared_loose]; exact ih e he)⟩
    obtain ⟨kinds₁, hgrown, halike₁, hloaded⟩ := loadAlike_entries hload halike
    have hvalues := eq_of_loadedAlike hloaded rfl
    have hfits : (Cell.object (s.loadEntries entries).1).Fits kinds₁ .loose := fits_loose fun v hv => by
      obtain ⟨e, he, rfl⟩ := List.mem_map.mp hv
      simpa using isOf_of_loadedAlike hloaded he
    obtain ⟨kinds₂, hgrown', hadded⟩ := loadAlike_add halike₁ (.refl _) hfits hfits
    refine ⟨kinds₂, hgrown.trans hgrown', ?_⟩
    simpa only [Store.load, hvalues] using hadded

end Tree

end DeviceApi
