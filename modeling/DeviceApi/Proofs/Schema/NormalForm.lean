import DeviceApi.Proofs.Schema.Settled

/-!
# Canonical form as a normal form

Canonical form takes out of a schema what it states although it holds anyway, and gives an integer a format.
It does so in the schema and in the schemas of its properties and items, and it changes nothing else. So a
schema that has been brought into canonical form states nothing twice and has no other canonical form.
-/

namespace DeviceApi

namespace Entries

variable {α : Type} {scalar? : α → Option Scalar} {entries : Entries α} {key : String} {p : Scalar → Bool}

/-- Dropping a key keeps all entries but the one whose value is the scalar in question. -/
theorem dropIf_eq_filter (hnodup : entries.keys.Nodup) : entries.dropIf scalar? (.text key) p =
    entries.filter fun e => !(decide (e.1 = .text key) && (scalar? e.2).any p) := by
  have hvalue : ∀ e ∈ entries, e.1 = .text key → (entries.get? (.text key)).bind scalar? = scalar? e.2 := by
    rintro ⟨k, v⟩ he rfl
    rw [get?_of_mem hnodup he, Option.bind_some]
  unfold dropIf
  cases hfound : (entries.get? (.text key)).bind scalar? with
  | none =>
    refine (List.filter_eq_self.mpr fun e he => ?_).symm
    by_cases hkey : e.1 = .text key
    · simp [← hvalue e he hkey, hfound]
    · simp [hkey]
  | some s =>
    dsimp only
    split
    · next hp =>
      rw [remove_eq_filter hnodup]
      refine List.filter_congr fun e he => ?_
      by_cases hkey : e.1 = .text key
      · simp [hkey, ← hvalue e he hkey, hfound, hp]
      · simp [hkey]
    · next hp =>
      refine (List.filter_eq_self.mpr fun e he => ?_).symm
      by_cases hkey : e.1 = .text key
      · simp [← hvalue e he hkey, hfound, hp]
      · simp [hkey]

end Entries

namespace Tree

variable {t t' u : Tree} {entries entries' kept canonical : List (Scalar × Tree)} {type : Scalar} {e : Scalar × Tree}

/-! ## What a schema need not state -/

/-- Whether a scalar is the default that schemas of a type have anyway. -/
def isImpliedDefault (type a : Scalar) : Bool :=
  decide (type = .text "string") && a == .text "" || decide (type = .text "boolean") && a == .bool false ||
    (decide (type = .text "integer") || decide (type = .text "number")) && a.isZeroNumber

/-- The bounds that an integer has by its format. -/
def formatBounds? (entries : List (Scalar × Tree)) : Option (Int × Int) :=
  if schemaType entries = .text "integer" then
    ((Entries.get? "format" entries).bind scalar?).bind integerBounds?
  else none

/-- Whether an entry of a schema states what holds anyway. -/
def restates (entries : List (Scalar × Tree)) (e : Scalar × Tree) : Bool :=
  decide (e.1 = .text "default") && e.2.scalar?.any (isImpliedDefault (schemaType entries)) ||
    decide (e.1 = .text "minimum") && e.2.scalar?.any (fun a => (formatBounds? entries).any fun b => a.isInteger b.1) ||
      decide (e.1 = .text "maximum") && e.2.scalar?.any fun a => (formatBounds? entries).any fun b => a.isInteger b.2

/-- The entries of a schema with the format that an integer has if it states none. -/
def stated (entries : List (Scalar × Tree)) : List (Scalar × Tree) :=
  if schemaType entries = .text "integer" ∧ Entries.has entries "format" = false then
    entries ++ [(.text "format", .text defaultIntegerFormat)]
  else entries

/-- The entries that a schema keeps in canonical form. -/
def concise (entries : List (Scalar × Tree)) : List (Scalar × Tree) :=
  (stated entries).filter fun e => !restates (stated entries) e

/-- The schema states nothing that holds anyway, and an integer states its format. -/
structure Concise (entries : List (Scalar × Tree)) : Prop where
  restates : ∀ e ∈ entries, restates entries e = false
  format : schemaType entries = .text "integer" → Entries.has entries "format" = true

/-! ## Schemas below schemas -/

/-- The second tree is a schema that is visited from the first one: the schema itself, or one below its
properties or its items, references aside. -/
inductive Visits : Tree → Tree → Prop
  | here {entries : List (Scalar × Tree)} (hown : Entries.has entries referenceKey = false) :
      Visits (.object entries) (.object entries)
  | items {entries : List (Scalar × Tree)} {t u : Tree} (hown : Entries.has entries referenceKey = false)
      (htype : schemaType entries = .text "array") (hget : Entries.get? "items" entries = some t)
      (h : Visits t u) : Visits (.object entries) u
  | property {entries schemas : List (Scalar × Tree)} {t u : Tree}
      (hown : Entries.has entries referenceKey = false) (htype : schemaType entries = .text "object")
      (hget : Entries.get? "properties" entries = some (.object schemas)) (ht : t ∈ Entries.values schemas)
      (h : Visits t u) : Visits (.object entries) u

mutual

/-- The second tree is the first one with the entries that its schemas keep in canonical form. Whatever is
not visited is the same. -/
inductive Condenses : Tree → Tree → Prop
  | unvisited {t : Tree} (h : ∀ entries, t = .object entries → Entries.has entries referenceKey = true) :
      Condenses t t
  | schema {entries entries' : List (Scalar × Tree)} (hown : Entries.has entries referenceKey = false)
      (h : CondensesEntries (schemaType entries) (concise entries) entries') :
      Condenses (.object entries) (.object entries')

/-- Of the entries of a schema of a type only the items of an array and the properties of an object change. -/
inductive CondensesEntries : Scalar → List (Scalar × Tree) → List (Scalar × Tree) → Prop
  | nil {type : Scalar} : CondensesEntries type [] []
  | items {t t' : Tree} {rest rest' : List (Scalar × Tree)} (h : Condenses t t')
      (hrest : CondensesEntries (.text "array") rest rest') :
      CondensesEntries (.text "array") ((.text "items", t) :: rest) ((.text "items", t') :: rest')
  | properties {schemas schemas' rest rest' : List (Scalar × Tree)} (h : CondensesAll schemas schemas')
      (hrest : CondensesEntries (.text "object") rest rest') :
      CondensesEntries (.text "object") ((.text "properties", .object schemas) :: rest)
        ((.text "properties", .object schemas') :: rest')
  | other {type key : Scalar} {t : Tree} {rest rest' : List (Scalar × Tree)}
      (hitems : type = .text "array" → key ≠ .text "items")
      (hproperties : type = .text "object" → key = .text "properties" → ∀ schemas, t ≠ .object schemas)
      (hrest : CondensesEntries type rest rest') :
      CondensesEntries type ((key, t) :: rest) ((key, t) :: rest')

/-- All schemas under names change so, and the names stay. -/
inductive CondensesAll : List (Scalar × Tree) → List (Scalar × Tree) → Prop
  | nil : CondensesAll [] []
  | cons {key : Scalar} {t t' : Tree} {rest rest' : List (Scalar × Tree)} (h : Condenses t t')
      (hrest : CondensesAll rest rest') : CondensesAll ((key, t) :: rest) ((key, t') :: rest')

end

/-! ## Entries in canonical form -/

theorem get?_filter_of_kept {p : Scalar × Tree → Bool} {key : String}
    (h : ∀ e ∈ entries, e.1 = .text key → p e = true) :
    Entries.get? (.text key) (entries.filter p) = Entries.get? (.text key) entries := by
  induction entries with
  | nil => rfl
  | cons e rest ih =>
    obtain ⟨k, v⟩ := e
    have hrest := ih fun e he => h e (List.mem_cons_of_mem _ he)
    rw [Entries.get?_cons_text]
    by_cases hkey : k = .text key
    · rw [List.filter_cons_of_pos (h _ List.mem_cons_self hkey), Entries.get?_cons_text, if_pos hkey, if_pos hkey]
    · rw [if_neg hkey, ← hrest, List.filter_cons]
      split
      · rw [Entries.get?_cons_text, if_neg hkey]
      · rfl

theorem get?_stated {key : String} (hne : key ≠ "format") :
    Entries.get? (.text key) (stated entries) = Entries.get? (.text key) entries := by
  unfold stated
  split
  · next h =>
    have hnot : .text "format" ∉ Entries.keys entries := fun hmem => by
      simp [Entries.has_text.mpr hmem] at h
    rw [← Entries.put_of_notMem hnot, Entries.get?_put_of_ne (by simpa using Ne.symm hne)]
  · rfl

/-- Only a default and bounds may go. -/
theorem get?_concise {key : String} (hne : key ∉ ["default", "minimum", "maximum"]) :
    Entries.get? (.text key) (concise entries) = Entries.get? (.text key) (stated entries) := by
  refine get?_filter_of_kept fun e _ hkey => ?_
  simp only [List.mem_cons, List.not_mem_nil, or_false, not_or] at hne
  simp [restates, hkey, hne]

theorem schemaType_stated : schemaType (stated entries) = schemaType entries := by
  rw [schemaType, get?_stated (by decide), ← schemaType]

theorem schemaType_concise : schemaType (concise entries) = schemaType entries := by
  rw [schemaType, get?_concise (by decide), ← schemaType, schemaType_stated]

/-- What is restated depends on the type and the format alone. -/
theorem restates_congr (htype : schemaType entries' = schemaType entries)
    (hformat : Entries.get? "format" entries' = Entries.get? "format" entries) :
    restates entries' = restates entries := by
  funext e
  simp only [restates, formatBounds?, htype, hformat]

theorem has_format_stated (htype : schemaType entries = .text "integer") :
    Entries.has (stated entries) "format" = true := by
  unfold stated
  split
  · rw [Entries.has_text, Entries.keys_append]
    simp
  · next h => simpa [htype] using h

/-- What a schema keeps in canonical form is concise. -/
theorem concise_concise : Concise (concise entries) where
  restates e he := by
    rw [restates_congr (schemaType_concise.trans schemaType_stated.symm) (get?_concise (by decide))]
    simpa using (List.mem_filter.mp he).2
  format htype := by
    rw [Entries.has, get?_concise (by decide), ← Entries.has]
    exact has_format_stated (schemaType_concise ▸ htype)

/-- Objects and arrays, and what is of no known type, state nothing that holds anyway. -/
theorem concise_eq_self (htype : schemaType entries ∉ [.text "string", .text "boolean", .text "number", .text "integer"]) :
    concise entries = entries := by
  simp only [List.mem_cons, List.not_mem_nil, or_false, not_or] at htype
  obtain ⟨hstring, hboolean, hnumber, hinteger⟩ := htype
  have hdefault : isImpliedDefault (schemaType entries) = fun _ => false := by
    funext a
    simp only [isImpliedDefault, decide_eq_false hstring, decide_eq_false hboolean, decide_eq_false hnumber,
      decide_eq_false hinteger, Bool.false_and, Bool.or_false]
  have hstated : stated entries = entries := if_neg (by simp [hinteger])
  rw [concise, hstated, List.filter_eq_self.mpr]
  intro e _
  simp [restates, formatBounds?, hinteger, hdefault]

section

variable (hnodup : (Entries.keys entries).Nodup)
include hnodup

theorem nodup_stated : (Entries.keys (stated entries)).Nodup := by
  unfold stated
  split
  · next h =>
    have hnot : .text "format" ∉ Entries.keys entries := fun hmem => by
      simp [Entries.has_text.mpr hmem] at h
    rw [← Entries.put_of_notMem hnot]
    exact Entries.nodup_keys_put hnodup
  · exact hnodup

/-- An integer loses the bounds of its format and its default one after the other. -/
theorem dropIf_dropBounds_eq {format : Scalar} (htype : schemaType entries = .text "integer")
    (hformat : (Entries.get? "format" entries).bind scalar? = some format) :
    Entries.dropIf scalar? "default" Scalar.isZeroNumber
        (Entries.canonicalInteger.dropBounds scalar? format entries) =
      entries.filter fun e => !restates entries e := by
  have hdefault : isImpliedDefault (.text "integer") = Scalar.isZeroNumber := by
    funext a
    simp [isImpliedDefault]
  have hbounds : formatBounds? entries = integerBounds? format := by
    rw [formatBounds?, if_pos htype, hformat, Option.bind_some]
  unfold Entries.canonicalInteger.dropBounds
  cases hfound : integerBounds? format with
  | none =>
    rw [Entries.dropIf_eq_filter hnodup]
    refine List.filter_congr fun e _ => ?_
    simp [restates, htype, hdefault, hbounds, hfound]
  | some bounds =>
    obtain ⟨low, high⟩ := bounds
    have hfirst : (Entries.keys (Entries.dropIf scalar? "minimum" (fun s => s.isInteger low) entries)).Nodup :=
      Entries.nodup_dropIf hnodup
    have hsecond : (Entries.keys (Entries.dropIf scalar? "maximum" (fun s => s.isInteger high)
        (Entries.dropIf scalar? "minimum" (fun s => s.isInteger low) entries))).Nodup :=
      Entries.nodup_dropIf hfirst
    dsimp only
    rw [Entries.dropIf_eq_filter hsecond, Entries.dropIf_eq_filter hfirst, Entries.dropIf_eq_filter hnodup,
      List.filter_filter, List.filter_filter]
    refine List.filter_congr fun e _ => ?_
    simp only [restates, htype, hdefault, hbounds, hfound, Option.any_some, Bool.not_or, Bool.and_assoc]
    ac_rfl

/-- The canonical form of the entries of a schema is what the schema keeps. -/
theorem canonicalOfType_eq_concise
    (hform : Entries.canonicalOfType scalar? text (schemaType entries) entries = .ok canonical) :
    canonical = concise entries := by
  have hplain : schemaType entries ≠ .text "integer" → stated entries = entries ∧ formatBounds? entries = none :=
    fun htype => ⟨if_neg (by simp [htype]), if_neg htype⟩
  have hdrop : ∀ p, schemaType entries ≠ .text "integer" → (∀ a, isImpliedDefault (schemaType entries) a = p a) →
      Entries.dropIf scalar? "default" p entries = concise entries := by
    intro p htype hp
    obtain ⟨hstated, hbounds⟩ := hplain htype
    rw [Entries.dropIf_eq_filter hnodup, concise, hstated]
    refine List.filter_congr fun e _ => ?_
    simp [restates, hbounds, funext hp]
  unfold Entries.canonicalOfType at hform
  split at hform
  · next htype =>
    obtain rfl := Except.ok.inj hform
    exact hdrop _ (by simp [htype]) fun a => by simp [isImpliedDefault, htype]
  · next htype =>
    obtain rfl := Except.ok.inj hform
    exact hdrop _ (by simp [htype]) fun a => by simp [isImpliedDefault, htype]
  · next htype =>
    obtain rfl := Except.ok.inj hform
    exact hdrop _ (by simp [htype]) fun a => by simp [isImpliedDefault, htype]
  · next htype =>
    unfold Entries.canonicalInteger at hform
    cases hget : Entries.get? "format" entries with
    | none =>
      rw [hget] at hform
      obtain rfl := Except.ok.inj hform
      have hhas : Entries.has entries "format" = false := Entries.has_eq_false.mpr hget
      have hnot : .text "format" ∉ Entries.keys entries := Entries.get?_eq_none.mp hget
      have hstated : stated entries = Entries.put "format" (.text defaultIntegerFormat) entries := by
        rw [stated, if_pos ⟨htype, hhas⟩, Entries.put_of_notMem hnot]
      rw [concise, hstated]
      refine dropIf_dropBounds_eq (Entries.nodup_keys_put hnodup) ?_ ?_
      · rw [← hstated, schemaType_stated, htype]
      · rw [Entries.get?_put_self]
        rfl
    | some format =>
      rw [hget] at hform
      dsimp only at hform
      have hstated : stated entries = entries := if_neg (by simp [Entries.has, hget])
      cases hscalar : format.scalar? with
      | none =>
        rw [hscalar] at hform
        cases hform
      | some s =>
        rw [hscalar] at hform
        obtain rfl := Except.ok.inj hform
        rw [concise, hstated]
        exact dropIf_dropBounds_eq hnodup htype (by rw [hget, Option.bind_some, hscalar])
  · next hstring hboolean hnumber hinteger =>
    obtain rfl := Except.ok.inj hform
    exact (concise_eq_self (by simpa using ⟨hstring, hboolean, hnumber, hinteger⟩)).symm

end

/-! ## The canonical form of a tree -/

/-- Entries change as they should if each of them does. -/
theorem condensesEntries_map {f : Scalar × Tree → Tree}
    (hitems : ∀ e ∈ entries, type = .text "array" → e.1 = .text "items" → Condenses e.2 (f e))
    (hproperties : ∀ e ∈ entries, type = .text "object" → e.1 = .text "properties" → ∀ schemas, e.2 = .object schemas →
      ∃ schemas', f e = .object schemas' ∧ CondensesAll schemas schemas')
    (hother : ∀ e ∈ entries, (type = .text "array" → e.1 ≠ .text "items") →
      (type = .text "object" → e.1 = .text "properties" → ∀ schemas, e.2 ≠ .object schemas) → f e = e.2) :
    CondensesEntries type entries (entries.map fun e => (e.1, f e)) := by
  induction entries with
  | nil => exact .nil
  | cons e rest ih =>
    obtain ⟨key, t⟩ := e
    have hrest := ih (fun e he => hitems e (List.mem_cons_of_mem _ he))
      (fun e he => hproperties e (List.mem_cons_of_mem _ he)) fun e he => hother e (List.mem_cons_of_mem _ he)
    have hhead : (key, t) ∈ (key, t) :: rest := List.mem_cons_self
    rw [List.map_cons]
    by_cases harray : type = .text "array" ∧ key = .text "items"
    · obtain ⟨rfl, rfl⟩ := harray
      exact .items (hitems _ hhead rfl rfl) hrest
    by_cases hobject : type = .text "object" ∧ key = .text "properties" ∧ ∃ schemas, t = .object schemas
    · obtain ⟨rfl, rfl, schemas, rfl⟩ := hobject
      obtain ⟨schemas', hf, hschemas⟩ := hproperties _ hhead rfl rfl schemas rfl
      rw [hf]
      exact .properties hschemas hrest
    · have hnot : type = .text "array" → key ≠ .text "items" := fun htype hkey => harray ⟨htype, hkey⟩
      have hnot' : type = .text "object" → key = .text "properties" → ∀ schemas, t ≠ .object schemas :=
        fun htype hkey schemas ht => hobject ⟨htype, hkey, schemas, ht⟩
      rw [hother _ hhead hnot hnot']
      exact .other hnot hnot' hrest

theorem condensesAll_map (h : ∀ e ∈ entries, Condenses e.2 e.2.canonical) :
    CondensesAll entries (entries.map fun e => (e.1, e.2.canonical)) := by
  induction entries with
  | nil => exact .nil
  | cons e rest ih => exact .cons (h e List.mem_cons_self) (ih fun e he => h e (List.mem_cons_of_mem _ he))

/-- A JSON tree whose schemas have canonical forms is condensed to the canonical form of the tree. -/
theorem condenses_canonical (ht : t.IsJson) (hform : ∀ entries, t.Visits (.object entries) →
      ∃ c, Entries.canonicalOfType scalar? text (schemaType entries) entries = .ok c) : Condenses t t.canonical := by
  induction hsize : sizeOf t using Nat.strong_induction_on generalizing t with
  | _ n ih =>
    subst hsize
    cases t with
    | object entries =>
      rw [canonical]
      split
      · next hown => exact .unvisited fun _ heq => Tree.object.inj heq ▸ hown
      · next hown =>
        have hown : Entries.has entries referenceKey = false := by simpa using hown
        have hkeyed : Entries.TextKeyed entries := ht.1
        split
        · next htype =>
          have hself : concise entries = entries := concise_eq_self (by simp [htype])
          refine .schema hown ?_
          rw [hself, htype, Store.canonicalItems_eq]
          refine condensesEntries_map (fun e he _ hkey => ?_) (by simp) fun e _ hnot _ => if_neg (hnot rfl)
          rw [if_pos hkey]
          refine ih _ (sizeOf_entry_lt he) (entriesAreJson_iff.mp ht.2 e he) (fun inner hvisits => ?_) rfl
          exact hform inner (.items hown htype (Entries.get?_of_mem hkeyed.nodup (hkey ▸ he)) hvisits)
        · next htype =>
          have hself : concise entries = entries := concise_eq_self (by simp [htype])
          refine .schema hown ?_
          rw [hself, htype, Store.canonicalProperties_eq]
          refine condensesEntries_map (by simp) (fun e he _ hkey schemas hschemas => ?_) fun e _ _ hnot => ?_
          · refine ⟨schemas.map fun u => (u.1, u.2.canonical), by simp [hschemas, hkey, Store.canonicalSchemas_eq], ?_⟩
            refine condensesAll_map fun x hx => ?_
            have hjson : (Tree.object schemas).IsJson := hschemas ▸ entriesAreJson_iff.mp ht.2 e he
            have hlt : sizeOf (Tree.object schemas) < sizeOf (Tree.object entries) := hschemas ▸ sizeOf_entry_lt he
            refine ih _ ((sizeOf_entry_lt hx).trans hlt) (entriesAreJson_iff.mp hjson.2 x hx) (fun inner hvisits => ?_) rfl
            have hget : Entries.get? "properties" entries = some (.object schemas) :=
              Entries.get?_of_mem hkeyed.nodup (hkey ▸ hschemas ▸ he)
            exact hform inner (.property hown htype hget (List.mem_map_of_mem hx) hvisits)
          · split
            · next schemas heq => rw [if_neg fun hkey => hnot rfl hkey schemas heq, heq]
            · rfl
        · next harray hobject =>
          obtain ⟨c, hc⟩ := hform entries (.here hown)
          rw [hc]
          refine .schema hown ?_
          rw [canonicalOfType_eq_concise hkeyed.nodup hc]
          have hsame : ∀ es : List (Scalar × Tree), CondensesEntries (schemaType entries) es es := fun es => by
            induction es with
            | nil => exact .nil
            | cons e rest ih => exact .other (fun htype => absurd htype harray) (fun htype => absurd htype hobject) ih
          exact hsame _
    | _ => exact .unvisited (by simp)

/-! ## Normal forms -/

namespace CondensesEntries

/-- Under keys other than those of schemas nothing changes. -/
theorem get?_eq (h : CondensesEntries type entries entries') {key : String}
    (hkey : .text key ∉ [Scalar.text "items", .text "properties"]) :
    Entries.get? (.text key) entries' = Entries.get? (.text key) entries := by
  simp only [List.mem_cons, List.not_mem_nil, or_false, not_or, eq_comm (a := Scalar.text key)] at hkey
  induction entries generalizing entries' with
  | nil =>
    cases h
    rfl
  | cons e rest ih =>
    cases h with
    | items _ hrest => rw [Entries.get?_cons_text, Entries.get?_cons_text, ih hrest, if_neg hkey.1, if_neg hkey.1]
    | properties _ hrest => rw [Entries.get?_cons_text, Entries.get?_cons_text, ih hrest, if_neg hkey.2, if_neg hkey.2]
    | other _ _ hrest => rw [Entries.get?_cons_text, Entries.get?_cons_text, ih hrest]

theorem schemaType_eq (h : CondensesEntries type entries entries') : schemaType entries' = schemaType entries := by
  rw [schemaType, h.get?_eq (by decide), ← schemaType]

theorem mem_or (h : CondensesEntries type entries entries') {e : Scalar × Tree} (he : e ∈ entries') :
    e ∈ entries ∨ e.1 ∈ [Scalar.text "items", .text "properties"] := by
  induction entries generalizing entries' with
  | nil =>
    cases h
    simp at he
  | cons _ rest ih =>
    cases h with
    | items _ hrest =>
      rcases List.mem_cons.mp he with rfl | he
      · exact .inr (by simp)
      · exact (ih hrest he).imp_left (List.mem_cons_of_mem _)
    | properties _ hrest =>
      rcases List.mem_cons.mp he with rfl | he
      · exact .inr (by simp)
      · exact (ih hrest he).imp_left (List.mem_cons_of_mem _)
    | other _ _ hrest =>
      rcases List.mem_cons.mp he with rfl | he
      · exact .inl List.mem_cons_self
      · exact (ih hrest he).imp_left (List.mem_cons_of_mem _)

/-- The items of an array come from its items. -/
theorem exists_items (h : CondensesEntries type entries entries') (htype : type = .text "array")
    (hget : Entries.get? "items" entries' = some t') : ∃ t, Condenses t t' := by
  induction entries generalizing entries' with
  | nil =>
    cases h
    simp at hget
  | cons _ rest ih =>
    cases h with
    | items hitems _ =>
      rw [Entries.get?_cons_text, if_pos rfl] at hget
      exact ⟨_, Option.some.inj hget ▸ hitems⟩
    | properties => simp at htype
    | other hnot _ hrest =>
      rw [Entries.get?_cons_text, if_neg (hnot htype)] at hget
      exact ih hrest hget

/-- The properties of an object come from its properties. -/
theorem exists_properties (h : CondensesEntries type entries entries') (htype : type = .text "object")
    {schemas' : List (Scalar × Tree)} (hget : Entries.get? "properties" entries' = some (.object schemas')) :
    ∃ schemas, CondensesAll schemas schemas' := by
  induction entries generalizing entries' with
  | nil =>
    cases h
    simp at hget
  | cons _ rest ih =>
    cases h with
    | items => simp at htype
    | properties hschemas _ =>
      rw [Entries.get?_cons_text, if_pos rfl] at hget
      exact ⟨_, Tree.object.inj (Option.some.inj hget) ▸ hschemas⟩
    | other _ hnot hrest =>
      rw [Entries.get?_cons_text] at hget
      split at hget
      · next hkey => exact absurd (Option.some.inj hget) (hnot htype hkey _)
      · exact ih hrest hget

end CondensesEntries

theorem CondensesAll.exists_schema (h : CondensesAll entries entries') (ht' : t' ∈ Entries.values entries') :
    ∃ t, Condenses t t' := by
  induction entries generalizing entries' with
  | nil =>
    cases h
    simp [Entries.values] at ht'
  | cons _ rest ih =>
    cases h with
    | cons hfirst hrest =>
      rcases List.mem_cons.mp ht' with rfl | hmem
      · exact ⟨_, hfirst⟩
      · exact ih hrest hmem

/-- An entry that restates something has a key of its own. -/
theorem restates_eq_false (hkey : e.1 ∈ [Scalar.text "items", .text "properties"]) : restates entries e = false := by
  simp only [List.mem_cons, List.not_mem_nil, or_false] at hkey
  rcases hkey with hkey | hkey <;> simp [restates, hkey]

/-- A schema that has been condensed is concise, and so is every schema below it. -/
theorem Condenses.concise_of_visits (h : Condenses t t') (hvisits : t'.Visits u) (hu : u = .object entries) :
    Concise entries := by
  induction hvisits generalizing t with
  | here hown =>
    obtain rfl := Tree.object.inj hu
    cases h with
    | unvisited hnot => exact absurd (hnot _ rfl) (by simp [hown])
    | @schema before _ _ hentries =>
      have hconcise : Concise (concise before) := concise_concise
      refine ⟨fun e he => ?_, fun htype => ?_⟩
      · rcases hentries.mem_or he with hmem | hkey
        · rw [restates_congr hentries.schemaType_eq (hentries.get?_eq (by decide))]
          exact hconcise.restates e hmem
        · exact restates_eq_false hkey
      · rw [Entries.has, hentries.get?_eq (by decide), ← Entries.has]
        exact hconcise.format (hentries.schemaType_eq ▸ htype)
  | items hown htype hget _ ih =>
    cases h with
    | unvisited hnot => exact absurd (hnot _ rfl) (by simp [hown])
    | @schema before _ _ hentries =>
      have hbefore : schemaType before = .text "array" := by
        rw [← htype, hentries.schemaType_eq, schemaType_concise]
      obtain ⟨x, hx⟩ := hentries.exists_items hbefore hget
      exact ih hx hu
  | property hown htype hget ht _ ih =>
    cases h with
    | unvisited hnot => exact absurd (hnot _ rfl) (by simp [hown])
    | @schema before _ _ hentries =>
      have hbefore : schemaType before = .text "object" := by
        rw [← htype, hentries.schemaType_eq, schemaType_concise]
      obtain ⟨schemas, hschemas⟩ := hentries.exists_properties hbefore hget
      obtain ⟨x, hx⟩ := hschemas.exists_schema ht
      exact ih hx hu

end Tree

/-! ## Canonical form in a store -/

/-- What is visited in a tree is visited in a store that holds it. -/
theorem Store.Holds.exists_visits {s : Store} {v : Value} {t u : Tree} (hv : s.Holds v t) (h : t.Visits u) :
    ∃ i, s.Visits v i ∧ s.Holds (.node i) u := by
  induction h generalizing v with
  | here hown =>
    obtain ⟨id, values, rfl, hcell, hheld⟩ := Store.holds_object.mp hv
    exact ⟨id, .here hcell ((Store.has_of_holds hheld).trans hown), hv⟩
  | items hown htype hget _ ih =>
    obtain ⟨id, values, rfl, hcell, hheld⟩ := Store.holds_object.mp hv
    obtain ⟨w, hw, hwt⟩ := Store.exists_value_of_get? hheld hget
    obtain ⟨i, hi, hu⟩ := ih hwt
    exact ⟨i, .items hcell ((Store.has_of_holds hheld).trans hown)
      ((Store.schemaType_of_holds hheld).trans htype) hw hi, hu⟩
  | property hown htype hget ht _ ih =>
    obtain ⟨id, values, rfl, hcell, hheld⟩ := Store.holds_object.mp hv
    obtain ⟨w, hw, hwt⟩ := Store.exists_value_of_get? hheld hget
    obtain ⟨map, properties, rfl, hmap, hinner⟩ := Store.holds_object.mp hwt
    obtain ⟨x, hx, rfl⟩ := List.mem_map.mp ht
    obtain ⟨y, hy, -, hxy⟩ := exists_mem_of_forall₂_right hinner hx
    obtain ⟨i, hi, hu⟩ := ih hxy
    exact ⟨i, .property hcell ((Store.has_of_holds hheld).trans hown)
      ((Store.schemaType_of_holds hheld).trans htype) hw hmap (List.mem_map_of_mem hy) hi, hu⟩

namespace Edit

variable {s s' : Store} {t : Tree}

/-- Every schema that is visited in a tree has a canonical form if the tree can be brought into it. -/
theorem exists_canonicalOfType_of_canonicalize {v : Value} (hv : s.Holds v t) (ht : t.IsJson)
    (h : Runs (canonicalize v) s () s') {entries : List (Scalar × Tree)} (hvisits : t.Visits (.object entries)) :
    ∃ c, Entries.canonicalOfType Tree.scalar? Tree.text (Tree.schemaType entries) entries = .ok c := by
  obtain ⟨hfits, -⟩ := canonicalizes_canonicalize (hv.proper ht) h
  obtain ⟨i, hi, hu⟩ := hv.exists_visits hvisits
  obtain ⟨id, values, hid, hcell, hheld⟩ := Store.holds_object.mp hu
  obtain rfl := Value.node.inj hid
  obtain ⟨c, hc⟩ := (hfits.fitsAt i values hi hcell).form
  obtain ⟨c', hc', -⟩ := Store.holds_canonicalOfType hheld hc
  exact ⟨c', Store.schemaType_of_holds hheld ▸ hc'⟩

/-- **Canonical form is a normal form.** Let a JSON tree be brought into canonical form. It loses the entries of
the schemas that are visited that state what holds anyway, integers without a format are given one, and
everything else stays as it is. Then no schema that is visited states what holds anyway, and bringing the tree
into canonical form once more succeeds and changes nothing. -/
theorem canonicalize_condenses (ht : t.IsJson) (h : Runs (canonicalize (s.load t).1) (s.load t).2 () s') :
    ∃ t', s'.Holds (s.load t).1 t' ∧ t.Condenses t' ∧
      (∀ entries, t'.Visits (.object entries) → Tree.Concise entries) ∧
      ∃ s'', Runs (canonicalize (s.load t).1) s' () s'' ∧ s''.Holds (s.load t).1 t' := by
  have hv := Store.holds_load ht s
  have hproper := hv.proper ht
  have hcondenses : t.Condenses t.canonical := Tree.condenses_canonical ht fun _ hvisits =>
    exists_canonicalOfType_of_canonicalize hv ht h hvisits
  have hcanonical : s'.Holds (s.load t).1 t.canonical := holds_canonical_of_load ht h
  have hproper' := (trims_canonicalize h).proper hproper
  have hsettled := settled_of_canonicalize hproper h
  obtain ⟨s'', hagain⟩ := exists_runs_canonicalize hproper' hsettled.toFits
  exact ⟨t.canonical, hcanonical, hcondenses, fun _ hvisits => hcondenses.concise_of_visits hvisits rfl,
    s'', hagain, holds_of_canonicalize hproper' hsettled hagain hcanonical⟩

/-- A schema with defaults and bounds that hold anyway, next to some that do not. -/
def wordySchema : Tree :=
  .ofFields
    [("type", .text "object"),
     ("properties", .ofFields
       [("count", .ofFields [("type", .text "integer"), ("default", .int 0), ("minimum", .int (-2147483648))]),
        ("limit", .ofFields [("format", .text "uint32"), ("type", .text "integer"), ("minimum", .int 1)]),
        ("labels", .ofFields
          [("type", .text "array"), ("items", .ofFields [("type", .text "string"), ("default", .text "")])])])]

theorem canonicalize_condenses_wordySchema :
    let start := Store.empty.load wordySchema
    wordySchema.IsJson ∧ ∃ s', Runs (canonicalize start.1) start.2 () s' ∧
      ∃ t', s'.Holds start.1 t' ∧ wordySchema.Condenses t' ∧
        (∀ entries, t'.Visits (.object entries) → Tree.Concise entries) ∧
        ∃ s'', Runs (canonicalize start.1) s' () s'' ∧ s''.Holds start.1 t' := by
  intro start
  have hjson : wordySchema.IsJson := by decide
  have hpasses : Procedure.passes (Procedure.ofEdit (canonicalize start.1)) ⟨start.2, []⟩ (fun _ _ => true) = true := by
    decide
  obtain ⟨_, _, hrun, -⟩ := Procedure.exists_runs_of_passes hpasses
  obtain ⟨s', hrun, -⟩ := Procedure.runs_ofEdit.mp hrun
  exact ⟨hjson, s', hrun, canonicalize_condenses hjson hrun⟩

end Edit

end DeviceApi
