import DeviceApi.Proofs.Document.Entries
import DeviceApi.Proofs.Names.Mentions
import DeviceApi.Proofs.Normalization.Operations
import DeviceApi.Proofs.Text.Case

/-!
# Names that are looked up

The names of a text are kept by device and by method, both in lower case. What is found under a device and a method is
the last mention of them, and the methods of all devices do not get among those of one device. So every operation of a
normalized document has a name that stands in the text and is that of its path.
-/

namespace DeviceApi

open Mention

namespace MethodNames

variable {names : MethodNames} {mentions : List (String × String)} {group subPath device method text : String}

/-- The method that is found for a group and the last segment of a path. -/
def find? (names : MethodNames) (group subPath : String) : Option String :=
  (names.device? group).bind fun device => device.methods.get? (Text.lower subPath)

/-! ## What is found after a mention -/

theorem device?_addDevice : (names.addDevice device).device? group =
    if Text.lower device = Text.lower group then some ((names.device? group).getD { name := device })
    else names.device? group := by
  unfold addDevice device?
  split
  · next hhas =>
    split
    · next heq =>
      rw [heq, Entries.has, Option.isSome_iff_exists] at hhas
      obtain ⟨known, hknown⟩ := hhas
      simp [hknown]
    · rfl
  · next hnew =>
    rw [Entries.get?_put]
    split
    · next heq =>
      rw [← heq, Entries.has_eq_false.mp (by simpa using hnew)]
      rfl
    · rfl

/-- Adding a device does not change what is found. -/
theorem find?_addDevice : (names.addDevice device).find? group subPath = names.find? group subPath := by
  unfold find?
  rw [device?_addDevice]
  split
  · cases names.device? group <;> rfl
  · rfl

theorem device?_addMethod : (names.addMethod device method).device? group =
    if Text.lower device = Text.lower group then
      some (((names.device? group).getD { name := device }).add method)
    else names.device? group := by
  have hknown : (names.addDevice device).devices.get? (Text.lower device) =
      some ((names.device? device).getD { name := device }) := device?_addDevice.trans (if_pos rfl)
  unfold addMethod
  dsimp only
  rw [hknown]
  dsimp only
  rw [device?, Entries.get?_put]
  split
  · next heq => rw [device?, device?, heq]
  · next hne =>
    have hold : (names.addDevice device).device? group = _ := device?_addDevice
    rwa [if_neg hne] at hold

/-- Adding a method changes what is found just for the method. -/
theorem find?_addMethod : (names.addMethod device method).find? group subPath =
    if Text.lower device = Text.lower group ∧ Text.lower method = Text.lower subPath then some method
    else names.find? group subPath := by
  unfold find?
  rw [device?_addMethod]
  by_cases hdevice : Text.lower device = Text.lower group
  · rw [if_pos hdevice, Option.bind_some, DeviceMethods.add, Entries.get?_put]
    by_cases hmethod : Text.lower method = Text.lower subPath
    · simp [hdevice, hmethod]
    · rw [if_neg hmethod, if_neg fun h => hmethod h.2]
      cases names.device? group <;> rfl
  · rw [if_neg hdevice, if_neg fun h => hdevice h.1]

/-- Whether a mention is one of the device and the method, but for the case. -/
def concerns (group subPath : String) (mention : String × String) : Bool :=
  Text.lower mention.1 = Text.lower group ∧ Text.lower mention.2 = Text.lower subPath

/-- The last mention that concerns a group and a segment is found. -/
theorem find?_foldl_addMethod :
    (mentions.foldl (fun names mention => addMethod names mention.1 mention.2) names).find? group subPath =
      ((mentions.filter (concerns group subPath)).getLast?.map Prod.snd).or (names.find? group subPath) := by
  induction mentions using List.reverseRecOn with
  | nil => simp
  | append_singleton mentions mention ih =>
    rw [List.foldl_append, List.foldl_cons, List.foldl_nil, find?_addMethod, ih, List.filter_append]
    by_cases hmention : concerns group subPath mention = true
    · rw [if_pos (by simpa [concerns] using hmention)]
      simp [hmention]
    · rw [if_neg (by simpa [concerns] using hmention)]
      simp [hmention]

theorem find?_ofText : (ofText text).find? group subPath =
    ((((Mention.generics text.toList).map (Prod.mk genericGroup)).filter (concerns group subPath)).getLast?.map Prod.snd).or
      (((Mention.devices text.toList).filter (concerns group subPath)).getLast?.map Prod.snd) := by
  have hgenerics : ofText text = ((Mention.generics text.toList).map (Prod.mk genericGroup)).foldl
      (fun names mention => addMethod names mention.1 mention.2) (addDevice ((Mention.devices text.toList).foldl
        (fun names mention => addMethod names mention.1 mention.2) {}) genericGroup) := by
    rw [List.foldl_map]
    rfl
  have hempty : ({} : MethodNames).find? group subPath = none := rfl
  rw [hgenerics, find?_foldl_addMethod, find?_addDevice, find?_foldl_addMethod, hempty, Option.or_none]

/-! ## What is found in a text -/

/-- Behind `before` the text mentions the method of a device that the group is named for, and the segment is named for
the method. -/
def MentionedAlone (text group subPath : String) (before : List Char) (method : String) : Prop :=
  ∃ device, MentionsDevice text.toList before device method ∧ Text.lower device = Text.lower group ∧
    Text.lower method = Text.lower subPath

/-- The group is that of all devices, behind `before` the text mentions a method of all of them, and the segment is named
for the method. -/
def MentionedForAll (text group subPath : String) (before : List Char) (method : String) : Prop :=
  Text.lower group = genericGroup ∧ MentionsGeneric text.toList before method ∧ Text.lower method = Text.lower subPath

theorem lower_genericGroup : Text.lower genericGroup = genericGroup := by decide +kernel

/-- No device that is mentioned has the name of the group of all devices. -/
theorem lower_ne_genericGroup {cs before : List Char} (h : MentionsDevice cs before device method) :
    Text.lower device ≠ genericGroup := by
  intro heq
  refine brace_notMem_of_mentionsDevice h (Text.brace_mem_of_lower ?_)
  rw [heq]
  decide

theorem getLast?_concerns_generics :
    (((Mention.generics text.toList).map (Prod.mk genericGroup)).filter (concerns group subPath)).getLast?.map Prod.snd =
      if Text.lower group = genericGroup then
        ((Mention.generics text.toList).filter fun method => Text.lower method = Text.lower subPath).getLast?
      else none := by
  have hsame : (concerns group subPath) ∘ (Prod.mk genericGroup) = fun method =>
      decide (Text.lower group = genericGroup) && decide (Text.lower method = Text.lower subPath) := by
    funext method
    simp [concerns, lower_genericGroup, eq_comm]
  rw [List.filter_map, hsame, List.getLast?_map, Option.map_map]
  split
  · next hgroup => simp [hgroup, Function.comp_def]
  · next hgroup => simp [hgroup]

/-- What is found is mentioned last, for a device or for all of them. -/
theorem find?_ofText_eq_some : (ofText text).find? group subPath = some method ↔
    IsLast (MentionedAlone text group subPath) method ∨ IsLast (MentionedForAll text group subPath) method := by
  have halone : ((Mention.devices text.toList).filter (concerns group subPath)).getLast?.map Prod.snd = some method ↔
      IsLast (MentionedAlone text group subPath) method := by
    rw [getLast?_filter_devices]
    exact isLast_congr fun before method => by simp [MentionedAlone, concerns]
  rw [find?_ofText, getLast?_concerns_generics]
  by_cases hgroup : Text.lower group = genericGroup
  · have hnone : (Mention.devices text.toList).filter (concerns group subPath) = [] := by
      rw [List.filter_eq_nil_iff]
      rintro ⟨device, method⟩ hmention hconcerns
      obtain ⟨before, hbefore⟩ := mem_devices.mp hmention
      exact lower_ne_genericGroup hbefore ((of_decide_eq_true hconcerns).1.trans hgroup)
    have hall : IsLast (MentionedForAll text group subPath) method ↔ ((Mention.generics text.toList).filter fun method =>
        Text.lower method = Text.lower subPath).getLast? = some method := by
      rw [getLast?_filter_generics]
      exact isLast_congr fun before method => by simp [MentionedForAll, hgroup]
    rw [← halone, hall, hnone, if_pos hgroup]
    simp
  · have hnone : ¬ IsLast (MentionedForAll text group subPath) method := fun ⟨_, h, _⟩ => hgroup h.1
    rw [if_neg hgroup, Option.none_or, halone, or_iff_left hnone]

/-- Nothing is found just if nothing is mentioned. -/
theorem find?_ofText_eq_none : (ofText text).find? group subPath = none ↔
    ∀ before method, ¬ MentionedAlone text group subPath before method ∧
      ¬ MentionedForAll text group subPath before method := by
  rw [find?_ofText, Option.or_eq_none_iff, Option.map_eq_none_iff, Option.map_eq_none_iff, List.getLast?_eq_none_iff,
    List.getLast?_eq_none_iff, List.filter_eq_nil_iff, List.filter_eq_nil_iff, List.forall_mem_map]
  simp only [concerns, lower_genericGroup, decide_eq_true_eq]
  constructor
  · rintro ⟨hgenerics, hdevices⟩ before method
    refine ⟨?_, ?_⟩
    · rintro ⟨device, hmention, hsame⟩
      exact hdevices (device, method) (mem_devices.mpr ⟨before, hmention⟩) hsame
    · rintro ⟨hgroup, hmention, hsame⟩
      exact hgenerics method (mem_generics.mpr ⟨before, hmention⟩) ⟨hgroup.symm, hsame⟩
  · intro h
    refine ⟨fun method hmem hsame => ?_, ?_⟩
    · obtain ⟨before, hmention⟩ := mem_generics.mp hmem
      exact (h before method).2 ⟨hsame.1.symm, hmention, hsame.2⟩
    · rintro ⟨device, method⟩ hmem hsame
      obtain ⟨before, hmention⟩ := mem_devices.mp hmem
      exact (h before method).1 ⟨device, hmention, hsame⟩

/-! ## Answers -/

/-- The answer for a segment is the method that is found, or the fault that tells whether there is a device. -/
theorem resolve_text : names.resolve group (.text subPath) = match names.find? group subPath with
    | some method => .ok method
    | none => .error (.violation (if (names.device? group).isSome then .unknownMethod group subPath
        else .unknownDevice group (.text subPath))) := by
  unfold resolve find?
  cases names.device? group with
  | none => rfl
  | some device => cases hmethod : device.methods.get? (Text.lower subPath) <;> simp [hmethod]

theorem resolve_eq_ok : names.resolve group (.text subPath) = .ok method ↔ names.find? group subPath = some method := by
  rw [resolve_text]
  cases names.find? group subPath <;> simp

theorem resolve_eq_violation :
    (∃ violation, names.resolve group (.text subPath) = .error (.violation violation)) ↔
      names.find? group subPath = none := by
  rw [resolve_text]
  cases names.find? group subPath <;> simp

/-- A method that is found is named for the segment, and the text has it. -/
theorem of_isLast (h : IsLast (MentionedAlone text group subPath) method ∨ IsLast (MentionedForAll text group subPath) method) :
    Text.lower method = Text.lower subPath ∧ method.toList <:+: text.toList := by
  rcases h with ⟨_, ⟨device, hmention, -, hsame⟩, -⟩ | ⟨_, ⟨-, hmention, hsame⟩, -⟩
  · exact ⟨hsame, infix_of_mentionsDevice hmention⟩
  · exact ⟨hsame, infix_of_mentionsGeneric hmention⟩

/-! ## Segments of paths -/

/-- The last segment of a path that is not empty. -/
def lastSegment? (path : String) : Option String :=
  ((Text.splitAtChar '/' path.toList).filter fun segment => !segment.isEmpty).getLast?.map String.ofList

/-- The segment for which the method of a path is looked up is the last one. -/
theorem lastSegment?_of_groupOf {path : String} (h : groupOf path = .ok (group, subPath)) :
    lastSegment? path = some subPath := by
  unfold groupOf at h
  dsimp only at h
  split at h
  · next first second rest hsegments =>
    obtain ⟨-, rfl⟩ := Prod.mk.inj (Except.ok.inj h)
    have hfilter : ∃ before, ((Text.splitAtChar '/' path.toList).filter fun segment => !segment.isEmpty) =
        before ++ first :: second :: rest := by
      refine ⟨((Text.splitAtChar '/' path.toList).take 1).filter fun segment => !segment.isEmpty, ?_⟩
      rw [← hsegments, ← List.filter_append, List.take_append_drop]
    obtain ⟨before, hfilter⟩ := hfilter
    simp [lastSegment?, hfilter, List.getLast?_append, List.getLast?_cons]
  · cases h

end MethodNames

/-! ## Operations of normalized documents -/

namespace MethodNames

open Procedure

/-- **The names of a text are exact.** For a group and a segment, the names that a text is read into answer the method
that the text mentions last for a device of the name of the group and with the name of the segment, but for the case; or,
for the group of all devices, the one that it mentions last for all of them. They refuse the group and the segment just if
there is no such mention. So in a document that is normalized with these names every operation has a name that is the last
segment of its path, but for the case, and stands in the text. -/
theorem ofText_exact (text : String) :
    (∀ group subPath : String,
      (∀ method, (ofText text).resolve group (.text subPath) = .ok method ↔
        IsLast (MentionedAlone text group subPath) method ∨ IsLast (MentionedForAll text group subPath) method) ∧
      ((∃ violation, (ofText text).resolve group (.text subPath) = .error (.violation violation)) ↔
        ∀ before method, ¬ MentionedAlone text group subPath before method ∧
          ¬ MentionedForAll text group subPath before method)) ∧
    ∀ (document catalogue : Tree) (merge : Bool) (log : List Log.Record) (result : Normalized) (s' : Session),
      document.IsJson → Procedure.Runs
        (Procedure.normalize (Store.empty.load document).1 (some (ofText text)) catalogue merge)
        ⟨(Store.empty.load document).2, log⟩ result s' →
      ∃ ops, s'.store.operations result.document = .ok ops ∧ ∀ op ∈ ops, ∃ name segment,
        s'.store.field? op.content (.text methodNameKey) = some (.text name) ∧ lastSegment? op.path = some segment ∧
          Text.lower name = Text.lower segment ∧ name.toList <:+: text.toList := by
  refine ⟨fun group subPath => ⟨fun method => ?_, ?_⟩, fun document catalogue merge log result s' hdocument hrun => ?_⟩
  · rw [resolve_eq_ok, find?_ofText_eq_some]
  · rw [resolve_eq_violation, find?_ofText_eq_none]
  · obtain ⟨ops, -, hops, hnormal⟩ := Procedure.exists_normal_operations hdocument hrun
    refine ⟨ops, hops, fun op hop => ?_⟩
    obtain ⟨name, hname, hfield⟩ := (hnormal op hop).name _ rfl
    unfold resolvePath at hname
    split at hname
    · next group subPath hgroup =>
      obtain ⟨hsame, hinfix⟩ := of_isLast (find?_ofText_eq_some.mp (resolve_eq_ok.mp hname))
      exact ⟨name, subPath, hfield, lastSegment?_of_groupOf hgroup, hsame, hinfix⟩
    · cases hname

theorem ofText_exact_reply :
    let text := "M:ASCOM.Alpaca.Simulators.ValueController.READ( M:ASCOM.Alpaca.Simulators.ValueController.Read("
    let document := describing
      [("/value/\x7bnumber\x7d/read", .ofFields [("get", readOperation ["number"] "#/components/schemas/Reply")])]
      [("schemas", .ofFields [("Reply", reply)])]
    let start := Store.empty.load document
    (ofText text).resolve "VALUE" (.text "rEAD") = .ok "Read" ∧
      (IsLast (MentionedAlone text "VALUE" "rEAD") "Read" ∨ IsLast (MentionedForAll text "VALUE" "rEAD") "Read") ∧
      document.IsJson ∧ ∃ result s', Procedure.Runs
        (Procedure.normalize start.1 (some (ofText text)) defaultCatalogue true) ⟨start.2, []⟩ result s' ∧
        ∃ ops, s'.store.operations result.document = .ok ops ∧ ∀ op ∈ ops, ∃ name segment,
          s'.store.field? op.content (.text methodNameKey) = some (.text name) ∧ lastSegment? op.path = some segment ∧
            Text.lower name = Text.lower segment ∧ name.toList <:+: text.toList := by
  intro text document start
  obtain ⟨hresolves, hnormalizes⟩ := ofText_exact text
  have hdevices : Mention.devices text.toList = [("Value", "READ"), ("Value", "Read")] := by decide +kernel
  have hgenerics : Mention.generics text.toList = [] := by decide +kernel
  have hnames : ofText text = ((addMethod {} "Value" "READ").addMethod "Value" "Read").addDevice genericGroup := by
    rw [ofText, hdevices, hgenerics]
    rfl
  have hread : (ofText text).resolve "VALUE" (.text "rEAD") = .ok "Read" := by
    rw [hnames, resolve_eq_ok]
    decide +kernel
  have hjson : document.IsJson := by decide +kernel
  have hanswer : ((Procedure.normalize start.1 (some (ofText text)) defaultCatalogue true).runOn
      ⟨start.2, []⟩).1.toOption.map (fun result => result.replacements.length) = some 1 := by
    rw [hnames]
    decide +kernel
  obtain ⟨result, s', hrun, -⟩ := Procedure.exists_runs hanswer
  exact ⟨hread, ((hresolves _ _).1 _).mp hread, hjson, result, s', hrun,
    hnormalizes document defaultCatalogue true [] result s' hjson hrun⟩

end MethodNames

end DeviceApi
