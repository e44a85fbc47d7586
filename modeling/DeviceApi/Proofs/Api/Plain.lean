import DeviceApi.Api.Classification
import DeviceApi.Proofs.Document.Pointers
import DeviceApi.Proofs.Schema.Table
import DeviceApi.Proofs.Text.Encoding

/-!
# Plain pointers

A plain pointer names an entry of a group of the components, and none of its characters stands for
another one. The pointers to schemas that operations register are plain.
-/

namespace DeviceApi

namespace Text

/-- The runs of characters with a property are made of such characters. -/
theorem of_mem_runs {p : Char → Bool} {cs run : List Char} {c : Char} (hrun : run ∈ runs p cs)
    (hc : c ∈ run) : p c = true := by
  induction cs using runs.induct p generalizing run with
  | case1 => simp [runs] at hrun
  | case2 d hd =>
    rw [runs, if_pos hd, List.mem_singleton] at hrun
    rw [hrun, List.mem_singleton] at hc
    exact hc ▸ hd
  | case3 d hd => simp [runs, hd] at hrun
  | case4 d e rest hd first later hmore he ih => grind [runs]
  | case5 d e rest hd hno ih => grind [runs]
  | case6 d e rest hd ih => grind [runs]

theorem isAlphanum_toUpper {c : Char} (h : c.isAlphanum = true) : c.toUpper.isAlphanum = true := by
  unfold Char.toUpper
  split
  · next hsmall =>
    have hcapital : 'A'.val ≤ c.val + ('A'.val - 'a'.val) ∧ c.val + ('A'.val - 'a'.val) ≤ 'Z'.val := by
      simp only [UInt32.le_iff_toNat_le, UInt32.toNat_add] at hsmall ⊢
      simp only [UInt32.reduceToNat, UInt32.reduceSub, Char.reduceVal] at hsmall ⊢
      omega
    unfold Char.isAlphanum Char.isAlpha Char.isUpper
    simp only [ge_iff_le, hcapital, and_self, decide_true, Bool.true_or]
  · exact h

/-- A name in this form has letters and digits only. -/
theorem isAlphanum_of_mem_toPascalCase {text : String} {c : Char} (h : c ∈ (toPascalCase text).toList) :
    c.isAlphanum = true := by
  rw [toPascalCase, String.toList_ofList, List.mem_flatMap] at h
  obtain ⟨word, hword, hc⟩ := h
  have hall : ∀ d ∈ word, d.isAlphanum = true := fun d => of_mem_runs hword
  match word, hc with
  | d :: rest, hc =>
    rcases List.mem_cons.mp hc with rfl | hmem
    · exact isAlphanum_toUpper (hall d List.mem_cons_self)
    · exact hall c (List.mem_cons_of_mem _ hmem)

theorem splitAtChar_of_notMem {separator : Char} {cs : List Char} (h : separator ∉ cs) :
    splitAtChar separator cs = [cs] := by
  induction cs with
  | nil => rfl
  | cons c cs ih =>
    simp only [List.mem_cons, not_or] at h
    rw [splitAtChar, ih h.2]
    simp [Ne.symm h.1]

end Text

namespace Pointer

/-- No character of the key stands for another one in a pointer. -/
def Simple (key : String) : Prop := ∀ c ∈ key.toList, c ≠ '/' ∧ c ≠ '~' ∧ c ≠ '%'

instance (key : String) : Decidable (Simple key) :=
  List.decidableBAll (fun c => c ≠ '/' ∧ c ≠ '~' ∧ c ≠ '%') key.toList

/-- The pointer names an entry of a group of the components. -/
def Plain (pointer : String) : Prop :=
  ∃ group name, pointer = "#/components/" ++ group ++ "/" ++ name ∧ Simple group ∧ Simple name

theorem unescape_eq_self {digit replacement : Char} {cs : List Char} (h : '~' ∉ cs) :
    unescape digit replacement cs = cs := by
  induction cs with
  | nil => rfl
  | cons c cs ih =>
    simp only [List.mem_cons, not_or] at h
    rw [unescape, ih h.2]
    rintro d rest rfl
    exact absurd rfl h.1

/-- A simple key stands for itself. -/
theorem Simple.decodeStep_eq {key : String} (h : Simple key) : decodeStep key.toList = key := by
  have hslash : '~' ∉ key.toList := fun hmem => (h _ hmem).2.1 rfl
  have hpercent : '%' ∉ key.toList := fun hmem => (h _ hmem).2.2 rfl
  rw [decodeStep, Text.percentDecode_eq_self hpercent, unescape_eq_self hslash, unescape_eq_self hslash,
    String.ofList_toList]

/-- The steps of a pointer to an entry of a group. -/
theorem steps?_eq {group name : String} (hgroup : Simple group) (hname : Simple name) :
    steps? ("#/components/" ++ group ++ "/" ++ name) = some ["components", group, name] := by
  have hlist : ("#/components/" ++ group ++ "/" ++ name).toList =
      '#' :: '/' :: ("components".toList ++ '/' :: (group.toList ++ '/' :: name.toList)) := by
    simp only [String.toList_append, List.append_assoc]
    rfl
  have hslash : ∀ {key : String}, Simple key → '/' ∉ key.toList := fun h hmem => (h _ hmem).1 rfl
  unfold steps?
  rw [hlist]
  simp only
  rw [Text.splitAtChar_append (by decide), Text.splitAtChar_append (hslash hgroup),
    Text.splitAtChar_of_notMem (hslash hname)]
  simp only [List.map_cons, List.map_nil, hgroup.decodeStep_eq, hname.decodeStep_eq]
  rfl

theorem Plain.exists_steps {pointer : String} (h : Plain pointer) :
    ∃ group name, steps? pointer = some ["components", group, name] := by
  obtain ⟨group, name, rfl, hgroup, hname⟩ := h
  exact ⟨group, name, steps?_eq hgroup hname⟩

end Pointer

/-- The names of registered schemas are simple. -/
theorem Operation.simple_schemaName (op : Operation) (role : Role) : Pointer.Simple (op.schemaName role) := by
  have hrole : Pointer.Simple role.text := by cases role <;> decide
  intro c hc
  rw [schemaName, typeId, String.toList_append, List.mem_append] at hc
  rcases hc with hmem | hmem
  · have halphanum := Text.isAlphanum_of_mem_toPascalCase hmem
    refine ⟨?_, ?_, ?_⟩ <;> rintro rfl <;> exact absurd halphanum (by decide)
  · exact hrole c hmem

theorem pointerTo_eq (name : String) : pointerTo name = "#/components/" ++ "schemas" ++ "/" ++ name := rfl

end DeviceApi
