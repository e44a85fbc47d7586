/-!
# Codes of characters

An escape may state any code up to the last one of a character, also one of those that stand for
no character but for half of one. A text keeps such a half as a character of private use that
lies a fixed distance above its code, and shows and orders it as the half that it is.
-/

namespace DeviceApi.Text

/-- The greatest code. -/
def maxCode : Nat := 0x10FFFF

/-- Whether a code stands for half of a character, the first or the second one. -/
def isHalf (code : Nat) : Bool := 0xD800 ≤ code && code < 0xE000

/-- Whether a code stands for the first half of a character. -/
def isFirstHalf (code : Nat) : Bool := 0xD800 ≤ code && code < 0xDC00

/-- Whether a code stands for the second half of a character. -/
def isSecondHalf (code : Nat) : Bool := 0xDC00 ≤ code && code < 0xE000

/-- How far above its code a half is kept. -/
def halfShift : Nat := 0x100000

/-- The character of a code. -/
def charOfCode (code : Nat) : Char :=
  if isHalf code then Char.ofNat (code + halfShift) else Char.ofNat code

/-- The code that a character stands for. -/
def codeOf (c : Char) : Nat :=
  if isHalf (c.toNat - halfShift) then c.toNat - halfShift else c.toNat

/-- Whether a character of a text is kept for half of one. -/
def isHalfChar (c : Char) : Bool := isHalf (c.toNat - halfShift)

/-- The character of two halves. -/
def joinCodes (first second : Nat) : Char :=
  Char.ofNat (0x10000 + (first - 0xD800) * 0x400 + (second - 0xDC00))

/-- A text in which halves that follow each other are joined. -/
def joinHalves : List Char → List Char
  | [] => []
  | [c] => [c]
  | c :: d :: rest =>
    if isFirstHalf (codeOf c) && isSecondHalf (codeOf d) then
      joinCodes (codeOf c) (codeOf d) :: joinHalves rest
    else c :: joinHalves (d :: rest)

/-- Whether a text comes before another: the first codes that differ decide. -/
def lessChars : List Char → List Char → Bool
  | _, [] => false
  | [], _ :: _ => true
  | c :: cs, d :: ds => if codeOf c = codeOf d then lessChars cs ds else codeOf c < codeOf d

/-- Whether a text comes before another one in the order of their codes. -/
def less (s t : String) : Bool := lessChars s.toList t.toList

/-- Texts in the order of their codes. -/
def sorted (texts : List String) : List String := texts.mergeSort fun s t => !less t s

/-- The character that a half is kept as has the code of the half. -/
theorem codeOf_charOfCode_of_isHalf {code : Nat} (h : isHalf code = true) :
    codeOf (charOfCode code) = code := by
  simp only [isHalf, Bool.and_eq_true, decide_eq_true_eq] at h
  have hvalid : (code + 0x100000).isValidChar := by
    right
    constructor <;> omega
  have hchar : (Char.ofNat (code + 0x100000)).toNat = code + 0x100000 := by
    rw [Char.ofNat, dif_pos hvalid]
    rfl
  have hhalf : isHalf code = true := by simp [isHalf, h]
  simp [codeOf, charOfCode, halfShift, hhalf, hchar]

end DeviceApi.Text
