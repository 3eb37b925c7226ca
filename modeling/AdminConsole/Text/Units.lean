/-!
UTF-16 units. A character beyond the first plane is a pair of units, a high one and a low one. Half a
pair that stands alone is no character; texts hold U+FFFD in its place.
-/

namespace AdminConsole.Text

def isHighUnit (n : Nat) : Bool := 0xD800 ≤ n && n < 0xDC00

def isLowUnit (n : Nat) : Bool := 0xDC00 ≤ n && n < 0xE000

def isHalf (n : Nat) : Bool := isHighUnit n || isLowUnit n

/-- The character number of a pair. -/
def joined (high low : Nat) : Nat := 0x10000 + (high - 0xD800) * 0x400 + (low - 0xDC00)

/-- The character of a unit or number; half a pair stands for no character. -/
def unitChar (n : Nat) : Char := if isHalf n then Char.ofNat 0xFFFD else Char.ofNat n

/-- The character numbers of a sequence of units; half a pair that stands alone stays as it is. -/
def joinUnits : List Nat → List Nat
  | high :: low :: rest =>
    if isHighUnit high && isLowUnit low then joined high low :: joinUnits rest
    else high :: joinUnits (low :: rest)
  | [unit] => [unit]
  | [] => []

theorem isHalf_toNat (c : Char) : isHalf c.toNat = false := by
  have hvalid : c.toNat < 0xD800 ∨ (0xDFFF < c.toNat ∧ c.toNat < 0x110000) := c.valid
  simp only [isHalf, isHighUnit, isLowUnit, Bool.or_eq_false_iff, Bool.and_eq_false_iff,
    decide_eq_false_iff_not]
  omega

/-- The units of a character beyond the first plane join to its number. -/
theorem joined_split {n : Nat} (h : 0x10000 ≤ n) :
    joined (0xD800 + (n - 0x10000) / 0x400) (0xDC00 + (n - 0x10000) % 0x400) = n := by
  unfold joined
  omega

theorem isHalf_joined (high low : Nat) : isHalf (joined high low) = false := by
  have hbeyond : 0xE000 ≤ joined high low :=
    Nat.le_trans (by decide) (Nat.le_trans (Nat.le_add_right 0x10000 _) (Nat.le_add_right _ _))
  generalize joined high low = n at hbeyond
  simp only [isHalf, isHighUnit, isLowUnit, Bool.or_eq_false_iff, Bool.and_eq_false_iff,
    decide_eq_false_iff_not]
  omega

theorem joinUnits_cons {n : Nat} (h : isHighUnit n = false) (rest : List Nat) :
    joinUnits (n :: rest) = n :: joinUnits rest := by
  cases rest with
  | nil => rfl
  | cons low rest => simp [joinUnits, h]

theorem joinUnits_pair {high low : Nat} (hhigh : isHighUnit high = true)
    (hlow : isLowUnit low = true) (rest : List Nat) :
    joinUnits (high :: low :: rest) = joined high low :: joinUnits rest := by
  simp [joinUnits, hhigh, hlow]

theorem unitChar_toNat (c : Char) : unitChar c.toNat = c := by
  rw [unitChar, isHalf_toNat, if_neg Bool.false_ne_true, Char.ofNat_toNat]

end AdminConsole.Text
