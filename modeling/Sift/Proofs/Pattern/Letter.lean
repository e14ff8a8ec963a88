import Sift.Pattern.Engine

/-!
# Letters in the other case

`Pattern.otherCase` gives a letter of ASCII in the other case. `toLower_eq_toLower_iff` is the
result that two characters are the same but for case exactly if they are equal or one is the other
letter in the other case.
-/

namespace Sift.Pattern

variable {c d : Char}

/-- A character of a kind is not among characters that are not of the kind. -/
theorem not_mem_of_all {kind : Char → Bool} {others : List Char} (h : kind c = true)
    (hothers : others.all (fun d => !kind d) = true) :
  c ∉ others
  := by
  intro hmem
  have hc := List.all_eq_true.mp hothers c hmem
  rw [h] at hc
  cases hc

theorem isUpper_iff :
  c.isUpper = true ↔ 65 ≤ c.toNat ∧ c.toNat ≤ 90
  := decide_eq_true_iff

theorem isLower_iff :
  c.isLower = true ↔ 97 ≤ c.toNat ∧ c.toNat ≤ 122
  := by
  apply (Bool.and_eq_true_iff).trans
  exact and_congr decide_eq_true_iff decide_eq_true_iff

theorem isDigit_iff :
  c.isDigit = true ↔ 48 ≤ c.toNat ∧ c.toNat ≤ 57
  := by
  apply (Bool.and_eq_true_iff).trans
  exact and_congr decide_eq_true_iff decide_eq_true_iff

theorem isAlpha_iff :
  c.isAlpha = true ↔ 65 ≤ c.toNat ∧ c.toNat ≤ 90 ∨ 97 ≤ c.toNat ∧ c.toNat ≤ 122
  := by
  apply (Bool.or_eq_true_iff).trans
  exact or_congr isUpper_iff isLower_iff

theorem isAlphanum_iff :
  c.isAlphanum = true ↔ c.isAlpha = true ∨ c.isDigit = true
  := Bool.or_eq_true_iff

theorem le_iff_toNat_le :
  c ≤ d ↔ c.toNat ≤ d.toNat
  := by
  rw [Char.le_def, UInt32.le_iff_toNat_le]
  rfl

theorem toNat_toLower (c : Char) :
  c.toLower.toNat = if 65 ≤ c.toNat ∧ c.toNat ≤ 90 then c.toNat + 32 else c.toNat
  := by
  have hiff : (c.val ≥ 'A'.val ∧ c.val ≤ 'Z'.val) ↔ 65 ≤ c.toNat ∧ c.toNat ≤ 90 := by
    rw [ge_iff_le, UInt32.le_iff_toNat_le, UInt32.le_iff_toNat_le]
    rfl
  change (dite _ _ _ : Char).toNat = _
  by_cases h : 65 ≤ c.toNat ∧ c.toNat ≤ 90
  · rw [dif_pos (hiff.mpr h), if_pos h]
    change (c.val + ('a'.val - 'A'.val)).toNat = c.toNat + 32
    rw [UInt32.toNat_add]
    change (c.toNat + 32) % 4294967296 = c.toNat + 32
    omega
  · rw [dif_neg (mt hiff.mp h), if_neg h]

theorem toNat_toUpper (c : Char) :
  c.toUpper.toNat = if 97 ≤ c.toNat ∧ c.toNat ≤ 122 then c.toNat - 32 else c.toNat
  := by
  have hiff : ('a'.val ≤ c.val ∧ c.val ≤ 'z'.val) ↔ 97 ≤ c.toNat ∧ c.toNat ≤ 122 := by
    rw [UInt32.le_iff_toNat_le, UInt32.le_iff_toNat_le]
    rfl
  change (dite _ _ _ : Char).toNat = _
  by_cases h : 97 ≤ c.toNat ∧ c.toNat ≤ 122
  · rw [dif_pos (hiff.mpr h), if_pos h]
    change (c.val + ('A'.val - 'a'.val)).toNat = c.toNat - 32
    rw [UInt32.toNat_add]
    change (c.toNat + 4294967264) % 4294967296 = c.toNat - 32
    omega
  · rw [dif_neg (mt hiff.mp h), if_neg h]

theorem toNat_otherCase (c : Char) :
  (otherCase c).toNat = if 97 ≤ c.toNat ∧ c.toNat ≤ 122 then c.toNat - 32
    else if 65 ≤ c.toNat ∧ c.toNat ≤ 90 then c.toNat + 32 else c.toNat
  := by
  rw [otherCase]
  by_cases h : 97 ≤ c.toNat ∧ c.toNat ≤ 122
  · rw [if_pos (isLower_iff.mpr h), toNat_toUpper, if_pos h, if_pos h]
  · rw [if_neg (mt isLower_iff.mp h), toNat_toLower, if_neg h]

theorem isAlpha_otherCase :
  (otherCase c).isAlpha = c.isAlpha
  := by
  rw [Bool.eq_iff_iff, isAlpha_iff, isAlpha_iff, toNat_otherCase]
  grind

theorem otherCase_otherCase :
  otherCase (otherCase c) = c
  := by
  rw [← Char.toNat_inj, toNat_otherCase, toNat_otherCase]
  grind

/-- Characters are the same but for case if they are equal, or one is a letter and the other one is
this letter in the other case. -/
theorem toLower_eq_toLower_iff :
  c.toLower = d.toLower ↔ c = d ∨ d.isAlpha = true ∧ c = otherCase d
  := by
  rw [← Char.toNat_inj, ← Char.toNat_inj, ← Char.toNat_inj, toNat_toLower, toNat_toLower,
    toNat_otherCase, isAlpha_iff]
  split <;> split <;> split <;> omega

end Sift.Pattern
