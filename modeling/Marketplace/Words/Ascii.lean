import Mathlib.Tactic.Common

/-!
# Letters and digits of ASCII

The letters and the digits of ASCII by their numbers, and what a change of case does to a character:
it makes a capital letter a small one (`Ascii.toLower_cases`), or a small letter a capital one
(`Ascii.toUpper_cases`), and leaves every other character as it is.
-/

namespace Ascii

variable {c : Char}

/-! ### Numbers -/

theorem isUpper_iff : c.isUpper = true ↔ 65 ≤ c.toNat ∧ c.toNat ≤ 90 :=
  decide_eq_true_iff.trans (and_congr UInt32.le_iff_toNat_le UInt32.le_iff_toNat_le)

theorem isLower_iff : c.isLower = true ↔ 97 ≤ c.toNat ∧ c.toNat ≤ 122 :=
  Bool.and_eq_true_iff.trans (and_congr (decide_eq_true_iff.trans UInt32.le_iff_toNat_le)
    (decide_eq_true_iff.trans UInt32.le_iff_toNat_le))

theorem isDigit_iff : c.isDigit = true ↔ 48 ≤ c.toNat ∧ c.toNat ≤ 57 :=
  Bool.and_eq_true_iff.trans (and_congr (decide_eq_true_iff.trans UInt32.le_iff_toNat_le)
    (decide_eq_true_iff.trans UInt32.le_iff_toNat_le))

theorem isAlpha_iff : c.isAlpha = true ↔ c.isUpper = true ∨ c.isLower = true :=
  Bool.or_eq_true_iff

/-! ### Case -/

/-- Only capitals have another lower case. -/
theorem toLower_of_not_isUpper (h : ¬ c.isUpper = true) : c.toLower = c :=
  dif_neg fun hval => h (decide_eq_true hval)

theorem toNat_toLower (h : c.isUpper = true) : c.toLower.toNat = c.toNat + 32 := by
  have hrange := isUpper_iff.mp h
  have hval : c.toLower.val = c.val + 32 := congrArg Char.val (dif_pos (of_decide_eq_true h))
  have hsum : c.toLower.toNat = (c.toNat + 32) % 2 ^ 32 :=
    (congrArg UInt32.toNat hval).trans (UInt32.toNat_add _ _)
  omega

/-- Only small letters have another upper case. -/
theorem toUpper_of_not_isLower (h : ¬ c.isLower = true) : c.toUpper = c :=
  dif_neg fun hval => h (Bool.and_eq_true_iff.mpr (hval.imp decide_eq_true decide_eq_true))

theorem toNat_toUpper (h : c.isLower = true) : c.toUpper.toNat + 32 = c.toNat := by
  have hrange := isLower_iff.mp h
  have hbounds : 'a'.val ≤ c.val ∧ c.val ≤ 'z'.val :=
    (Bool.and_eq_true_iff.mp h).imp of_decide_eq_true of_decide_eq_true
  have hval : c.toUpper.val = c.val + ('A'.val - 'a'.val) := by
    delta Char.toUpper
    rw [dif_pos hbounds]
  -- A capital letter has the smaller number, so that the difference wraps around.
  have hwrap : ('A'.val - 'a'.val).toNat = 2 ^ 32 - 32 := by decide
  have hsum : c.toUpper.toNat = (c.toNat + ('A'.val - 'a'.val).toNat) % 2 ^ 32 :=
    (congrArg UInt32.toNat hval).trans (UInt32.toNat_add _ _)
  omega

/-- **Lower case** leaves a character as it is, or makes a capital letter a small one. -/
theorem toLower_cases (c : Char) :
    ¬ c.isUpper = true ∧ c.toLower = c ∨ c.isUpper = true ∧ c.toLower.isLower = true := by
  by_cases hupper : c.isUpper = true
  · have hrange := isUpper_iff.mp hupper
    have hshift := toNat_toLower hupper
    exact .inr ⟨hupper, isLower_iff.mpr (by omega)⟩
  · exact .inl ⟨hupper, toLower_of_not_isUpper hupper⟩

/-- **Upper case** leaves a character as it is, or makes a small letter a capital one. -/
theorem toUpper_cases (c : Char) :
    ¬ c.isLower = true ∧ c.toUpper = c ∨ c.isLower = true ∧ c.toUpper.isUpper = true := by
  by_cases hlower : c.isLower = true
  · have hrange := isLower_iff.mp hlower
    have hshift := toNat_toUpper hlower
    exact .inr ⟨hlower, isUpper_iff.mpr (by omega)⟩
  · exact .inl ⟨hlower, toUpper_of_not_isLower hlower⟩

theorem toLower_toLower (c : Char) : c.toLower.toLower = c.toLower := by
  refine toLower_of_not_isUpper fun hupper => ?_
  have hcapital := isUpper_iff.mp hupper
  rcases toLower_cases c with ⟨hnot, heq⟩ | ⟨-, hlower⟩
  · rw [heq] at hupper
    exact hnot hupper
  · have hsmall := isLower_iff.mp hlower
    omega

/-- What is true of no letter is as true of a character in lower case. -/
theorem toLower_iff {P : Char → Prop} (hP : ∀ c : Char, c.isAlpha = true → ¬P c) (c : Char) :
    P c.toLower ↔ P c := by
  rcases toLower_cases c with ⟨-, heq⟩ | ⟨hupper, hlower⟩
  · rw [heq]
  · exact iff_of_false (hP _ (isAlpha_iff.mpr (.inr hlower))) (hP _ (isAlpha_iff.mpr (.inl hupper)))

end Ascii
