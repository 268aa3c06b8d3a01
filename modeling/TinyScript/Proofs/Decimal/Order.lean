import Mathlib.Order.Compare
import TinyScript.Proofs.Decimal.Rounding

/-!
# Decimals are ordered as the numbers they stand for

Comparing decimals looks at signs first, then at the places of the leading digits, and brings both
to one scale only if these agree. A leading place is a bound on the number from both sides
(`abs_value_lt`, `le_abs_value`), so each of these steps gives the order of the numbers:
`compareValue_eq`. The scales have no part in the result, negative ones included.
-/

namespace TinyScript.Decimal

variable {a b d : Decimal}

/-! ## Sizes -/

theorem lt_ten_pow_digitCount (n : ℕ) : n < 10 ^ digitCount n :=
  (Nat.length_toDigits_le_iff (by decide) Nat.length_toDigits_pos).mp (Nat.le_refl _)

theorem ten_pow_digitCount_le {n : ℕ} (h : n ≠ 0) : 10 ^ (digitCount n - 1) ≤ n := by
  by_contra hlt
  have hpositive : 0 < digitCount n := Nat.length_toDigits_pos
  have hfewer : digitCount n ≤ digitCount n - 1 := by
    refine (Nat.length_toDigits_le_iff (by decide) ?_).mpr (by omega)
    -- A number below ten to the zero is zero.
    by_contra hnone
    rw [show digitCount n - 1 = 0 by omega] at hlt
    omega
  omega

theorem abs_value (d : Decimal) : |d.value| = (d.unscaled.natAbs : ℚ) * 10 ^ (-d.scale) := by
  rw [value, abs_mul, abs_of_pos (ten_zpow_pos _), ← Int.cast_abs, Int.abs_eq_natAbs,
    Int.cast_natCast]

theorem zpow_leadingPlace (d : Decimal) (k : ℤ) :
    (10 : ℚ) ^ (d.leadingPlace - k) =
      10 ^ ((digitCount d.unscaled.natAbs : ℤ) - k) * 10 ^ (-d.scale) := by
  rw [← zpow_add₀ (by norm_num : (10 : ℚ) ≠ 0), leadingPlace]
  congr 1
  ring

/-- A number is less than ten to the leading place. -/
theorem abs_value_lt (d : Decimal) : |d.value| < 10 ^ d.leadingPlace := by
  have hplace := zpow_leadingPlace d 0
  rw [sub_zero, sub_zero, zpow_natCast] at hplace
  rw [abs_value, hplace]
  exact mul_lt_mul_of_pos_right (mod_cast lt_ten_pow_digitCount _) (ten_zpow_pos _)

/-- A number other than zero is at least ten to the place behind the leading one. -/
theorem le_abs_value (h : d.unscaled ≠ 0) : 10 ^ (d.leadingPlace - 1) ≤ |d.value| := by
  have hpositive : 0 < digitCount d.unscaled.natAbs := Nat.length_toDigits_pos
  have hpred : (digitCount d.unscaled.natAbs : ℤ) - 1 =
      ((digitCount d.unscaled.natAbs - 1 : ℕ) : ℤ) := by omega
  rw [abs_value, zpow_leadingPlace, hpred, zpow_natCast]
  refine mul_le_mul_of_nonneg_right ?_ (ten_zpow_pos _).le
  exact_mod_cast ten_pow_digitCount_le (Int.natAbs_ne_zero.mpr h)

theorem abs_value_lt_abs_value (h : b.unscaled ≠ 0) (hplace : a.leadingPlace < b.leadingPlace) :
    |a.value| < |b.value| :=
  calc |a.value| < 10 ^ a.leadingPlace := abs_value_lt a
    _ ≤ 10 ^ (b.leadingPlace - 1) := zpow_le_zpow_right₀ (by norm_num) (by omega)
    _ ≤ |b.value| := le_abs_value h

/-! ## Signs -/

theorem value_pos_iff : 0 < d.value ↔ 0 < d.unscaled := by
  rw [value, mul_pos_iff_of_pos_right (ten_zpow_pos _), Int.cast_pos]

theorem value_nonpos_iff : d.value ≤ 0 ↔ d.unscaled ≤ 0 := by
  rw [← not_lt, value_pos_iff, not_lt]

theorem value_neg_iff : d.value < 0 ↔ d.unscaled < 0 := by
  rw [lt_iff_le_and_ne, value_nonpos_iff, Ne, value_eq_zero_iff, ← Ne, ← lt_iff_le_and_ne]

theorem value_lt_of_sign_lt (h : a.unscaled.sign < b.unscaled.sign) : a.value < b.value := by
  by_cases hb : 0 < b.unscaled
  · have ha : a.unscaled ≤ 0 := by
      by_contra hpositive
      rw [Int.sign_eq_one_of_pos hb, Int.sign_eq_one_of_pos (not_le.mp hpositive)] at h
      exact absurd h (lt_irrefl 1)
    exact (value_nonpos_iff.mpr ha).trans_lt (value_pos_iff.mpr hb)
  · have ha : a.unscaled < 0 := by
      by_contra hnonneg
      have hbsign : b.unscaled.sign ≤ 0 := Int.sign_nonpos_iff.mpr (not_lt.mp hb)
      have hasign : 0 ≤ a.unscaled.sign := Int.sign_nonneg_iff.mpr (not_lt.mp hnonneg)
      omega
    rw [Int.sign_eq_neg_one_of_neg ha] at h
    have hb' : b.unscaled = 0 := by
      by_contra hne
      rw [Int.sign_eq_neg_one_of_neg (by omega)] at h
      exact absurd h (lt_irrefl _)
    rw [value_eq_zero_iff.mpr hb']
    exact value_neg_iff.mpr ha

theorem compare_sign (h : a.unscaled.sign ≠ b.unscaled.sign) :
    compare a.unscaled.sign b.unscaled.sign = compare a.value b.value := by
  rcases lt_or_gt_of_ne h with hlt | hgt
  · rw [compare_lt_iff_lt.mpr hlt, compare_lt_iff_lt.mpr (value_lt_of_sign_lt hlt)]
  · rw [compare_gt_iff_gt.mpr hgt, compare_gt_iff_gt.mpr (value_lt_of_sign_lt hgt)]

/-! ## Leading places -/

theorem compare_leadingPlace (ha : a.unscaled ≠ 0) (hb : b.unscaled ≠ 0)
    (h : a.leadingPlace ≠ b.leadingPlace) :
    compare a.leadingPlace b.leadingPlace = compare |a.value| |b.value| := by
  rcases lt_or_gt_of_ne h with hlt | hgt
  · rw [compare_lt_iff_lt.mpr hlt, compare_lt_iff_lt.mpr (abs_value_lt_abs_value hb hlt)]
  · rw [compare_gt_iff_gt.mpr hgt, compare_gt_iff_gt.mpr (abs_value_lt_abs_value ha hgt)]

theorem unscaled_eq_zero_iff_of_sign_eq (h : a.unscaled.sign = b.unscaled.sign) :
    a.unscaled = 0 ↔ b.unscaled = 0 := by
  rw [← Int.sign_eq_zero_iff_zero, h, Int.sign_eq_zero_iff_zero]

/-- Of numbers with one sign the sizes decide, the other way around if they are negative. -/
theorem compare_of_leadingPlace_ne (hsign : a.unscaled.sign = b.unscaled.sign)
    (hzero : a.unscaled ≠ 0) (hplace : a.leadingPlace ≠ b.leadingPlace) :
    (if a.unscaled < 0 then compare b.leadingPlace a.leadingPlace
      else compare a.leadingPlace b.leadingPlace) = compare a.value b.value := by
  have hzero' : b.unscaled ≠ 0 := (unscaled_eq_zero_iff_of_sign_eq hsign).not.mp hzero
  by_cases hneg : a.unscaled < 0
  · have hneg' : b.unscaled < 0 := by
      rwa [← Int.sign_eq_neg_one_iff_neg, ← hsign, Int.sign_eq_neg_one_iff_neg]
    have hflip : StrictAnti fun q : ℚ => -q := fun _ _ => neg_lt_neg
    rw [if_pos hneg, compare_leadingPlace hzero' hzero hplace.symm,
      abs_of_neg (value_neg_iff.mpr hneg), abs_of_neg (value_neg_iff.mpr hneg'),
      ← cmp_eq_compare, ← cmp_eq_compare]
    exact hflip.cmp_map_eq _ _
  · have hpos : 0 < a.unscaled := by omega
    have hpos' : 0 < b.unscaled := by
      rwa [← Int.sign_eq_one_iff_pos, ← hsign, Int.sign_eq_one_iff_pos]
    rw [if_neg hneg, compare_leadingPlace hzero hzero' hplace,
      abs_of_pos (value_pos_iff.mpr hpos), abs_of_pos (value_pos_iff.mpr hpos')]

/-! ## One scale -/

/-- The integer for a decimal at a finer scale is the number in steps of this scale. -/
theorem cast_unscaledAt {scale : ℤ} (h : d.scale ≤ scale) :
    (d.unscaledAt scale : ℚ) = d.value * 10 ^ scale := by
  have hsteps : ((scale - d.scale).toNat : ℤ) = -d.scale + scale := by omega
  rw [unscaledAt, Int.cast_mul, cast_pow_ten, hsteps, zpow_add₀ (by norm_num), value, mul_assoc]

theorem compare_unscaledAt {scale : ℤ} (ha : a.scale ≤ scale) (hb : b.scale ≤ scale) :
    compare (a.unscaledAt scale) (b.unscaledAt scale) = compare a.value b.value := by
  have hsteps : StrictMono fun q : ℚ => q * 10 ^ scale :=
    strictMono_mul_right_of_pos (ten_zpow_pos scale)
  calc compare (a.unscaledAt scale) (b.unscaledAt scale)
      = compare (a.unscaledAt scale : ℚ) (b.unscaledAt scale : ℚ) := by
        rw [← cmp_eq_compare, ← cmp_eq_compare, (Int.cast_strictMono (R := ℚ)).cmp_map_eq]
    _ = compare (a.value * 10 ^ scale) (b.value * 10 ^ scale) := by
        rw [cast_unscaledAt ha, cast_unscaledAt hb]
    _ = compare a.value b.value := by
        rw [← cmp_eq_compare, ← cmp_eq_compare, hsteps.cmp_map_eq]

/-! ## The order -/

/-- Decimals compare as the numbers that they stand for. -/
theorem compareValue_eq (a b : Decimal) : a.compareValue b = compare a.value b.value := by
  unfold compareValue
  by_cases hsign : a.unscaled.sign = b.unscaled.sign
  · rw [if_neg (not_not.mpr hsign)]
    by_cases hzero : a.unscaled = 0
    · have hvalue : a.value = 0 := value_eq_zero_iff.mpr hzero
      have hvalue' : b.value = 0 :=
        value_eq_zero_iff.mpr ((unscaled_eq_zero_iff_of_sign_eq hsign).mp hzero)
      rw [if_pos (isZero_iff.mpr hvalue), hvalue, hvalue', compare_eq_iff_eq.mpr rfl]
    · rw [if_neg (isZero_iff.not.mpr (value_eq_zero_iff.not.mpr hzero))]
      by_cases hplace : a.leadingPlace = b.leadingPlace
      · rw [if_neg (not_not.mpr hplace)]
        exact compare_unscaledAt (le_max_left _ _) (le_max_right _ _)
      · rw [if_pos hplace]
        exact compare_of_leadingPlace_ne hsign hzero hplace
  · rw [if_pos hsign]
    exact compare_sign hsign

end TinyScript.Decimal
