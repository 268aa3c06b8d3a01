import TinyScript.Proofs.Decimal.Rounding

/-!
# Powers are exact, and agree on integers

A power multiplies as many factors as its exponent says, so for an exponent that is not negative it
is the power of arithmetic: of an integer (`repeat_mul`), and of a decimal with the scales added up
(`repeat_scaledMul`). A negative exponent asks for a reciprocal, which integers round toward zero
and decimals to the nearest. The two roundings of a reciprocal of an integer are the same
(`roundHalfEven_one`): it is either an integer or no more than a half, and the even integer next to
a half is zero. So integers and decimals of scale zero have the same powers:
`powers_exact_and_agree`.
-/

namespace TinyScript

namespace Decimal

theorem value_one : one.value = 1 := by
  simp [value, one]

theorem value_pow (d : Decimal) (count : ℕ) :
    value ⟨d.unscaled ^ count, count * d.scale⟩ = d.value ^ count := by
  rw [value, value, mul_pow, Int.cast_pow, ← zpow_natCast (_ ^ _), ← zpow_mul]
  congr 2
  ring

end Decimal

namespace Arithmetic

/-! ## Repeated products -/

/-- Every factor raises the exponent by one. -/
theorem repeat_mul (base : ℤ) (count : ℕ) : Nat.repeat (· * base) count 1 = base ^ count := by
  induction count with
  | zero => exact (pow_zero base).symm
  | succ count ih =>
      show Nat.repeat (· * base) count 1 * base = _
      rw [ih, pow_succ]

/-- Every factor raises the exponent by one and adds its scale. -/
theorem repeat_scaledMul (base : Decimal) (count : ℕ) :
    Nat.repeat (Decimal.scaledMul · base) count Decimal.one =
      ⟨base.unscaled ^ count, count * base.scale⟩ := by
  induction count with
  | zero => simp [Nat.repeat, Decimal.one]
  | succ count ih =>
      show (Nat.repeat (Decimal.scaledMul · base) count Decimal.one).scaledMul base = _
      rw [ih, Decimal.scaledMul, pow_succ, Nat.cast_succ, add_one_mul]

/-! ## Quotients toward zero -/

/-- The integer next to a number on the side of zero. -/
def towardZero (q : ℚ) : ℤ := if 0 ≤ q then ⌊q⌋ else ⌈q⌉

theorem towardZero_neg (q : ℚ) : towardZero (-q) = -towardZero q := by
  unfold towardZero
  rcases lt_trichotomy q 0 with hneg | rfl | hpos
  · rw [if_pos (neg_nonneg.mpr hneg.le), if_neg (not_le.mpr hneg), Int.floor_neg]
  · simp
  · rw [if_neg (not_le.mpr (neg_neg_of_pos hpos)), if_pos hpos.le, Int.ceil_neg]

/-- Division of integers gives the exact quotient rounded toward zero. -/
theorem tdiv_eq_towardZero (a b : ℤ) : a.tdiv b = towardZero (a / b) := by
  have hnatural : ∀ m n : ℕ, (m : ℤ).tdiv n = towardZero (((m : ℤ) : ℚ) / ((n : ℤ) : ℚ)) := by
    intro m n
    rw [Int.cast_natCast, Int.cast_natCast, towardZero,
      if_pos (div_nonneg m.cast_nonneg n.cast_nonneg), Rat.floor_natCast_div_natCast]
    exact (Int.ofNat_tdiv m n).symm
  obtain ⟨m, rfl | rfl⟩ := a.eq_nat_or_neg <;> obtain ⟨n, rfl | rfl⟩ := b.eq_nat_or_neg
  · exact hnatural m n
  · rw [Int.tdiv_neg, hnatural, ← towardZero_neg, Int.cast_neg, div_neg]
  · rw [Int.neg_tdiv, hnatural, ← towardZero_neg, Int.cast_neg, neg_div]
  · rw [Int.neg_tdiv_neg, hnatural, Int.cast_neg, Int.cast_neg, neg_div_neg_eq]

/-- A reciprocal of an integer rounds to the nearest as it rounds toward zero. -/
theorem roundHalfEven_one {n : ℤ} (h : n ≠ 0) : roundHalfEven 1 n = Int.tdiv 1 n := by
  by_cases hunit : n.natAbs = 1
  · rcases Int.natAbs_eq n with hn | hn <;> rw [hn, hunit] <;> rfl
  · have hlarge : 1 < n.natAbs := by omega
    have hzero : Int.tdiv 1 n = 0 := by
      rw [← Int.natAbs_eq_zero, Int.natAbs_tdiv]
      exact Nat.div_eq_of_lt hlarge
    have hrest : Int.tmod 1 n = 1 := by
      have hwhole := Int.mul_tdiv_add_tmod 1 n
      rwa [hzero, mul_zero, zero_add] at hwhole
    -- The reciprocal is no more than a half, and a half goes to zero.
    have hnotabove : compare (2 * (1 : ℤ).natAbs) n.natAbs ≠ .gt := by
      rw [Ne, compare_gt_iff_gt]
      exact not_lt.mpr hlarge
    unfold roundHalfEven
    simp only [hzero, hrest]
    cases horder : compare (2 * (1 : ℤ).natAbs) n.natAbs with
    | lt => rfl
    | eq => rfl
    | gt => exact absurd horder hnotabove

/-! ## Powers with exponents in range -/

section Powers

variable {exponent : ℤ} (h : exponent.natAbs < 2 ^ 64)
include h

theorem exponentCount_eq : exponentCount exponent = .ok exponent.natAbs := if_pos h

theorem integerPower_of_nonneg (hexponent : 0 ≤ exponent) (base : ℤ)
    (negative : NegativeExponent) :
    integerPower base exponent negative = .ok (base ^ exponent.natAbs) := by
  unfold integerPower
  rw [if_neg fun hneg => not_le.mpr hneg.1 hexponent, exponentCount_eq h, ← repeat_mul]
  exact if_neg (not_lt.mpr hexponent)

theorem integerPower_of_neg (hexponent : exponent < 0) (base : ℤ) :
    integerPower base exponent .truncate = divideInteger 1 (base ^ exponent.natAbs) := by
  unfold integerPower
  rw [if_neg (by simp), exponentCount_eq h, ← repeat_mul]
  exact if_pos hexponent

theorem decimalPower_of_nonneg (hexponent : 0 ≤ exponent) (base : Decimal) :
    decimalPower base exponent =
      .ok ⟨base.unscaled ^ exponent.natAbs, exponent.natAbs * base.scale⟩ := by
  unfold decimalPower
  rw [exponentCount_eq h, ← repeat_scaledMul]
  exact if_neg (not_lt.mpr hexponent)

theorem decimalPower_of_neg (hexponent : exponent < 0) (base : Decimal) :
    decimalPower base exponent =
      if base.unscaled ^ exponent.natAbs = 0 then .error .divisionByZero
      else .ok (divideAtScale .one ⟨base.unscaled ^ exponent.natAbs, exponent.natAbs * base.scale⟩
        (exponent.natAbs * base.scale)) := by
  unfold decimalPower
  rw [exponentCount_eq h]
  refine (if_pos hexponent).trans ?_
  rw [repeat_scaledMul, Decimal.isZero]
  by_cases hzero : base.unscaled ^ exponent.natAbs = 0
  · rw [if_pos hzero, if_pos (decide_eq_true hzero)]
    rfl
  · rw [if_neg hzero, if_neg (by simpa using hzero)]
    rfl

/-- A reciprocal of an integer is nothing for zero, and is rounded toward zero otherwise. -/
theorem integerPower_truncates (hexponent : exponent < 0) (base : ℤ) :
    integerPower base exponent .truncate =
      if base = 0 then .error .divisionByZero
      else .ok (towardZero (1 / (base : ℚ) ^ exponent.natAbs)) := by
  have hpower : base ^ exponent.natAbs = 0 ↔ base = 0 :=
    pow_eq_zero_iff (Int.natAbs_ne_zero.mpr hexponent.ne)
  rw [integerPower_of_neg h hexponent, divideInteger, tdiv_eq_towardZero, Int.cast_one,
    Int.cast_pow]
  simp only [hpower]

/-- A reciprocal of a decimal is nothing for zero, and is rounded to the nearest at the scale of the
positive power otherwise. -/
theorem decimalPower_rounds (hexponent : exponent < 0) (base : Decimal) :
    (base.value = 0 → decimalPower base exponent = .error .divisionByZero) ∧
      (base.value ≠ 0 → ∃ power, decimalPower base exponent = .ok power ∧
        ∀ d, Decimal.RoundsAt (1 / base.value ^ exponent.natAbs) (exponent.natAbs * base.scale) d ↔
          d = power) := by
  have hpower : base.unscaled ^ exponent.natAbs = 0 ↔ base.value = 0 := by
    rw [pow_eq_zero_iff (Int.natAbs_ne_zero.mpr hexponent.ne), Decimal.value_eq_zero_iff]
  rw [decimalPower_of_neg h hexponent]
  constructor
  · intro hzero
    rw [if_pos (hpower.mpr hzero)]
  · intro hnonzero
    rw [if_neg (hpower.not.mpr hnonzero)]
    refine ⟨_, rfl, ?_⟩
    have hvalue := Decimal.value_pow base exponent.natAbs
    rw [← Decimal.value_one, ← hvalue]
    exact Decimal.roundsAt_iff_eq_divideAtScale .one
      (by rw [hvalue]; exact pow_ne_zero _ hnonzero) _

/-- Integers and decimals of scale zero have the same powers, and fail on the same. -/
theorem decimalPower_scaleZero (base : ℤ) :
    decimalPower ⟨base, 0⟩ exponent = (integerPower base exponent .truncate).map (⟨·, 0⟩) := by
  rcases lt_or_ge exponent 0 with hexponent | hexponent
  · rw [decimalPower_of_neg h hexponent, integerPower_of_neg h hexponent, divideInteger]
    by_cases hzero : base ^ exponent.natAbs = 0
    · rw [if_pos hzero, if_pos hzero]
      rfl
    · rw [if_neg hzero, if_neg hzero, Except.map, mul_zero]
      -- All scales are zero, so nothing is shifted.
      have hquotient : divideAtScale .one ⟨base ^ exponent.natAbs, 0⟩ 0 =
          ⟨roundHalfEven 1 (base ^ exponent.natAbs), 0⟩ := rfl
      rw [hquotient, roundHalfEven_one hzero]
  · rw [decimalPower_of_nonneg h hexponent, integerPower_of_nonneg h hexponent, mul_zero]
    rfl

end Powers

/-- Powers are exact for exponents that are not negative. A negative exponent on an integer is
refused or gives the reciprocal rounded toward zero; on a decimal it gives the reciprocal rounded to
the nearest at the scale of the positive power; zero has no reciprocal. On integers both ways
agree. -/
theorem powers_exact_and_agree {exponent : ℤ} (h : exponent.natAbs < 2 ^ 64) :
    (0 ≤ exponent →
      (∀ base negative, integerPower base exponent negative = .ok (base ^ exponent.natAbs)) ∧
      ∀ base : Decimal, decimalPower base exponent =
        .ok ⟨base.unscaled ^ exponent.natAbs, exponent * base.scale⟩) ∧
    (exponent < 0 →
      (∀ base, integerPower base exponent .reject = .error (.negativeExponent exponent)) ∧
      (∀ base : ℤ, integerPower base exponent .truncate =
        if base = 0 then .error .divisionByZero
        else .ok (towardZero (1 / (base : ℚ) ^ exponent.natAbs))) ∧
      ∀ base : Decimal,
        (base.value = 0 → decimalPower base exponent = .error .divisionByZero) ∧
        (base.value ≠ 0 → ∃ power, decimalPower base exponent = .ok power ∧
          ∀ d, Decimal.RoundsAt (1 / base.value ^ exponent.natAbs)
            (exponent.natAbs * base.scale) d ↔ d = power)) ∧
    ∀ base : ℤ, decimalPower ⟨base, 0⟩ exponent =
      (integerPower base exponent .truncate).map (⟨·, 0⟩) := by
  refine ⟨fun hexponent => ⟨?_, ?_⟩, fun hexponent => ⟨?_, ?_, ?_⟩, decimalPower_scaleZero h⟩
  · exact integerPower_of_nonneg h hexponent
  · intro base
    rw [decimalPower_of_nonneg h hexponent, Int.natAbs_of_nonneg hexponent]
  · exact fun base => if_pos ⟨hexponent, rfl⟩
  · exact integerPower_truncates h hexponent
  · exact decimalPower_rounds h hexponent

/-- A half is as near to zero as to one, and goes to zero both ways; the reciprocal of `0.5` is two,
at the scale of `0.5`. -/
theorem powers_exact_and_agree_halves :
    (-1 : ℤ).natAbs < 2 ^ 64 ∧ integerPower 2 (-1) .truncate = .ok 0 ∧
      decimalPower ⟨2, 0⟩ (-1) = .ok ⟨0, 0⟩ ∧ decimalPower ⟨5, 1⟩ (-1) = .ok ⟨20, 1⟩ ∧
      ∀ d, Decimal.RoundsAt (1 / Decimal.value ⟨5, 1⟩ ^ 1) 1 d ↔ d = ⟨20, 1⟩ := by
  have hrange : (-1 : ℤ).natAbs < 2 ^ 64 := by decide
  obtain ⟨-, hnegative, hagree⟩ := powers_exact_and_agree hrange
  have hinteger : integerPower 2 (-1) .truncate = .ok 0 := rfl
  have hdecimal : decimalPower ⟨5, 1⟩ (-1) = .ok ⟨20, 1⟩ := rfl
  have hvalue : Decimal.value ⟨5, 1⟩ ≠ 0 := Decimal.value_eq_zero_iff.not.mpr (by decide)
  obtain ⟨power, hpower, hrounds⟩ := ((hnegative (by decide)).2.2 ⟨5, 1⟩).2 hvalue
  obtain rfl := Except.ok.inj (hdecimal.symm.trans hpower)
  refine ⟨hrange, hinteger, ?_, hdecimal, hrounds⟩
  rw [hagree, hinteger]
  rfl

end Arithmetic

end TinyScript
