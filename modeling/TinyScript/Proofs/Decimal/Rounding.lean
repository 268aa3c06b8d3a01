import Mathlib.Data.Rat.Floor
import Mathlib.Tactic.FieldSimp
import Mathlib.Tactic.Linarith
import Mathlib.Tactic.Ring
import TinyScript.Arithmetic
import TinyScript.Proofs.Decimal.Displayed

/-!
# Quotients are rounded to the nearest, ties to even

An integer quotient rounded toward zero leaves a share of one step, less than the whole step, to the
exact quotient (`quotient_eq_tdiv_add_share`). Comparing twice the remainder with the divisor is
comparing this share with a half, so `roundHalfEven` gives the nearest integer, and of two equally
near the even one (`roundsTo_roundHalfEven`). A quotient of decimals is the same question at another
scale (`roundsAt_divideAtScale`). A number rounds to one decimal of a scale only
(`RoundsAt.unique`), so division is correctly rounded: `divideDecimal_correctly_rounded`.
-/

namespace TinyScript

/-! ## Nearest integers -/

/-- An integer is nearest to a number, and even if another one is as near. -/
structure RoundsTo (q : ℚ) (n : ℤ) : Prop where
  nearest : ∀ k : ℤ, |(n : ℚ) - q| ≤ |(k : ℚ) - q|
  even : ∀ k : ℤ, k ≠ n → |(k : ℚ) - q| = |(n : ℚ) - q| → Even n

theorem one_le_abs_sub {k n : ℤ} (h : k ≠ n) : (1 : ℚ) ≤ |(k : ℚ) - n| := by
  have hpositive : 0 < |k - n| := abs_pos.mpr (sub_ne_zero.mpr h)
  exact_mod_cast hpositive

/-- Half a step is as far as the nearest integer can be, and there the even one is meant. -/
theorem RoundsTo.of_error {q : ℚ} {n : ℤ} (hnear : |(n : ℚ) - q| ≤ 1 / 2)
    (htie : |(n : ℚ) - q| = 1 / 2 → Even n) : RoundsTo q n := by
  have hother : ∀ k : ℤ, k ≠ n → 1 / 2 ≤ |(k : ℚ) - q| := by
    intro k hk
    have htriangle := abs_sub_le (k : ℚ) q n
    rw [abs_sub_comm q] at htriangle
    have hstep := one_le_abs_sub hk
    linarith
  refine ⟨fun k => ?_, fun k hk heq => htie ?_⟩
  · by_cases hk : k = n
    · rw [hk]
    · exact hnear.trans (hother k hk)
  · exact le_antisymm hnear (heq ▸ hother k hk)

theorem RoundsTo.unique {q : ℚ} {n k : ℤ} (hn : RoundsTo q n) (hk : RoundsTo q k) : n = k := by
  by_contra hne
  have heq : |(k : ℚ) - q| = |(n : ℚ) - q| := le_antisymm (hk.nearest n) (hn.nearest k)
  obtain ⟨i, hi⟩ := hn.even k (Ne.symm hne) heq
  obtain ⟨j, hj⟩ := hk.even n hne heq.symm
  -- Two even numbers leave room for an integer that is nearer than both.
  have hmiddle := hn.nearest (i + j)
  have hsum : ((i + j : ℤ) : ℚ) - q = (((n : ℚ) - q) + ((k : ℚ) - q)) / 2 := by
    rw [hi, hj]
    push_cast
    ring
  rw [hsum] at hmiddle
  have hnq : (n : ℚ) - q ≠ (k : ℚ) - q := fun h => hne (by exact_mod_cast sub_left_inj.mp h)
  rcases abs_eq_abs.mp heq with hsame | hopposite
  · exact hnq hsame.symm
  · rw [hopposite, add_neg_cancel, zero_div, abs_zero] at hmiddle
    have hzero : (n : ℚ) - q = 0 := abs_nonpos_iff.mp hmiddle
    exact hnq (by rw [hopposite, hzero, neg_zero])

namespace Arithmetic

/-! ## Integer quotients -/

/-- The share of a step that the quotient toward zero leaves to the exact quotient. -/
def share (numerator denominator : ℤ) : ℚ :=
  |(numerator.tmod denominator : ℚ)| / |(denominator : ℚ)|

section Quotients

variable {numerator denominator : ℤ}

theorem abs_stepAway (numerator denominator : ℤ) :
    |(stepAway numerator denominator : ℚ)| = 1 := by
  unfold stepAway
  split <;> simp

/-- A remainder of the division toward zero has the sign of the numerator. -/
theorem tmod_nonpos (denominator : ℤ) (h : numerator ≤ 0) : numerator.tmod denominator ≤ 0 := by
  have hopposite := Int.tmod_nonneg denominator (neg_nonneg.mpr h)
  rw [Int.neg_tmod] at hopposite
  exact neg_nonneg.mp hopposite

theorem tmod_div_eq_share (numerator denominator : ℤ) :
    (numerator.tmod denominator : ℚ) / denominator =
      stepAway numerator denominator * share numerator denominator := by
  have hnegative : numerator < 0 → |(numerator.tmod denominator : ℚ)| =
      -(numerator.tmod denominator : ℚ) := fun h =>
    abs_of_nonpos (by exact_mod_cast tmod_nonpos denominator h.le)
  have hpositive : ¬ numerator < 0 → |(numerator.tmod denominator : ℚ)| =
      (numerator.tmod denominator : ℚ) := fun h =>
    abs_of_nonneg (by exact_mod_cast Int.tmod_nonneg denominator (not_lt.mp h))
  have hbelow : denominator < 0 → |(denominator : ℚ)| = -(denominator : ℚ) := fun h =>
    abs_of_neg (by exact_mod_cast h)
  have habove : ¬ denominator < 0 → |(denominator : ℚ)| = (denominator : ℚ) := fun h =>
    abs_of_nonneg (by exact_mod_cast not_lt.mp h)
  unfold share
  by_cases hnumerator : numerator < 0 <;> by_cases hdenominator : denominator < 0
  · rw [hnegative hnumerator, hbelow hdenominator]
    simp [stepAway, hnumerator, hdenominator]
  · rw [hnegative hnumerator, habove hdenominator]
    simp [stepAway, hnumerator, hdenominator, neg_div]
  · rw [hpositive hnumerator, hbelow hdenominator]
    simp [stepAway, hnumerator, hdenominator, div_neg]
  · rw [hpositive hnumerator, habove hdenominator]
    simp [stepAway, hnumerator, hdenominator]

/-- The exact quotient lies a share of one step further from zero than the quotient toward zero. -/
theorem quotient_eq_tdiv_add_share (numerator : ℤ) (h : denominator ≠ 0) :
    (numerator : ℚ) / denominator = numerator.tdiv denominator +
      stepAway numerator denominator * share numerator denominator := by
  have hdenominator : (denominator : ℚ) ≠ 0 := Int.cast_ne_zero.mpr h
  have hwhole : (numerator : ℚ) =
      denominator * numerator.tdiv denominator + numerator.tmod denominator := by
    exact_mod_cast (Int.mul_tdiv_add_tmod numerator denominator).symm
  rw [← tmod_div_eq_share, eq_comm, ← mul_div_cancel_left₀ (numerator.tdiv denominator : ℚ)
    hdenominator, ← add_div, ← hwhole]

theorem share_nonneg (numerator denominator : ℤ) : 0 ≤ share numerator denominator :=
  div_nonneg (abs_nonneg _) (abs_nonneg _)

theorem share_eq_natAbs (numerator denominator : ℤ) : share numerator denominator =
    ((numerator.tmod denominator).natAbs : ℚ) / (denominator.natAbs : ℚ) := by
  rw [share, Nat.cast_natAbs, Nat.cast_natAbs, Int.cast_abs, Int.cast_abs]

/-- Twice the remainder compares with the divisor as the share with a half. -/
theorem compare_share (h : denominator ≠ 0) :
    compare (2 * (numerator.tmod denominator).natAbs) denominator.natAbs =
      compare (share numerator denominator) (1 / 2) := by
  have hdivisor : (0 : ℚ) < denominator.natAbs := by exact_mod_cast Int.natAbs_pos.mpr h
  have hless : share numerator denominator < 1 / 2 ↔
      2 * (numerator.tmod denominator).natAbs < denominator.natAbs := by
    rw [share_eq_natAbs, div_lt_div_iff₀ hdivisor two_pos, one_mul, mul_comm]
    exact_mod_cast Iff.rfl
  have hgreater : 1 / 2 < share numerator denominator ↔
      denominator.natAbs < 2 * (numerator.tmod denominator).natAbs := by
    rw [share_eq_natAbs, div_lt_div_iff₀ two_pos hdivisor, one_mul, mul_comm (_ : ℚ) 2]
    exact_mod_cast Iff.rfl
  rcases lt_trichotomy (share numerator denominator) (1 / 2) with hlt | heq | hgt
  · rw [compare_lt_iff_lt.mpr hlt, compare_lt_iff_lt.mpr (hless.mp hlt)]
  · rw [compare_eq_iff_eq.mpr heq, compare_eq_iff_eq]
    have hnotless := hless.not.mp heq.not_lt
    have hnotgreater := hgreater.not.mp heq.not_gt
    omega
  · rw [compare_gt_iff_gt.mpr hgt, compare_gt_iff_gt.mpr (hgreater.mp hgt)]

theorem abs_tdiv_sub_quotient (numerator : ℤ) (h : denominator ≠ 0) :
    |(numerator.tdiv denominator : ℚ) - numerator / denominator| =
      share numerator denominator := by
  rw [quotient_eq_tdiv_add_share numerator h, sub_add_cancel_left, abs_neg, abs_mul, abs_stepAway,
    one_mul, abs_of_nonneg (share_nonneg _ _)]

theorem share_lt_one (h : denominator ≠ 0) : share numerator denominator < 1 := by
  rw [share_eq_natAbs, div_lt_one (by exact_mod_cast Int.natAbs_pos.mpr h), Int.natAbs_tmod]
  exact_mod_cast Nat.mod_lt _ (Int.natAbs_pos.mpr h)

theorem abs_next_sub_quotient (numerator : ℤ) (h : denominator ≠ 0) :
    |((numerator.tdiv denominator + stepAway numerator denominator : ℤ) : ℚ) -
      numerator / denominator| = 1 - share numerator denominator := by
  have hrest : ((numerator.tdiv denominator + stepAway numerator denominator : ℤ) : ℚ) -
      numerator / denominator =
        stepAway numerator denominator * (1 - share numerator denominator) := by
    rw [quotient_eq_tdiv_add_share numerator h]
    push_cast
    ring
  rw [hrest, abs_mul, abs_stepAway, one_mul, abs_of_nonneg (sub_nonneg.mpr (share_lt_one h).le)]

theorem even_add_stepAway {quotient : ℤ} (h : quotient.tmod 2 ≠ 0) :
    Even (quotient + stepAway numerator denominator) := by
  have hodd : Odd quotient := Int.not_even_iff_odd.mp fun heven =>
    h (Int.dvd_iff_tmod_eq_zero.mp (even_iff_two_dvd.mp heven))
  have hstep : Odd (stepAway numerator denominator) := by
    unfold stepAway
    split <;> decide
  exact hodd.add_odd hstep

/-- An integer quotient is rounded to the nearest integer, and to the even one of two equally
near. -/
theorem roundsTo_roundHalfEven (numerator : ℤ) (h : denominator ≠ 0) :
    RoundsTo ((numerator : ℚ) / denominator) (roundHalfEven numerator denominator) := by
  have hquotient := abs_tdiv_sub_quotient numerator h
  have hnext := abs_next_sub_quotient numerator h
  unfold roundHalfEven
  simp only [compare_share h]
  split
  · next hexact =>
      have hzero : share numerator denominator = 0 := by simp [share, hexact]
      rw [hzero] at hquotient
      exact .of_error (by rw [hquotient]; norm_num) (by rw [hquotient]; norm_num)
  split
  · next hlt =>
      have hshort := compare_lt_iff_lt.mp hlt
      exact .of_error (hquotient ▸ hshort.le) fun htie => absurd (hquotient ▸ htie) hshort.ne
  · next hgt =>
      have hlong := compare_gt_iff_gt.mp hgt
      exact .of_error (by rw [hnext]; linarith) fun htie => by rw [hnext] at htie; linarith
  · next heq =>
      have hhalf := compare_eq_iff_eq.mp heq
      rw [hhalf] at hquotient hnext
      split
      · next heven =>
          exact .of_error hquotient.le fun _ =>
            even_iff_two_dvd.mpr (Int.dvd_iff_tmod_eq_zero.mpr heven)
      · next hodd =>
          exact .of_error (by rw [hnext]; norm_num) fun _ => even_add_stepAway hodd

end Quotients

end Arithmetic

/-! ## Decimals of one scale -/

namespace Decimal

/-- A decimal has the given scale and no decimal of this scale is nearer to a number. If another one
is as near, the decimal is the one with an even integer. -/
structure RoundsAt (q : ℚ) (places : ℤ) (d : Decimal) : Prop where
  scale_eq : d.scale = places
  nearest : ∀ other : Decimal, other.scale = places → |d.value - q| ≤ |other.value - q|
  even : ∀ other : Decimal, other.scale = places → other ≠ d →
    |other.value - q| = |d.value - q| → Even d.unscaled

theorem ten_zpow_pos (n : ℤ) : (0 : ℚ) < 10 ^ n := zpow_pos (by norm_num) n

theorem value_eq_zero_iff {d : Decimal} : d.value = 0 ↔ d.unscaled = 0 := by
  rw [value, mul_eq_zero, or_iff_left (ten_zpow_pos _).ne', Int.cast_eq_zero]

/-- The distance of a decimal from a number is that of its integer from the number in steps of the
scale. -/
theorem abs_value_sub (d : Decimal) (q : ℚ) :
    |d.value - q| = |(d.unscaled : ℚ) - q * 10 ^ d.scale| * 10 ^ (-d.scale) := by
  have hsteps : d.value - q = ((d.unscaled : ℚ) - q * 10 ^ d.scale) * 10 ^ (-d.scale) := by
    rw [sub_mul, mul_assoc, zpow_neg, mul_inv_cancel₀ (ten_zpow_pos _).ne', mul_one, value,
      zpow_neg]
  rw [hsteps, abs_mul, abs_of_pos (ten_zpow_pos _)]

theorem RoundsAt.of_roundsTo {q : ℚ} {n places : ℤ} (h : RoundsTo (q * 10 ^ places) n) :
    RoundsAt q places ⟨n, places⟩ := by
  refine ⟨rfl, ?_, ?_⟩
  · rintro ⟨k, _⟩ rfl
    rw [abs_value_sub, abs_value_sub]
    exact mul_le_mul_of_nonneg_right (h.nearest k) (ten_zpow_pos _).le
  · rintro ⟨k, _⟩ rfl hne heq
    rw [abs_value_sub, abs_value_sub] at heq
    refine h.even k (fun hk => hne (by rw [hk])) ?_
    exact mul_right_cancel₀ (ten_zpow_pos _).ne' heq

theorem RoundsAt.roundsTo {q : ℚ} {n scale places : ℤ} (h : RoundsAt q places ⟨n, scale⟩) :
    RoundsTo (q * 10 ^ places) n := by
  obtain rfl : scale = places := h.scale_eq
  refine ⟨fun k => ?_, fun k hne heq => ?_⟩
  · have hnearest := h.nearest ⟨k, scale⟩ rfl
    rw [abs_value_sub, abs_value_sub] at hnearest
    exact le_of_mul_le_mul_right hnearest (ten_zpow_pos _)
  · refine h.even ⟨k, scale⟩ rfl (fun hk => hne (congrArg unscaled hk)) ?_
    rw [abs_value_sub, abs_value_sub]
    exact congrArg (· * (10 : ℚ) ^ (-scale)) heq

/-- A number rounds to one decimal of a scale. -/
theorem RoundsAt.unique {q : ℚ} {places : ℤ} {d other : Decimal} (hd : RoundsAt q places d)
    (hother : RoundsAt q places other) : other = d := by
  obtain ⟨n, scale⟩ := d
  obtain ⟨k, scale'⟩ := other
  have hscale : scale' = scale := hother.scale_eq.trans hd.scale_eq.symm
  rw [hscale, hother.roundsTo.unique hd.roundsTo]

/-! ## Quotients of decimals -/

/-- A quotient of decimals in steps of a scale is the quotient of their integers, shifted by as many
places as the scales are apart. -/
theorem value_div_value (a b : Decimal) (places : ℤ) : a.value / b.value * 10 ^ places =
    (a.unscaled : ℚ) / b.unscaled * 10 ^ (places - a.scale + b.scale) := by
  have hten : (10 : ℚ) ≠ 0 := by norm_num
  have hshift : places - a.scale + b.scale = -a.scale - -b.scale + places := by ring
  rw [value, value, mul_div_mul_comm, ← zpow_sub₀ hten, mul_assoc, ← zpow_add₀ hten, hshift]

theorem cast_pow_ten (n : ℕ) : ((Int.pow 10 n : ℤ) : ℚ) = 10 ^ (n : ℤ) := by
  show (((10 : ℤ) ^ n : ℤ) : ℚ) = _
  rw [Int.cast_pow, zpow_natCast, Int.cast_ofNat]

/-- Division at a scale gives the decimal of this scale that is nearest to the exact quotient. -/
theorem roundsAt_divideAtScale (a : Decimal) {b : Decimal} (h : b.unscaled ≠ 0) (places : ℤ) :
    RoundsAt (a.value / b.value) places (Arithmetic.divideAtScale a b places) := by
  unfold Arithmetic.divideAtScale
  simp only
  split
  · next hshift =>
      -- The shift goes to the numerator.
      have hplaces : ((places - a.scale + b.scale).natAbs : ℤ) = places - a.scale + b.scale :=
        Int.natAbs_of_nonneg hshift
      have hexact := Arithmetic.roundsTo_roundHalfEven
        (a.unscaled * Int.pow 10 (places - a.scale + b.scale).natAbs) h
      rw [Int.cast_mul, cast_pow_ten, hplaces, mul_div_right_comm, ← value_div_value] at hexact
      exact .of_roundsTo hexact
  · next hshift =>
      -- The shift goes to the denominator.
      have hplaces : ((places - a.scale + b.scale).natAbs : ℤ) = -(places - a.scale + b.scale) :=
        Int.ofNat_natAbs_of_nonpos (by omega)
      have hdivisor : b.unscaled * Int.pow 10 (places - a.scale + b.scale).natAbs ≠ 0 :=
        mul_ne_zero h (pow_ne_zero _ (by decide : (10 : ℤ) ≠ 0))
      have hexact := Arithmetic.roundsTo_roundHalfEven a.unscaled hdivisor
      rw [Int.cast_mul, cast_pow_ten, hplaces, zpow_neg, ← div_div, div_inv_eq_mul,
        ← value_div_value] at hexact
      exact .of_roundsTo hexact

theorem isZero_iff {d : Decimal} : d.isZero = true ↔ d.value = 0 := by
  rw [value_eq_zero_iff, isZero, decide_eq_true_eq]

theorem roundsAt_iff_eq_divideAtScale (a : Decimal) {b : Decimal} (h : b.value ≠ 0) (places : ℤ)
    (d : Decimal) :
    RoundsAt (a.value / b.value) places d ↔ d = Arithmetic.divideAtScale a b places := by
  have hrounded := roundsAt_divideAtScale a (value_eq_zero_iff.not.mp h) places
  exact ⟨hrounded.unique, fun heq => heq ▸ hrounded⟩

/-- Division of decimals fails for a zero divisor and for no other. It gives the one decimal with
the scale of the dividend that is nearest to the exact quotient and, of two equally near, has the
even integer; division at any other scale does the same there. -/
theorem divideDecimal_correctly_rounded (a b : Decimal) :
    ((∃ reason, Arithmetic.divideDecimal a b = .error reason) ↔ b.value = 0) ∧
      (b.value ≠ 0 →
        (∃ quotient, Arithmetic.divideDecimal a b = .ok quotient ∧
          ∀ d, RoundsAt (a.value / b.value) a.scale d ↔ d = quotient) ∧
        ∀ places d, RoundsAt (a.value / b.value) places d ↔
          d = Arithmetic.divideAtScale a b places) := by
  unfold Arithmetic.divideDecimal
  by_cases hzero : b.value = 0
  · rw [if_pos (isZero_iff.mpr hzero)]
    exact ⟨⟨fun _ => hzero, fun _ => ⟨_, rfl⟩⟩, fun h => absurd hzero h⟩
  · rw [if_neg (isZero_iff.not.mpr hzero)]
    refine ⟨⟨nofun, fun h => absurd h hzero⟩, fun h => ⟨⟨_, rfl, ?_⟩, ?_⟩⟩
    · exact roundsAt_iff_eq_divideAtScale a h a.scale
    · exact roundsAt_iff_eq_divideAtScale a h

/-- A tenth of `-3.5` lies between `-0.4` and `-0.3`, as near to the one as to the other. -/
theorem divideDecimal_correctly_rounded_tie :
    value ⟨1, -1⟩ ≠ 0 ∧ Arithmetic.divideDecimal ⟨-35, 1⟩ ⟨1, -1⟩ = .ok ⟨-4, 1⟩ ∧
      ∀ d, RoundsAt (value ⟨-35, 1⟩ / value ⟨1, -1⟩) 1 d ↔ d = ⟨-4, 1⟩ := by
  have hdivisor : value ⟨1, -1⟩ ≠ 0 := value_eq_zero_iff.not.mpr (by decide)
  have hquotient : Arithmetic.divideAtScale ⟨-35, 1⟩ ⟨1, -1⟩ 1 = ⟨-4, 1⟩ := by decide
  obtain ⟨-, hrounded⟩ := divideDecimal_correctly_rounded ⟨-35, 1⟩ ⟨1, -1⟩
  exact ⟨hdivisor, rfl, hquotient ▸ (hrounded hdivisor).2 1⟩

end Decimal

end TinyScript
