import TinyScript.Proofs.Decimal.Displayed
import TinyScript.Proofs.Powers
import TinyScript.Proofs.Sequencing

/-!
# Which operators leave the range of scales

Scales are integers, and literals have scales of 64 bits with a sign. Sums have the scale of one of
their operands, and so have differences; a quotient has the scale of the dividend, and on the way to
it the divisor's scale is met again. So only products and powers leave the range: products where
both scales are added, and powers, whose reciprocals need twice the scale. `FactorsFit` says when
they do not. If the scales of the operands are in the range, this is when all scales that the
operator computes are (`keepsScale_iff_factorsFit`), and when a run goes on behind the operator
(`overflows_eq_false_iff`).
-/

namespace TinyScript

open Decimal Arithmetic

/-! ## Scales of results -/

namespace Decimal

theorem scale_sub (a b : Decimal) : (a.sub b).scale = a.scale ∨ (a.sub b).scale = b.scale := by
  unfold sub
  split
  · exact .inl rfl
  · split
    · exact .inr rfl
    · exact max_choice a.scale b.scale

theorem scale_mul {a b : Decimal} (ha : a.isPlainOne = false) (hb : b.isPlainOne = false) :
    (a.mul b).scale = a.scale + b.scale := by
  simp [mul, ha, hb, scaledMul]

/-- The range is one around zero. -/
theorem isWritableScale_of_fewer {count more : ℕ} {scale : Int} (hcount : count ≤ more)
    (h : isWritableScale (more * scale) = true) : isWritableScale (count * scale) = true := by
  rw [isWritableScale_iff] at h ⊢
  have hcount : (count : Int) ≤ more := Int.ofNat_le.mpr hcount
  rcases le_total 0 scale with hscale | hscale
  · have hupper := Int.mul_le_mul_of_nonneg_right hcount hscale
    have hlower := Int.mul_nonneg count.cast_nonneg hscale
    omega
  · have hlower := Int.mul_le_mul_of_nonpos_right hcount hscale
    have hupper := Int.mul_nonpos_of_nonneg_of_nonpos count.cast_nonneg hscale
    omega

end Decimal

/-- A power with factors is zero exactly if the base is. -/
theorem Arithmetic.isZero_repeat_scaledMul (base : Decimal) {count : ℕ} (hcount : count ≠ 0) :
    (Nat.repeat (Decimal.scaledMul · base) count .one).isZero = base.isZero := by
  simp [repeat_scaledMul, Decimal.isZero, pow_eq_zero_iff hcount]

/-! ## What operators compute for scales -/

/-- A value whose scale, if it is a decimal, is in the range. -/
def Value.HasScale : Value → Prop
  | .decimal d => isWritableScale d.scale = true
  | _ => True

namespace Operator

/-- An operator divides one decimal by another one at a scale. -/
inductive Divides : Operator → Value → Value → Decimal → Decimal → Int → Prop
  | quotient {a b} :
      b.isZero = false → Divides divide (.decimal a) (.decimal b) a b a.scale
  | reciprocal {a n count power'} :
      n < 0 → exponentCount n = .ok count → power' = Nat.repeat (·.scaledMul a) count .one →
      power'.isZero = false → Divides power (.decimal a) (.integer n) .one power' power'.scale

/-- An operator that is applied to two values computes a scale: that of the result, that of a
product on the way to a power, or, from the left to the right, the places by which a division is
shifted. -/
inductive ComputesScale (negative : NegativeExponent) (text : Value → String) :
    Operator → Value → Value → Int → Prop
  | result {operator a b d} :
      operator.apply negative text a b = .ok (.decimal d) →
      ComputesScale negative text operator a b d.scale
  | factors {a n count front} :
      exponentCount n = .ok count → front ≤ count →
      ComputesScale negative text power (.decimal a) (.integer n)
        (Nat.repeat (Decimal.scaledMul · a) front .one).scale
  | difference {operator a b x y scale} :
      Divides operator a b x y scale →
      ComputesScale negative text operator a b (scale - x.scale)
  | shift {operator a b x y scale} :
      Divides operator a b x y scale →
      ComputesScale negative text operator a b (scale - x.scale + y.scale)

/-- All scales that an operator computes are in the range. -/
def KeepsScale (negative : NegativeExponent) (text : Value → String) (operator : Operator)
    (a b : Value) : Prop :=
  ∀ scale, operator.ComputesScale negative text a b scale → isWritableScale scale = true

/-- The scales of a product or a power are in the range: the sum of both scales, unless a factor is
a plain one, and the scale of all factors of a power together, twice if it is to be inverted. -/
def FactorsFit : Operator → Value → Value → Prop
  | multiply, .decimal a, .decimal b =>
    a.isPlainOne = false → b.isPlainOne = false → isWritableScale (a.scale + b.scale) = true
  | power, .decimal a, .integer n =>
    n.natAbs < exponentBound →
      isWritableScale (n.natAbs * a.scale) = true ∧
        (n < 0 → a.isZero = false → isWritableScale (2 * (n.natAbs * a.scale)) = true)
  | _, _, _ => True

/-- The ways in which an operator has a decimal as its result. -/
inductive Gives : Operator → Value → Value → Decimal → Prop
  | sum {a b} : Gives add (.decimal a) (.decimal b) (a.add b)
  | difference {a b} : Gives subtract (.decimal a) (.decimal b) (a.sub b)
  | product {a b} : Gives multiply (.decimal a) (.decimal b) (a.mul b)
  | power {a n count} :
      0 ≤ n → exponentCount n = .ok count →
      Gives power (.decimal a) (.integer n) (Nat.repeat (Decimal.scaledMul · a) count .one)
  | quotient {operator a b x y scale} :
      Divides operator a b x y scale → Gives operator a b (divideAtScale x y scale)

variable {negative : NegativeExponent} {text : Value → String} {operator : Operator} {a b : Value}

/-! ## Results -/

theorem exponentCount_eq_ok {n : Int} {count : ℕ} :
    exponentCount n = .ok count ↔ n.natAbs < exponentBound ∧ n.natAbs = count := by
  unfold exponentCount
  split <;> simp_all

theorem gives_of_applyDecimals {x y d : Decimal}
    (h : operator.applyDecimals x y = some (.ok d)) :
    operator.Gives (.decimal x) (.decimal y) d := by
  cases operator with
  | add => cases h; exact .sum
  | subtract => cases h; exact .difference
  | multiply => cases h; exact .product
  | divide =>
      have hdivide : divideDecimal x y = .ok d := Option.some.inj h
      cases hzero : y.isZero with
      | true => simp [divideDecimal, hzero] at hdivide
      | false =>
          simp only [divideDecimal, hzero, Bool.false_eq_true, if_false] at hdivide
          cases hdivide
          exact .quotient (.quotient hzero)
  | _ => cases h

theorem gives_of_decimalPower {x d : Decimal} {n : Int} (h : decimalPower x n = .ok d) :
    power.Gives (.decimal x) (.integer n) d := by
  obtain ⟨count, hcount, h⟩ := Except.bind_eq_ok.mp h
  by_cases hneg : n < 0
  · simp only [if_pos hneg] at h
    cases hzero : (Nat.repeat (Decimal.scaledMul · x) count .one).isZero with
    | true =>
        simp only [hzero, if_true] at h
        cases h
    | false =>
        simp only [hzero, Bool.false_eq_true, if_false] at h
        cases h
        exact .quotient (.reciprocal hneg hcount rfl hzero)
  · simp only [if_neg hneg] at h
    cases h
    exact .power (not_lt.mp hneg) hcount

theorem gives_of_applyNumbers {d : Decimal}
    (h : operator.applyNumbers negative a b = .ok (.decimal d)) : operator.Gives a b d := by
  unfold applyNumbers at h
  split at h
  · obtain ⟨_, -, heq⟩ := Except.map_eq_ok.mp (Except.mapError_eq_ok.mp h)
    cases heq
  · split at h
    · next hresult =>
        obtain ⟨_, rfl, heq⟩ := Except.map_eq_ok.mp (Except.mapError_eq_ok.mp h)
        cases heq
        exact gives_of_applyDecimals hresult
    · cases h
  · split at h
    · next hpower =>
        subst hpower
        obtain ⟨_, hresult, heq⟩ := Except.map_eq_ok.mp (Except.mapError_eq_ok.mp h)
        cases heq
        exact gives_of_decimalPower hresult
    · cases h
  · cases h

theorem gives_of_apply {d : Decimal} (h : operator.apply negative text a b = .ok (.decimal d)) :
    operator.Gives a b d := by
  cases operator with
  | less | greater | equal | notEqual =>
      obtain ⟨_, -, heq⟩ := Except.map_eq_ok.mp h
      cases heq
  | add =>
      simp only [Operator.apply] at h
      split at h
      · cases h
      · exact gives_of_applyNumbers h
  | _ => exact gives_of_applyNumbers h

theorem decimalPower_of_gives {x d : Decimal} {n : Int}
    (h : power.Gives (.decimal x) (.integer n) d) : decimalPower x n = .ok d := by
  cases h with
  | power hnonneg hcount =>
      rw [decimalPower, hcount]
      exact if_neg (not_lt.mpr hnonneg)
  | quotient hdivides =>
      cases hdivides with
      | reciprocal hneg hcount hpower hzero =>
          rw [decimalPower, hcount]
          refine (if_pos hneg).trans ?_
          rw [← hpower, hzero]
          rfl

/-- The results that are decimals. -/
theorem apply_eq_decimal {d : Decimal} :
    operator.apply negative text a b = .ok (.decimal d) ↔ operator.Gives a b d := by
  refine ⟨gives_of_apply, fun h => ?_⟩
  have hgives := h
  cases h with
  | sum | difference | product => rfl
  | power _ _ =>
      have hpower := decimalPower_of_gives hgives
      simp [Operator.apply, applyNumbers, hpower, Except.map, Except.mapError]
  | quotient hdivides =>
      cases hdivides with
      | quotient hzero =>
          simp [Operator.apply, applyNumbers, applyDecimals, divideDecimal, hzero, Except.map,
            Except.mapError]
      | reciprocal _ _ _ _ =>
          have hpower := decimalPower_of_gives hgives
          simp [Operator.apply, applyNumbers, hpower, Except.map, Except.mapError]

/-! ## The range -/

/-- The divisor of a reciprocal has the scale of the quotient, so it is met twice on the way. -/
theorem Divides.scales {x y : Decimal} {scale : Int} (h : operator.Divides a b x y scale)
    (ha : a.HasScale) (hb : b.HasScale) (hfit : operator.FactorsFit a b) :
    isWritableScale scale = true ∧ isWritableScale (scale - x.scale) = true ∧
      isWritableScale (scale - x.scale + y.scale) = true := by
  cases h with
  | quotient _ =>
      rw [Int.sub_self, Int.zero_add]
      exact ⟨ha, rfl, hb⟩
  | @reciprocal a n count _ hneg hcount hpower hzero =>
      obtain ⟨hbound, rfl⟩ := exponentCount_eq_ok.mp hcount
      subst hpower
      rw [isZero_repeat_scaledMul a (Int.natAbs_ne_zero.mpr hneg.ne)] at hzero
      rw [repeat_scaledMul]
      obtain ⟨hpower, htwice⟩ := hfit hbound
      have htwice := htwice hneg hzero
      rw [two_mul] at htwice
      exact ⟨hpower, by simpa [Decimal.one] using hpower, by simpa [Decimal.one] using htwice⟩

theorem Gives.isWritableScale {d : Decimal} (h : operator.Gives a b d) (ha : a.HasScale)
    (hb : b.HasScale) (hfit : operator.FactorsFit a b) : isWritableScale d.scale = true := by
  cases h with
  | @sum x y =>
      rcases max_choice x.scale y.scale with hmax | hmax
      · rw [Decimal.add, hmax]
        exact ha
      · rw [Decimal.add, hmax]
        exact hb
  | @difference x y =>
      rcases scale_sub x y with hscale | hscale
      · rw [hscale]
        exact ha
      · rw [hscale]
        exact hb
  | @product x y =>
      cases hx : x.isPlainOne with
      | true =>
          rw [Decimal.mul, if_pos hx]
          exact hb
      | false =>
          cases hy : y.isPlainOne with
          | true =>
              rw [Decimal.mul, hx, if_neg Bool.false_ne_true, if_pos hy]
              exact ha
          | false =>
              rw [scale_mul hx hy]
              exact hfit hx hy
  | power _ hcount =>
      obtain ⟨hbound, rfl⟩ := exponentCount_eq_ok.mp hcount
      rw [repeat_scaledMul]
      exact (hfit hbound).1
  | quotient hdivides =>
      rw [scale_divideAtScale]
      exact (hdivides.scales ha hb hfit).1

theorem keepsScale_of_factorsFit (ha : a.HasScale) (hb : b.HasScale)
    (hfit : operator.FactorsFit a b) : operator.KeepsScale negative text a b := by
  intro scale h
  cases h with
  | result hresult => exact (apply_eq_decimal.mp hresult).isWritableScale ha hb hfit
  | factors hcount hfront =>
      obtain ⟨hbound, rfl⟩ := exponentCount_eq_ok.mp hcount
      rw [repeat_scaledMul]
      exact isWritableScale_of_fewer hfront (hfit hbound).1
  | difference hdivides => exact (hdivides.scales ha hb hfit).2.1
  | shift hdivides => exact (hdivides.scales ha hb hfit).2.2

theorem factorsFit_of_keepsScale (h : operator.KeepsScale negative text a b) :
    operator.FactorsFit a b := by
  unfold FactorsFit
  split
  · next x y =>
      intro hx hy
      rw [← scale_mul hx hy]
      exact h _ (.result rfl)
  · next x n =>
      intro hbound
      have hcount : exponentCount n = .ok n.natAbs := exponentCount_eq_ok.mpr ⟨hbound, rfl⟩
      have hpower := repeat_scaledMul x n.natAbs
      refine ⟨?_, fun hneg hzero => ?_⟩
      · have hfactors := h _ (.factors hcount (Nat.le_refl _))
        rwa [hpower] at hfactors
      · have hnonzero := isZero_repeat_scaledMul x (Int.natAbs_ne_zero.mpr hneg.ne)
        rw [hzero] at hnonzero
        have hshift := h _ (.shift (.reciprocal hneg hcount rfl hnonzero))
        rw [hpower] at hshift
        rw [two_mul]
        simpa [Decimal.one] using hshift
  · trivial

/-- An operator on operands in the range stays there exactly if its products and powers do. -/
theorem keepsScale_iff_factorsFit (ha : a.HasScale) (hb : b.HasScale) :
    operator.KeepsScale negative text a b ↔ operator.FactorsFit a b :=
  ⟨factorsFit_of_keepsScale, keepsScale_of_factorsFit ha hb⟩

end Operator

/-! ## Overflow -/

/-- Behind some factors of a power the others can be multiplied as long as the scale of all of them
together is in the range. -/
theorem Arithmetic.factorsOverflow_eq_false_iff {scale : Int} :
    ∀ (count : ℕ) {front : ℕ} {start : Int}, start = front * scale →
      isWritableScale start = true →
        (factorsOverflow scale count start = false ↔
          isWritableScale ((front + count : ℕ) * scale) = true) := by
  intro count
  induction count with
  | zero =>
      rintro front _ rfl hstart
      exact iff_of_true rfl hstart
  | succ count ih =>
      rintro front _ rfl hstart
      have hnext : front * scale + scale = (front + 1 : ℕ) * scale := by
        rw [Nat.cast_succ, Int.add_mul, Int.one_mul]
      have hall : front + (count + 1) = front + 1 + count := by omega
      rw [factorsOverflow, hnext, hall]
      cases hfits : isWritableScale ((front + 1 : ℕ) * scale) with
      | true => simpa using ih rfl hfits
      | false =>
          -- The range is left already, and more factors do not lead back.
          have hmore : ¬ isWritableScale ((front + 1 + count : ℕ) * scale) = true := fun h => by
            rw [isWritableScale_of_fewer (Nat.le_add_right _ _) h] at hfits
            cases hfits
          simpa using hmore

namespace Operator

variable {operator : Operator} {a b : Value}

theorem powerOverflows_eq_false_iff {base : Decimal} {n : Int} :
    powerOverflows base n = false ↔ power.FactorsFit (.decimal base) (.integer n) := by
  unfold powerOverflows FactorsFit
  by_cases hbound : n.natAbs < exponentBound
  · have hcount : exponentCount n = .ok n.natAbs := exponentCount_eq_ok.mpr ⟨hbound, rfl⟩
    have hfactors : factorsOverflow base.scale n.natAbs Decimal.one.scale = false ↔
        isWritableScale (n.natAbs * base.scale) = true := by
      have hall := factorsOverflow_eq_false_iff n.natAbs (Int.zero_mul base.scale).symm rfl
      rwa [Nat.zero_add] at hall
    have hreciprocal (scale : Int) (hscale : isWritableScale scale = true) :
        divisionOverflows Decimal.one.scale scale scale = !isWritableScale (2 * scale) := by
      simp [divisionOverflows, Decimal.one, hscale, two_mul]
    rw [hcount]
    simp only [hbound, forall_const, Bool.or_eq_false_iff, hfactors]
    refine and_congr_right fun hpower => ?_
    rw [hreciprocal _ hpower]
    simp
  · have hcount : exponentCount n = .error (.exponentTooLarge n) := if_neg hbound
    simp [hcount, hbound]

/-- An operator overflows unless the scales of a product or a power are in the range, as those of
the operands are. -/
theorem overflows_eq_false_iff (ha : a.HasScale) (hb : b.HasScale) :
    operator.overflows a b = false ↔ operator.FactorsFit a b := by
  unfold overflows
  split
  · next x y => simp [mulOverflows, FactorsFit]
  · next x y =>
      have hscale : isWritableScale y.scale = true := hb
      simp [divisionOverflows_self, hscale, FactorsFit]
  · exact powerOverflows_eq_false_iff
  · next hproduct _ hpower =>
      refine iff_of_true rfl ?_
      unfold FactorsFit
      split
      · exact absurd rfl (hproduct _ _ rfl rfl)
      · exact absurd rfl (hpower _ _ rfl rfl)
      · trivial

end Operator

end TinyScript
