import TinyScript.Decimal.Basic

/-!
# Division and powers

Sums and products always exist; division and powers may fail. Integers divide toward zero.
Decimals divide at the scale of the dividend, rounded to the nearest and, between two equally
near, to the even one. A decimal to a negative power is the reciprocal at the scale of the
positive power; whether an integer has negative powers is for the caller to say.

Beside each way to compute a decimal stands whether a scale leaves 64 bits on that way.
-/

namespace TinyScript

/-- Why there is no result. -/
inductive ArithmeticError where
  | divisionByZero
  | negativeExponent (exponent : Int)
  | exponentTooLarge (exponent : Int)
deriving DecidableEq, Repr

/-- The wording of an arithmetic failure. -/
def ArithmeticError.message : ArithmeticError → String
  | divisionByZero => "division by zero"
  | negativeExponent exponent => s!"negative exponent {exponent} on an Integer"
  | exponentTooLarge exponent => s!"exponent {exponent} is too large"

/-- What a negative exponent on an integer means: nothing, or the reciprocal rounded toward
zero. -/
inductive NegativeExponent where
  | reject
  | truncate
deriving DecidableEq, Repr, Inhabited

namespace Arithmetic

/-! ## Division -/

/-- The step from a quotient rounded toward zero to the next integer further from zero. -/
def stepAway (numerator denominator : Int) : Int :=
  if (numerator < 0) ≠ (denominator < 0) then -1 else 1

/-- The integer nearest to a quotient, the even one of two equally near. It is the quotient toward
zero or one step further from zero. -/
def roundHalfEven (numerator denominator : Int) : Int :=
  let quotient := numerator.tdiv denominator
  let remainder := numerator.tmod denominator
  if remainder = 0 then quotient
  else
    match compare (2 * remainder.natAbs) denominator.natAbs with
    | .lt => quotient
    | .gt => quotient + stepAway numerator denominator
    | .eq =>
      if quotient.tmod 2 = 0 then quotient else quotient + stepAway numerator denominator

/-- The quotient of two integers, rounded toward zero. -/
def divideInteger (a b : Int) : Except ArithmeticError Int :=
  if b = 0 then .error .divisionByZero else .ok (a.tdiv b)

/-- The quotient of two decimals at a given scale. The divisor must not be zero. -/
def divideAtScale (a b : Decimal) (scale : Int) : Decimal :=
  let shift := scale - a.scale + b.scale
  if 0 ≤ shift then ⟨roundHalfEven (a.unscaled * Int.pow 10 shift.natAbs) b.unscaled, scale⟩
  else ⟨roundHalfEven a.unscaled (b.unscaled * Int.pow 10 shift.natAbs), scale⟩

@[simp] theorem scale_divideAtScale (a b : Decimal) (scale : Int) :
    (divideAtScale a b scale).scale = scale := by
  simp only [divideAtScale]
  split <;> rfl

/-- Whether a scale leaves 64 bits on the way to a quotient of two decimals at a given scale: the
places by which the integers are shifted are computed from the left to the right. -/
def divisionOverflows (dividendScale divisorScale scale : Int) : Bool :=
  !Decimal.isWritableScale (scale - dividendScale) ||
    !Decimal.isWritableScale (scale - dividendScale + divisorScale)

/-- At the scale of the dividend it is the scale of the divisor that is met on the way. -/
theorem divisionOverflows_self (scale divisorScale : Int) :
    divisionOverflows scale divisorScale scale = !Decimal.isWritableScale divisorScale := by
  simp only [divisionOverflows, Int.sub_self, Int.zero_add]
  rfl

/-- The quotient of two decimals at the scale of the dividend. -/
def divideDecimal (a b : Decimal) : Except ArithmeticError Decimal :=
  if b.isZero then .error .divisionByZero else .ok (divideAtScale a b a.scale)

/-! ## Powers -/

/-- The exponents' magnitudes stay below this, so that they fit 64 bits. -/
def exponentBound : Nat := 0x10000000000000000

/-- The number of factors that an exponent asks for. -/
def exponentCount (exponent : Int) : Except ArithmeticError Nat :=
  if exponent.natAbs < exponentBound then .ok exponent.natAbs
  else .error (.exponentTooLarge exponent)

/-- A power of an integer: the product of as many factors as the exponent says. -/
def integerPower (base exponent : Int) (negative : NegativeExponent) :
    Except ArithmeticError Int := do
  if exponent < 0 ∧ negative = .reject then throw (.negativeExponent exponent)
  let power := Nat.repeat (· * base) (← exponentCount exponent) 1
  if exponent < 0 then divideInteger 1 power else return power

/-- A power of a decimal. Its factors are not looked at one by one, so the scales add even where a
factor is one. -/
def decimalPower (base : Decimal) (exponent : Int) : Except ArithmeticError Decimal := do
  let power := Nat.repeat (·.scaledMul base) (← exponentCount exponent) .one
  if exponent < 0 then
    if power.isZero then throw .divisionByZero
    return divideAtScale .one power power.scale
  return power

/-- Whether a scale leaves 64 bits while so many factors of one scale are multiplied to a product
that has a scale already. -/
def factorsOverflow (factorScale : Int) : Nat → Int → Bool
  | 0, _ => false
  | count + 1, scale =>
    !Decimal.isWritableScale (scale + factorScale) ||
      factorsOverflow factorScale count (scale + factorScale)

/-- Whether a scale leaves 64 bits on the way to a power of a decimal: at one of its factors, or
when the reciprocal is taken. -/
def powerOverflows (base : Decimal) (exponent : Int) : Bool :=
  match exponentCount exponent with
  | .error _ => false
  | .ok count =>
    let scale := count * base.scale
    factorsOverflow base.scale count Decimal.one.scale ||
      (exponent < 0 && !base.isZero && divisionOverflows Decimal.one.scale scale scale)

end Arithmetic

end TinyScript
