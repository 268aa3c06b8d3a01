import TinyScript.Arithmetic

/-!
# Binary floating point numbers of 64 bits

The finite numbers of that format that are not negative, as a significand times a power of two,
with the rounding of a quotient to the nearest of them. A JSON number that is no small integer
denotes one of these.
-/

namespace TinyScript

/-- The number `significand * 2 ^ exponent`. -/
structure Binary64 where
  significand : Nat
  exponent : Int
deriving DecidableEq, Repr

namespace Binary64

/-- The least exponent of the format. -/
def leastExponent : Int := -1074

/-- The significands of 53 bits begin here. -/
def normalBound : Nat := 0x10000000000000

/-- The value as a quotient of natural numbers. -/
def quotient (f : Binary64) : Nat × Nat :=
  (f.significand * Nat.pow 2 f.exponent.toNat, Nat.pow 2 (-f.exponent).toNat)

/-- The exponent at which a positive quotient has 53 bits before the point, or the least one. -/
def exponentFor (numerator denominator : Nat) : Int :=
  -- The bit lengths determine the exponent up to one, and a comparison settles which it is.
  let guess : Int := (numerator.log2 : Int) - denominator.log2 - 52
  let fits := denominator * Nat.pow 2 (guess + 52).toNat ≤
    numerator * Nat.pow 2 (-(guess + 52)).toNat
  max leastExponent (if fits then guess else guess - 1)

/-- The number nearest to a quotient, the even one of two equally near; none beyond the range. -/
def round? (numerator denominator : Nat) : Option Binary64 :=
  if numerator = 0 then some ⟨0, 0⟩
  else
    let exponent := exponentFor numerator denominator
    let significand := Arithmetic.roundHalfEven (numerator * Nat.pow 2 (-exponent).toNat)
      (denominator * Nat.pow 2 exponent.toNat)
    if exponent + significand.natAbs.log2 < 1024 then some ⟨significand.natAbs, exponent⟩ else none

/-- The number nearest to a natural number. -/
def ofNat? (n : Nat) : Option Binary64 := round? n 1

/-- The rounded product. -/
def mul? (a b : Binary64) : Option Binary64 :=
  round? (a.quotient.1 * b.quotient.1) (a.quotient.2 * b.quotient.2)

/-- The rounded quotient. The divisor must not be zero. -/
def div? (a b : Binary64) : Option Binary64 :=
  round? (a.quotient.1 * b.quotient.2) (a.quotient.2 * b.quotient.1)

/-- Halves an even significand as long as the exponent is negative. -/
def reduce : Nat → Nat → Nat × Nat
  | 0, significand => (significand, 0)
  | places + 1, significand =>
    if significand % 2 = 0 then reduce places (significand / 2) else (significand, places + 1)

/-- The same number as a decimal. Numbers of the least exponent with fewer than 53 bits keep all
their places, all others only those they need. -/
def toDecimal (f : Binary64) : Decimal :=
  if f.significand = 0 then ⟨0, 0⟩
  else if f.significand < normalBound ∧ f.exponent = leastExponent then
    ⟨f.significand * Nat.pow 5 (-f.exponent).toNat, -f.exponent⟩
  else
    let (significand, places) := reduce (-f.exponent).toNat f.significand
    ⟨significand * Nat.pow 2 f.exponent.toNat * Nat.pow 5 places, places⟩

end Binary64

end TinyScript
