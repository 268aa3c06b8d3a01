/-!
# Exact scaled decimals

A decimal is an integer and a scale: it stands for the integer divided by ten to the scale. The
scale is part of the decimal, so `1.5` and `1.50` are different decimals of the same value. Sums
keep the finer scale and products add the scales; a plain `1` as a factor leaves the other factor
as it is. Order looks at the values alone.

All of this is exact, at scales of any size. Programs only have scales of 64 bits, so whether a
product has one is a question of its own.
-/

namespace TinyScript

/-- The number `unscaled / 10 ^ scale`. -/
structure Decimal where
  unscaled : Int
  scale : Int
deriving DecidableEq, Repr, Inhabited

namespace Decimal

/-- The decimal `1` of scale zero. -/
def one : Decimal := ⟨1, 0⟩

/-- Whether the value is zero, at any scale. -/
def isZero (d : Decimal) : Bool := d.unscaled = 0

/-- The scales that can be written in a program and computed by one: those of 64 bits with a
sign. -/
def isWritableScale (scale : Int) : Bool :=
  -0x8000000000000000 ≤ scale && scale < 0x8000000000000000

/-! ## Sums -/

/-- The integer that stands for the same value at a scale not coarser than the decimal's own. -/
def unscaledAt (d : Decimal) (scale : Int) : Int := d.unscaled * Int.pow 10 (scale - d.scale).toNat

/-- The sum, at the finer scale. -/
def add (a b : Decimal) : Decimal :=
  let scale := max a.scale b.scale
  ⟨a.unscaledAt scale + b.unscaledAt scale, scale⟩

/-- The opposite, at the same scale. -/
def neg (d : Decimal) : Decimal := ⟨-d.unscaled, d.scale⟩

/-- The difference, at the finer scale. Taking zero away changes nothing, and what is taken away
from zero keeps its own scale. -/
def sub (a b : Decimal) : Decimal :=
  if b.isZero then a
  else if a.isZero then b.neg
  else
    let scale := max a.scale b.scale
    ⟨a.unscaledAt scale - b.unscaledAt scale, scale⟩

/-! ## Products -/

/-- The product whose scale is the sum of the scales. -/
def scaledMul (a b : Decimal) : Decimal := ⟨a.unscaled * b.unscaled, a.scale + b.scale⟩

/-- The largest scale at which a factor of value one is recognised. -/
def oneScaleLimit : Int := 38

/-- Whether a decimal is a one at a scale up to `oneScaleLimit`, such as `1` or `1.00`. -/
def isPlainOne (d : Decimal) : Bool :=
  0 ≤ d.scale && d.scale ≤ oneScaleLimit && d.unscaled == Int.pow 10 d.scale.toNat

/-- The product. A plain one leaves the other factor unchanged. -/
def mul (a b : Decimal) : Decimal :=
  if a.isPlainOne then b
  else if b.isPlainOne then a
  else a.scaledMul b

/-- Whether the scale of the product leaves 64 bits. The scales are not added if a factor is a plain
one. -/
def mulOverflows (a b : Decimal) : Bool :=
  !a.isPlainOne && !b.isPlainOne && !isWritableScale (a.scale + b.scale)

/-! ## Order -/

/-- The number of decimal digits of a natural number. -/
def digitCount (n : Nat) : Nat := (Nat.toDigits 10 n).length

/-- How many places the leading digit stands before the point. -/
def leadingPlace (d : Decimal) : Int := digitCount d.unscaled.natAbs - d.scale

/-- The order of the values. Signs and leading places decide before any digits are written out,
so scales far apart cost nothing. -/
def compareValue (a b : Decimal) : Ordering :=
  if a.unscaled.sign ≠ b.unscaled.sign then compare a.unscaled.sign b.unscaled.sign
  else if a.isZero then .eq
  else if a.leadingPlace ≠ b.leadingPlace then
    if a.unscaled < 0 then compare b.leadingPlace a.leadingPlace
    else compare a.leadingPlace b.leadingPlace
  else
    let scale := max a.scale b.scale
    compare (a.unscaledAt scale) (b.unscaledAt scale)

end Decimal

end TinyScript
