import TinyScript.Decimal.Basic

/-!
# Which decimals a program may write

A decimal literal has to lie in the range of binary floating point numbers of 64 bits: its value,
rounded to such a number, must not be an infinity. The scale has to fit 32 bits. Very long numbers
lose digits in groups before either is looked at, and each group lowers the scale.
-/

namespace TinyScript.Decimal

/-- The least magnitude that rounds to an infinity. -/
def overflowBound : Nat := Nat.pow 2 1024 - Nat.pow 2 970

/-- An estimate from below of how many decimal digits a number of so many bits has. -/
def estimatedDigits (bits : Nat) : Nat := bits * 301029995663981195 / 1000000000000000000

/-- How many digits are kept when groups of digits are cut off. -/
def keptDigits : Nat := 25

/-- How many digits go with each group that is cut off. -/
def groupDigits : Nat := 19

/-- The number of bits of a natural number. -/
def bitCount (n : Nat) : Nat := if n = 0 then 0 else n.log2 + 1

/-- The scale after the groups of excess digits are cut off. -/
def trimmedScale (d : Decimal) : Int :=
  let groups := (estimatedDigits (bitCount d.unscaled.natAbs) - keptDigits) / groupDigits
  d.scale - groupDigits * groups

/-- The scales that fit 32 bits with either sign. -/
def isSmallScale (scale : Int) : Bool := -0x80000000 < scale && scale < 0x80000000

/-- Whether the magnitude of a decimal other than zero is below `overflowBound`. The leading place
decides, unless it is the one where the bound itself begins. -/
def isBelowOverflow (d : Decimal) : Bool :=
  let boundPlace : Int := digitCount overflowBound
  if d.leadingPlace < boundPlace then true
  else if boundPlace < d.leadingPlace then false
  else
    let magnitude : Decimal := ⟨d.unscaled.natAbs, d.scale⟩
    magnitude.compareValue ⟨overflowBound, 0⟩ == .lt

/-- Whether a decimal may stand in a program as a literal. -/
def isInRange (d : Decimal) : Bool :=
  d.isZero || (d.scale = 0 || isSmallScale d.trimmedScale) && d.isBelowOverflow

end TinyScript.Decimal
