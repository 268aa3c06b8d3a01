import TinyScript.Decimal.Basic
import TinyScript.Text.Numeral

/-!
# Decimals in text

Reading takes an optional exponent off a numeral with at most one point. There are two ways to
write: `plain` spells every digit out and keeps the scale, which is how programs print, and
`text` turns to an exponent when the point is far from the digits, which is how trees and
messages show a literal.
-/

namespace TinyScript.Decimal

open Text

/-! ## Reading -/

/-- The exponents that are read at all. -/
def isWritableExponent (exponent : Int) : Bool :=
  -0x80000000000000000000000000000000 ≤ exponent && exponent < 0x80000000000000000000000000000000

/-- Reads an exponent: an optional sign and digits. -/
def readExponent? (text : List Char) : Option Int :=
  (readSigned? readDigits? text).filter isWritableExponent

/-- Reads the part before the exponent: a numeral with at most one point, which does not count as
a character of the numeral. -/
def readBase? (text : List Char) : Option Decimal :=
  let whole := text.takeWhile (· ≠ '.')
  match text.dropWhile (· ≠ '.') with
  | [] => (readInteger? whole).map (⟨·, 0⟩)
  | _ :: fraction =>
    (readInteger? (whole ++ fraction)).map (⟨·, (fraction.filter (· ≠ '_')).length⟩)

/-- Whether a character introduces the exponent. -/
def isExponentMark (c : Char) : Bool := c = 'e' || c = 'E'

/-- Reads a decimal. -/
def read? (text : List Char) : Option Decimal := do
  let base ← readBase? (text.takeWhile (!isExponentMark ·))
  let exponent ←
    match text.dropWhile (!isExponentMark ·) with
    | [] => some 0
    | _ :: exponent => readExponent? exponent
  let scale := base.scale - exponent
  if isWritableScale scale then return ⟨base.unscaled, scale⟩ else none

/-! ## Writing -/

/-- A sign for negative numbers. -/
def signText (n : Int) : List Char := if n < 0 then ['-'] else []

/-- The digits of a number, filled up with zeros in front to a given length. -/
def paddedDigits (length n : Nat) : List Char :=
  List.replicate (length - (digits n).length) '0' ++ digits n

/-- Digits with a point before the last `places` of them, and one digit at least before it. -/
def pointed (places n : Nat) : List Char :=
  let padded := paddedDigits (places + 1) n
  let whole := padded.length - places
  padded.take whole ++ '.' :: padded.drop whole

/-- Plain notation: all digits, and as many of them behind the point as the scale says. -/
def plainChars (d : Decimal) : List Char :=
  if d.scale ≤ 0 then
    if d.unscaled = 0 then ['0']
    else integerDigits d.unscaled ++ List.replicate d.scale.natAbs '0'
  else signText d.unscaled ++ pointed d.scale.natAbs d.unscaled.natAbs

/-- Plain notation. -/
def plain (d : Decimal) : String := String.ofList d.plainChars

/-- From how many zeros between the point and the digits on an exponent is written. -/
def leadingZeroLimit : Int := 5

/-- Up to how many places left of the digits zeros are spelled out. -/
def trailingZeroLimit : Int := 15

/-- Digits with a point behind the first of them, if there are more. -/
def scientificDigits : List Char → List Char
  | [] => []
  | [first] => [first]
  | first :: rest => first :: '.' :: rest

/-- The notation of trees and messages. A zero is written without its scale, a small number with
an exponent of its leading digit, and a large one with an exponent of its last digit. -/
def textChars (d : Decimal) : List Char :=
  let d := if d.unscaled = 0 then ⟨0, 0⟩ else d
  let ds := digits d.unscaled.natAbs
  if leadingZeroLimit < d.scale - ds.length then
    signText d.unscaled ++ scientificDigits ds ++ 'E' :: integerDigits (ds.length - d.scale - 1)
  else if trailingZeroLimit < -d.scale then
    signText d.unscaled ++ ds ++ 'e' :: '+' :: digits d.scale.natAbs
  else d.plainChars

/-- The notation of trees and messages. -/
def text (d : Decimal) : String := String.ofList d.textChars

end TinyScript.Decimal
