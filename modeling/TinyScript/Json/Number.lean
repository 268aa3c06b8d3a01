import TinyScript.Json.Basic
import TinyScript.Json.Binary64
import TinyScript.Text.Numeral

/-!
# What JSON numbers denote

A number without point and exponent that fits 64 bits denotes that integer. Every other number
denotes a binary floating point number, found in a few rounded steps: the leading digits are
gathered as long as they fit 64 bits, later digits only move the point, and the power of ten is
multiplied or divided in afterwards.
-/

namespace TinyScript.Json

/-! ## Integers -/

/-- Integers below this fit 64 bits. -/
def wordBound : Nat := 0x10000000000000000

/-- Negative integers of up to this magnitude fit 64 bits. -/
def negativeWordLimit : Nat := 0x8000000000000000

/-- Whether a written number has neither point nor exponent. -/
def isWhole (text : List Char) : Bool := text.all fun c => c = '-' || c.isDigit

/-- The integer that a written number denotes. A negative zero and whatever does not fit 64 bits
denote no integer. -/
def wholeValue? (text : List Char) : Option Int :=
  if isWhole text then
    match text with
    | '-' :: digits =>
      let n := Text.valueOf digits
      if 0 < n ∧ n ≤ negativeWordLimit then some (-n) else none
    | digits =>
      let n := Text.valueOf digits
      if n < wordBound then some n else none
  else none

/-- The integer that a number denotes. -/
def int? : Json → Option Int
  | number text => wholeValue? text.toList
  | _ => none

/-- The natural number below a bound that a number denotes. -/
def nat? (bound : Nat) (json : Json) : Option Nat :=
  match json.int? with
  | some n => if 0 ≤ n ∧ n < bound then some n.toNat else none
  | none => none

/-! ## Floating point numbers -/

/-- Appends digits to a number as long as it fits 64 bits, and answers the digits left over. -/
def gather (n : Nat) : List Char → Nat × List Char
  | [] => (n, [])
  | c :: digits =>
    let next := 10 * n + (c.toNat - '0'.toNat)
    if next < wordBound then gather next digits else (n, c :: digits)

/-- The largest power of ten that one step multiplies or divides in. -/
def stepLimit : Nat := 308

/-- The power of ten that a step multiplies or divides in, rounded. -/
def powerOfTen? (n : Nat) : Option Binary64 := Binary64.ofNat? (Nat.pow 10 n)

/-- Scales a number by a power of ten. A number too large fails, one too small becomes zero. -/
def scaleByTen? (f : Binary64) (exponent : Int) : Option Binary64 :=
  if f.significand = 0 then some f
  else if 0 ≤ exponent then
    if exponent ≤ stepLimit then do f.mul? (← powerOfTen? exponent.toNat) else none
  else if -stepLimit ≤ exponent then do f.div? (← powerOfTen? (-exponent).toNat)
  else if -(2 * stepLimit) ≤ exponent then do
    let smaller ← f.div? (← powerOfTen? stepLimit)
    smaller.div? (← powerOfTen? (-exponent - stepLimit).toNat)
  else some ⟨0, 0⟩

/-- The largest written exponent that is looked at as a number. -/
def exponentLimit : Nat := 0x7fffffff

/-- The floating point number that a written number denotes, and whether it is negative. -/
def floatValue? (text : List Char) : Option (Bool × Binary64) := do
  let isNegative := text.head? = some '-'
  let unsigned := if isNegative then text.drop 1 else text
  let mantissa := unsigned.takeWhile fun c => c ≠ 'e' ∧ c ≠ 'E'
  let exponent := (unsigned.dropWhile fun c => c ≠ 'e' ∧ c ≠ 'E').drop 1
  -- A digit that no longer fits shifts the point if it stands before it, and is lost behind it.
  let (leading, dropped) := gather 0 (mantissa.takeWhile (· ≠ '.'))
  let fraction := (mantissa.dropWhile (· ≠ '.')).drop 1
  let (digits, ignored) := gather leading fraction
  let shift : Int := dropped.length - (fraction.length - ignored.length : Nat)
  let written := Text.valueOf (exponent.filter Char.isDigit)
  let exponentIsNegative := exponent.head? = some '-'
  let rounded ← Binary64.ofNat? digits
  let value ←
    if exponentLimit < written then
      if digits ≠ 0 ∧ !exponentIsNegative then none else some ⟨0, 0⟩
    else scaleByTen? rounded (if exponentIsNegative then shift - written else shift + written)
  return (isNegative, value)

/-- The decimal that a number denotes: an integer exactly, any other number as the floating point
number it denotes. -/
def decimalOfNumber? (text : List Char) : Option Decimal :=
  match wholeValue? text with
  | some n => some ⟨n, 0⟩
  | none => (floatValue? text).map fun (isNegative, value) =>
    if isNegative then value.toDecimal.neg else value.toDecimal

end TinyScript.Json
