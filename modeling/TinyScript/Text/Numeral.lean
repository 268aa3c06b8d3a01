/-!
# Whole numbers in text

A numeral is an optional sign and a nonempty run of digits, in which low lines may stand anywhere
but in front. `readInteger?` takes the value of such a text; `digits` and `integerDigits` write a
number in the plain form, without low lines.
-/

namespace TinyScript.Text

/-! ## Writing -/

/-- The decimal digits of a natural number. -/
def digits (n : Nat) : List Char := Nat.toDigits 10 n

/-- The digits of an integer behind its sign, which only negative numbers have. -/
def integerDigits (n : Int) : List Char :=
  if n < 0 then '-' :: digits n.natAbs else digits n.natAbs

/-! ## Reading -/

/-- Whether a character may stand in a numeral. -/
def isNumeralChar (c : Char) : Bool := c.isDigit || c == '_'

/-- The number that a run of digits and low lines denotes. -/
def valueOf (text : List Char) : Nat :=
  text.foldl (fun n c => if c = '_' then n else 10 * n + (c.toNat - '0'.toNat)) 0

/-- Reads digits and low lines that do not start with a low line. -/
def readNatural? (text : List Char) : Option Nat :=
  match text with
  | [] => none
  | '_' :: _ => none
  | _ => if text.all isNumeralChar then some (valueOf text) else none

/-- Reads an optional sign and what it stands before. -/
def readSigned? (natural? : List Char → Option Nat) : List Char → Option Int
  | '-' :: rest => (natural? rest).map fun n : Nat => -(n : Int)
  | '+' :: rest => (natural? rest).map fun n : Nat => (n : Int)
  | text => (natural? text).map fun n : Nat => (n : Int)

/-- Reads an integer. -/
def readInteger? (text : List Char) : Option Int := readSigned? readNatural? text

/-- Reads digits alone, without low lines. -/
def readDigits? (text : List Char) : Option Nat :=
  match text with
  | [] => none
  | _ => if text.all Char.isDigit then some (valueOf text) else none

end TinyScript.Text
