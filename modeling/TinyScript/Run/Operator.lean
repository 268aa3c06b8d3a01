import TinyScript.Run.Error
import TinyScript.Run.Value

/-!
# What operators compute

Every operator but the logical ones works on two values. Comparisons need values of one kind that
has an order; `+` joins texts as soon as one operand is a string; the rest is arithmetic on two
integers or two decimals, where only an exponent is always an integer.

Results are exact. Whether a scale leaves 64 bits before there is a result is told by `overflows`.
-/

namespace TinyScript

/-! ## Demands on values -/

/-- The truth value that a value has to be. -/
def Value.truth : Value → Except RuntimeError Bool
  | .boolean value => .ok value
  | other => .error (.notBoolean other.kind)

/-- The order that two values have to have. -/
def Value.order (a b : Value) : Except RuntimeError Ordering :=
  match a.order? b with
  | some order => .ok order
  | none => .error (.incomparable a.kind b.kind)

/-- The slot of a list that a value has to denote. -/
def Value.slot (name : String) (length : Nat) : Value → Except RuntimeError Nat
  | .integer index =>
    if 0 ≤ index ∧ index < length then .ok index.toNat
    else .error (.indexOutOfRange index name length)
  | other => .error (.indexNotInteger other.kind)

/-- The list that the value of a variable has to be. -/
def Value.listOf (name : String) : Value → Except RuntimeError ListId
  | .list id => .ok id
  | other => .error (.notIndexable name other.kind)

theorem Value.listOf_eq_ok {name : String} {value : Value} {id : ListId} :
    value.listOf name = .ok id ↔ value = .list id := by
  cases value <;> simp [Value.listOf]

/-! ## Operators -/

namespace Operator

/-- Whether an operator looks at its right operand only if the left one leaves the result open. -/
def isLogical : Operator → Bool
  | and | or => true
  | _ => false

/-- Whether the left operand of a logical operator is the result already. -/
def isDecidedBy : Operator → Bool → Bool
  | and, left => !left
  | _, left => left

/-- Whether a comparison holds of values in a given order. -/
def holds : Operator → Ordering → Bool
  | less, order => order == .lt
  | greater, order => order == .gt
  | equal, order => order == .eq
  | _, order => order != .eq

/-- The verb for what an operator does. -/
def verb : Operator → String
  | add => "add"
  | subtract => "subtract"
  | multiply => "multiply"
  | divide => "divide"
  | _ => "raise"

/-- Arithmetic on two integers. -/
def applyIntegers (negative : NegativeExponent) :
    Operator → Int → Int → Except ArithmeticError Int
  | add, a, b => .ok (a + b)
  | subtract, a, b => .ok (a - b)
  | multiply, a, b => .ok (a * b)
  | divide, a, b => Arithmetic.divideInteger a b
  | _, a, b => Arithmetic.integerPower a b negative

/-- Arithmetic on two decimals, if the operator has any. -/
def applyDecimals : Operator → Decimal → Decimal → Option (Except ArithmeticError Decimal)
  | add, a, b => some (.ok (a.add b))
  | subtract, a, b => some (.ok (a.sub b))
  | multiply, a, b => some (.ok (a.mul b))
  | divide, a, b => some (Arithmetic.divideDecimal a b)
  | _, _, _ => none

/-- Arithmetic on two values. -/
def applyNumbers (negative : NegativeExponent) (operator : Operator) :
    Value → Value → Except RuntimeError Value
  | .integer a, .integer b =>
    ((applyIntegers negative operator a b).map .integer).mapError .arithmetic
  | .decimal a, .decimal b =>
    match operator.applyDecimals a b with
    | some result => (result.map .decimal).mapError .arithmetic
    | none => .error (.noResult operator.verb .decimal .decimal)
  | .decimal a, .integer n =>
    if operator = power then ((Arithmetic.decimalPower a n).map .decimal).mapError .arithmetic
    else .error (.noResult operator.verb .decimal .integer)
  | a, b => .error (.noResult operator.verb a.kind b.kind)

/-- Whether a value is a string. -/
def isString : Value → Bool
  | .string _ => true
  | _ => false

/-- The result of an operator, other than a logical one, on two values. -/
def apply (negative : NegativeExponent) (text : Value → String) (operator : Operator)
    (a b : Value) : Except RuntimeError Value :=
  match operator with
  | less | greater | equal | notEqual =>
    (a.order b).map fun order => .boolean (operator.holds order)
  | add =>
    -- One string is enough: the other operand is joined as the text it prints as.
    if isString a || isString b then .ok (.string (text a ++ text b))
    else applyNumbers negative add a b
  | _ => applyNumbers negative operator a b

/-- Whether a scale leaves 64 bits when an operator is applied to two values. -/
def overflows : Operator → Value → Value → Bool
  | multiply, .decimal a, .decimal b => a.mulOverflows b
  | divide, .decimal a, .decimal b =>
    !b.isZero && Arithmetic.divisionOverflows a.scale b.scale a.scale
  | power, .decimal a, .integer n => Arithmetic.powerOverflows a n
  | _, _, _ => false

end Operator

end TinyScript
