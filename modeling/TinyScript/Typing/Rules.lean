import TinyScript.Tree
import TinyScript.Typing.Error

/-!
# Typing rules

Which types may stand in the place of which, and what type an operator has on operands of given
types.
-/

namespace TinyScript.Typing

/-- Whether a value of type `source` may stand where `target` is wanted. -/
def isAssignable (target source : Ty) : Bool :=
  target = source || target = .any || target = .comparable && source.isComparable

/-- Demands that `source` may stand where `target` is wanted. -/
def requireAssignable (target source : Ty) : Except TypeError Unit :=
  if isAssignable target source then .ok () else .error (.mismatch target source)

/-- Demands one particular type. -/
def requireExact (expected received : Ty) : Except TypeError Unit :=
  if expected = received then .ok () else .error (.mismatch expected received)

/-- Demands a type with arithmetic. -/
def requireNumeric (ty : Ty) : Except TypeError Unit :=
  if ty.isNumeric then .ok () else .error (.mismatch .integer ty)

/-- The type of arithmetic on two operands of one numeric type. -/
def arithmeticType (left right : Ty) : Except TypeError Ty := do
  requireNumeric left
  requireExact left right
  return left

/-- The type of an operator on operands of the given types. -/
def operatorType (operator : Operator) (left right : Ty) : Except TypeError Ty :=
  match operator with
  | .and | .or => do
    requireExact .boolean left
    requireExact .boolean right
    return .boolean
  | .less | .greater | .equal | .notEqual => do
    requireAssignable .comparable left
    requireAssignable .comparable right
    return .boolean
  | .add =>
    if left = .string ∨ right = .string then .ok .string else arithmeticType left right
  | .subtract | .multiply | .divide => arithmeticType left right
  | .power => do
    requireNumeric left
    requireExact .integer right
    return left

theorem isAssignable_refl (ty : Ty) : isAssignable ty ty := by
  simp [isAssignable]

theorem isAssignable_any (ty : Ty) : isAssignable .any ty := by
  simp [isAssignable]

end TinyScript.Typing
