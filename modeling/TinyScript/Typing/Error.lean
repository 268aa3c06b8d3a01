import TinyScript.Decimal.Text
import TinyScript.Ty

/-!
# Why a program is not accepted

The checker stops at the first fault. A mismatch names the type that was wanted and the one that
was met; every other cause names what it is about.
-/

namespace TinyScript

/-- A fault that the checker finds. -/
inductive TypeError where
  | mismatch (expected received : Ty)
  | unknownType (name : String)
  | groupWithoutOperator
  | undeclared (name : String)
  | notIndexable (name : String) (ty : Ty)
  | undefinedFunction (name : String) (arity : Nat)
  | functionRedefined (name : String) (arity : Nat)
  | functionNotRegistered (name : String) (arity : Nat)
  | variableRedefined (name : String)
  | globalWithoutType (name : String)
  | declarationWithoutType (name : String)
  | expressionWithoutCall
  | receiverWithoutName
  | switchWithoutCases
  | defaultWithValue
  | switchWithoutDefault
  | resultOutsideFunction
  | integerOutOfRange (value : Int)
  | decimalOutOfRange (value : Decimal)
  | missingMain
deriving DecidableEq, Repr

namespace TypeError

/-- The wording of a fault. -/
def message : TypeError → String
  | mismatch expected received => s!"expected type {expected.name}, received {received.name}"
  | unknownType name => s!"unknown type '{name}'"
  | groupWithoutOperator => "only binary expressions may be parenthesized"
  | undeclared name => s!"undeclared identifier '{name}'"
  | notIndexable name ty => s!"cannot index '{name}' of type {ty.name}"
  | undefinedFunction name arity => s!"undefined function {name}/{arity}"
  | functionRedefined name arity => s!"function {name}/{arity} is already defined"
  | functionNotRegistered name arity => s!"function {name}/{arity} has not been registered"
  | variableRedefined name => s!"variable '{name}' is already defined in this scope"
  | globalWithoutType name => s!"global '{name}' needs a type or an initial value"
  | declarationWithoutType name => s!"declaration of '{name}' needs a type or an initial value"
  | expressionWithoutCall => "expression statement must be a function call"
  | receiverWithoutName => "assignment receiver must be a variable access"
  | switchWithoutCases => "switch requires a default case"
  | defaultWithValue => "default case must not have a value"
  | switchWithoutDefault => "switch is missing its default case"
  | resultOutsideFunction => "return outside of a function"
  | integerOutOfRange value => s!"integer literal {value} does not fit in 32 bits"
  | decimalOutOfRange value => s!"decimal literal {value.text} is out of range"
  | missingMain => "missing entry point main/0"

/-- The type that was wanted. -/
def expected : TypeError → Option Ty
  | mismatch expected _ => some expected
  | _ => none

/-- The type that was met. -/
def received : TypeError → Option Ty
  | mismatch _ received => some received
  | _ => none

end TypeError

end TinyScript
