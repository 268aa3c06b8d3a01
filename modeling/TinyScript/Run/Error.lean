import TinyScript.Arithmetic
import TinyScript.Ty

/-!
# Why a run ends early

A run stops at the first failure. Every cause names what it is about; kinds of values are spoken
of by the names of their types.
-/

namespace TinyScript

/-- A failure of a run. -/
inductive RuntimeError where
  | undeclared (name : String)
  | undefinedFunction (name : String) (arity : Nat)
  | functionRedefined (name : String) (arity : Nat)
  | variableRedefined (name : String)
  | immutableReceiver (name : String)
  | receiverWithoutName
  | notIndexable (name : String) (kind : Ty)
  | indexNotInteger (kind : Ty)
  | indexOutOfRange (index : Int) (name : String) (length : Nat)
  | notBoolean (kind : Ty)
  | incomparable (left right : Ty)
  /-- An operator, spoken of by the verb for what it does, has no result on such operands. -/
  | noResult (verb : String) (left right : Ty)
  | arithmetic (error : ArithmeticError)
  | callTooDeep (limit : Nat) (name : String)
  | printRefused
  | mainNotInteger (kind : Ty)
  /-- A failure that a host reports in its own words. -/
  | host (text : String)
deriving DecidableEq, Repr

namespace RuntimeError

/-- The wording of a failure. -/
def message : RuntimeError → String
  | undeclared name => s!"undeclared identifier '{name}'"
  | undefinedFunction name arity => s!"undefined function {name}/{arity}"
  | functionRedefined name arity => s!"function {name}/{arity} is already defined"
  | variableRedefined name => s!"variable '{name}' is already defined in this scope"
  | immutableReceiver name => s!"cannot assign to immutable variable '{name}'"
  | receiverWithoutName => "assignment receiver must be a variable access"
  | notIndexable name kind => s!"cannot index '{name}' holding {kind.name}"
  | indexNotInteger kind => s!"index must be an Integer, received {kind.name}"
  | indexOutOfRange index name length =>
    s!"index {index} out of range for '{name}' of length {length}"
  | notBoolean kind => s!"expected Boolean, received {kind.name}"
  | incomparable left right => s!"cannot compare {left.name} with {right.name}"
  | noResult verb left right => s!"cannot {verb} {left.name} and {right.name}"
  | arithmetic error => error.message
  | callTooDeep limit name => s!"maximum call depth of {limit} exceeded calling {name}"
  | printRefused => "print failed: sink full"
  | mainNotInteger kind => s!"main must return an Integer, received {kind.name}"
  | host text => text

end RuntimeError

end TinyScript
