import TinyScript.Run.Machine
import TinyScript.Run.Operator

/-!
# Evaluation

Expressions and statements are evaluated by recursion on their structure; what a call does is
given from outside (`Calls`), and so is the number of rounds that a loop may have. Calls recurse
on the room that is left under the limit on nested calls, so the only thing that can keep a run
from ending is a loop.

Annotations are never looked at.
-/

namespace TinyScript

/-- What a host can adjust. -/
structure RunSettings where
  /-- How many calls of functions of the program may be under way at once. -/
  maxCallDepth : Nat
  negativeExponent : NegativeExponent
deriving DecidableEq, Repr

instance : Inhabited RunSettings := ⟨⟨10000, .reject⟩⟩

/-- How a statement ends: execution goes on behind it, or the function returns a value. -/
inductive Flow where
  | completed
  | returned (value : Value)
deriving DecidableEq, Repr

/-- What calling a function of a given name with given arguments does. -/
abbrev Calls := String → List Value → Run Value

namespace Run

/-! ## Expressions -/

/-- The result of an operator on two values, unless a scale leaves 64 bits on the way to it. -/
def operate (settings : RunSettings) (operator : Operator) (a b : Value) : Run Value :=
  fun machine =>
    if operator.overflows a b then .error .scaleOverflow machine
    else ofExcept (operator.apply settings.negativeExponent machine.lists.text a b) machine

/-- An element of a list. -/
def elementOf (name : String) (id : ListId) (position : Value) : Run Value := do
  let items ← itemsOf id
  let slot ← ofExcept (position.slot name items.size)
  return items.getD slot .nil

mutual

/-- The value of an expression. -/
def evaluate (settings : RunSettings) (calls : Calls) : Expression → Run Value
  | .literal value _ => return Value.ofLiteral value
  | .group inner _ => evaluate settings calls inner
  | .binary operator left right _ => do
    let a ← evaluate settings calls left
    if operator.isLogical then
      let truth ← ofExcept a.truth
      if operator.isDecidedBy truth then return .boolean truth
      let b ← evaluate settings calls right
      return .boolean (← ofExcept b.truth)
    else
      let b ← evaluate settings calls right
      operate settings operator a b
  | .access name _ _ => return (← variableNamed name).value
  | .element name index _ _ => do
    let id ← ofExcept ((← variableNamed name).value.listOf name)
    let position ← evaluate settings calls index
    elementOf name id position
  | .call name arguments _ _ => do
    let values ← evaluateAll settings calls arguments
    calls name values
  | .list elements _ => do
    let values ← evaluateAll settings calls elements
    newList values

/-- The values of expressions, evaluated in order. -/
def evaluateAll (settings : RunSettings) (calls : Calls) : List Expression → Run (List Value)
  | [] => return []
  | expression :: expressions => do
    let value ← evaluate settings calls expression
    let values ← evaluateAll settings calls expressions
    return value :: values

end

/-! ## Statements -/

/-- Evaluates a condition. -/
def condition (settings : RunSettings) (calls : Calls) (expression : Expression) : Run Bool := do
  let value ← evaluate settings calls expression
  ofExcept value.truth

/-- The variable that an assignment is to change. -/
def receiver (name : String) : Run Variable := do
  let found ← variableNamed name
  if found.isMutable then return found else fail (.immutableReceiver name)

/-- What an assignment is to change: a variable, or the slot that a value is to denote in the list
that a variable holds. -/
inductive Target where
  | whole (name : String)
  | slot (name : String) (id : ListId) (position : Value)
deriving DecidableEq, Repr

/-- Finds what an assignment is to change. A list that is to receive an element is the one that the
variable holds before the index and the value are evaluated. -/
def locate (settings : RunSettings) (calls : Calls) : Expression → Run Target
  | .access name _ _ => do
    let _ ← receiver name
    return .whole name
  | .element name index _ _ => do
    let id ← ofExcept ((← receiver name).value.listOf name)
    let position ← evaluate settings calls index
    return .slot name id position
  | _ => fail .receiverWithoutName

/-- Puts a value where an assignment wants it. -/
def store : Target → Value → Run Unit
  | .whole name, value => assign name value
  | .slot name id position, value => do
    -- The length is taken last, when index and value have had their effects.
    let items ← itemsOf id
    let slot ← ofExcept (position.slot name items.size)
    put id slot value

/-- Executes an assignment. -/
def assignTo (settings : RunSettings) (calls : Calls) (receiver value : Expression) : Run Unit := do
  let target ← locate settings calls receiver
  let value ← evaluate settings calls value
  store target value

/-- Repeats a body as long as a condition holds and the body completes, for a limited number of
rounds. -/
def repeatWhile (condition : Run Bool) (body : Run Flow) : Nat → Run Flow
  | 0 => throw .outOfFuel
  | rounds + 1 => do
    if ← condition then
      match ← body with
      | .completed => repeatWhile condition body rounds
      | .returned value => return .returned value
    else return .completed

mutual

/-- Executes a statement. -/
def execute (settings : RunSettings) (fuel : Nat) (calls : Calls) : Statement → Run Flow
  | .expression expression => do
    let _ ← evaluate settings calls expression
    return .completed
  | .declaration name _ none _ => do
    define name true .nil
    return .completed
  | .declaration name _ (some value) _ => do
    let value ← evaluate settings calls value
    define name true value
    return .completed
  | .assignment target value => do
    assignTo settings calls target value
    return .completed
  | .branch test thenBody elseBody => do
    if ← condition settings calls test then inBlock (executeAll settings fuel calls thenBody)
    else inBlock (executeAll settings fuel calls elseBody)
  | .switch test cases => do
    let selector ← evaluate settings calls test
    executeCases settings fuel calls selector cases
  | .loop test body =>
    repeatWhile (condition settings calls test) (inBlock (executeAll settings fuel calls body)) fuel
  | .result value => return .returned (← evaluate settings calls value)

/-- Executes statements in order, up to the first that returns. -/
def executeAll (settings : RunSettings) (fuel : Nat) (calls : Calls) :
    List Statement → Run Flow
  | [] => return .completed
  | statement :: statements => do
    match ← execute settings fuel calls statement with
    | .completed => executeAll settings fuel calls statements
    | .returned value => return .returned value

/-- Executes the first case whose value equals the selector, or that has none. -/
def executeCases (settings : RunSettings) (fuel : Nat) (calls : Calls) (selector : Value) :
    List Case → Run Flow
  | [] => return .completed
  | .mk none body :: _ => inBlock (executeAll settings fuel calls body)
  | .mk (some value) body :: cases => do
    let value ← evaluate settings calls value
    if (← ofExcept (selector.order value)) = .eq then
      inBlock (executeAll settings fuel calls body)
    else executeCases settings fuel calls selector cases

end

/-! ## Calls -/

/-- Binds parameters to arguments as far as there are both. -/
def bindParameters : List Parameter → List Value → Run Unit
  | parameter :: parameters, value :: values => do
    define parameter.name true value
    bindParameters parameters values
  | _, _ => return ()

/-- Runs a function of a program: its body in a frame inside the scope that binds the function,
with its parameters in that frame. -/
def invoke (settings : RunSettings) (fuel : Nat) (calls : Calls) (home : RunScope)
    (function : Function) (arguments : List Value) : Run Value :=
  inCallee home do
    bindParameters function.parameters arguments
    match ← executeAll settings fuel calls function.body with
    | .returned value => return value
    | .completed => return .nil

/-- Prints values, each on a line of its own. -/
def printAll : List Value → Run Unit
  | [] => return ()
  | value :: values => do
    printLine (← piecesOf value)
    printAll values

/-- Looks up what a call invokes, and invokes it; functions of the program in a given way. -/
def dispatch (invokeFunction : RunScope → Function → List Value → Run Value) (name : String)
    (arguments : List Value) : Run Value := fun machine =>
  match machine.scope.lookupFunction name arguments.length with
  | none => fail (.undefinedFunction name arguments.length) machine
  | some (callable, home) =>
    let action : Run Value :=
      match callable with
      | .print => do
        printAll arguments
        return .nil
      | .function function => invokeFunction home function arguments
    (do
      notify (.call name arguments.length)
      action) machine

/-- Calls a function when room for so many nested calls is left. -/
def callWithin (settings : RunSettings) (fuel : Nat) : Nat → Calls
  | 0 => fun name => dispatch (fun _ _ _ => fail (.callTooDeep settings.maxCallDepth name)) name
  | room + 1 => dispatch fun home function arguments =>
    counted (invoke settings fuel (callWithin settings fuel room) home function arguments)

/-- The room for nested calls that a machine has under the limit. -/
def room (settings : RunSettings) (machine : Machine) : Nat :=
  settings.maxCallDepth - machine.active

/-- Calls a function. -/
def call (settings : RunSettings) (fuel : Nat) : Calls := fun name arguments machine =>
  callWithin settings fuel (room settings machine) name arguments machine

/-- The value of an expression whose calls are limited as the settings say. -/
def value (settings : RunSettings) (fuel : Nat) (expression : Expression) : Run Value :=
  evaluate settings (call settings fuel) expression

end Run

end TinyScript
