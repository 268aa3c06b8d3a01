import TinyScript.Typing.Expression

/-!
# Checking statements

Statements are checked in a `Context`: the scope, what the function around them returns, and the
notices given so far. A declaration adds to the innermost frame, the first result of a function
without a declared type fixes what it returns, and a block has a frame of its own that is gone
behind it, whether or not a fault was met inside.
-/

namespace TinyScript.Typing

/-! ## Contexts -/

/-- What the checker tells a host on its way. -/
inductive Notice where
  | functionRegistered (name : String) (arity : Nat)
  | globalRegistered (name : String) (ty : Ty)
  | resultInferred (name : String) (ty : Ty)
  | complete (globals functions : Nat)
deriving DecidableEq, Repr

/-- Where checking has come to. -/
structure Context where
  scope : StaticScope
  /-- Inside a function, what it returns, if that is known already. -/
  returning : Option (Option Ty)
  /-- The notices given, latest first. -/
  notices : List Notice

/-- The function that every program can call: it prints its argument. -/
def printSignature : Signature := ⟨"print", [.any], .nil⟩

/-- The scope that holds only what every program can call. -/
def rootScope : StaticScope := .root (Frame.empty.addFunction "print" 1 printSignature)

/-- The context in which checking of a program starts. -/
def Context.initial : Context := ⟨rootScope, none, []⟩

/-- A check that annotates a tree in a context. The context outlives a fault. -/
abbrev Check (Tree α : Type) := EStateM (Fault Tree) Context α

namespace Check

/-- What checking an expression in the current scope gives, as a part of a larger tree. -/
def expression {Tree : Type} (settings : Settings) (rebuild : Expression → Tree)
    (expression : Expression) : Check Tree (Expression × Ty) := fun context =>
  match annotateExpression settings context.scope expression with
  | .ok checked => .ok checked context
  | .error fault => .error (fault.within rebuild) context

/-- What checking a part of a tree gives, with a fault carried over to the whole. -/
def part {Part Whole α : Type} (rebuild : Part → Whole) (check : Check Part α) :
    Check Whole α := fun context =>
  match check context with
  | .ok value context => .ok value context
  | .error fault context => .error (fault.within rebuild) context

/-- A demand made on a tree. -/
def require {Tree α : Type} (tree : Tree) (result : Except TypeError α) : Check Tree α :=
  fun context =>
    match result with
    | .ok value => .ok value context
    | .error reason => .error ⟨reason, tree⟩ context

/-- Binds a variable in the innermost frame. -/
def define {Tree : Type} (tree : Tree) (binding : VariableBinding) : Check Tree Unit :=
  fun context =>
    match context.scope.defineVariable? binding.name binding with
    | some scope => .ok () { context with scope }
    | none => .error ⟨.variableRedefined binding.name, tree⟩ context

/-- Checks in a frame of its own, which is gone behind it. -/
def inBlock {Tree α : Type} (check : Check Tree α) : Check Tree α := fun context =>
  match check { context with scope := context.scope.enter } with
  | .ok value after => .ok value { after with scope := after.scope.leave }
  | .error fault after => .error fault { after with scope := after.scope.leave }

/-- Holds the type of a result against what the function returns, which the first result fixes if
it is not declared. -/
def returning {Tree : Type} (tree : Tree) (received : Ty) : Check Tree Unit := fun context =>
  match context.returning with
  | none => .error ⟨.resultOutsideFunction, tree⟩ context
  | some none => .ok () { context with returning := some (some received) }
  | some (some expected) => require tree (requireAssignable expected received) context

end Check

/-! ## Statements -/

/-- Annotates a condition, which has to be a truth value. -/
def annotateCondition {Tree : Type} (settings : Settings) (rebuild : Expression → Tree)
    (condition : Expression) : Check Tree Expression := do
  let (condition, ty) ← Check.expression settings rebuild condition
  Check.require (rebuild condition) (requireExact .boolean ty)
  return condition

/-- Annotates a declaration. -/
def annotateDeclaration (settings : Settings) (name : String) (typeName : Option String)
    (value : Option Expression) (old : Option VariableBinding) : Check Statement Statement := do
  let declared ← Check.require (.declaration name typeName value old)
    (settings.names.resolveOptional typeName)
  match value with
  | none =>
    match declared with
    | none =>
      Check.require (.declaration name typeName none old) (.error (.declarationWithoutType name))
    | some ty =>
      let binding := ⟨name, ty, none, true⟩
      Check.define (.declaration name typeName none old) binding
      return .declaration name typeName none (some binding)
  | some value =>
    let (value, received) ←
      Check.expression settings (fun value => .declaration name typeName (some value) old) value
    let ty := declared.getD received
    Check.require (.declaration name typeName (some value) old) (requireAssignable ty received)
    let binding := ⟨name, ty, copiedElement value, true⟩
    Check.define (.declaration name typeName (some value) old) binding
    return .declaration name typeName (some value) (some binding)

/-- Annotates an assignment. -/
def annotateAssignment (settings : Settings) (receiver value : Expression) :
    Check Statement Statement := do
  if !receiver.isReceiver then
    Check.require (.assignment receiver value) (.error .receiverWithoutName)
  let (receiver, target) ← Check.expression settings (.assignment · value) receiver
  let (value, received) ← Check.expression settings (.assignment receiver ·) value
  Check.require (.assignment receiver value) (requireAssignable target received)
  return .assignment receiver value

mutual

/-- Annotates a statement. -/
def annotateStatement (settings : Settings) : Statement → Check Statement Statement
  | .expression expression => do
    if !expression.isCall then
      Check.require (.expression expression) (.error .expressionWithoutCall)
    let (expression, _) ← Check.expression settings .expression expression
    return .expression expression
  | .declaration name typeName value old => annotateDeclaration settings name typeName value old
  | .assignment receiver value => annotateAssignment settings receiver value
  | .branch condition thenBody elseBody => do
    let condition ← annotateCondition settings (.branch · thenBody elseBody) condition
    let thenBody ← Check.part (.branch condition · elseBody)
      (Check.inBlock (annotateStatements settings thenBody))
    let elseBody ← Check.part (.branch condition thenBody ·)
      (Check.inBlock (annotateStatements settings elseBody))
    return .branch condition thenBody elseBody
  | .switch condition cases => do
    let (condition, ty) ← Check.expression settings (.switch · cases) condition
    if cases.isEmpty then Check.require (.switch condition cases) (.error .switchWithoutCases)
    let cases ← Check.part (.switch condition ·) (annotateCases settings ty cases)
    return .switch condition cases
  | .loop condition body => do
    let condition ← annotateCondition settings (.loop · body) condition
    let body ← Check.part (.loop condition ·)
      (Check.inBlock (annotateStatements settings body))
    return .loop condition body
  | .result value => do
    let (value, received) ← Check.expression settings .result value
    Check.returning (.result value) received
    return .result value

/-- Annotates statements in order. -/
def annotateStatements (settings : Settings) :
    List Statement → Check (List Statement) (List Statement)
  | [] => return []
  | statement :: statements => do
    let statement ← Check.part (· :: statements) (annotateStatement settings statement)
    let statements ← Check.part (statement :: ·) (annotateStatements settings statements)
    return statement :: statements

/-- Annotates a case of a switch on a value of the given type. The last one is the default. -/
def annotateCase (settings : Settings) (ty : Ty) (isLast : Bool) : Case → Check Case Case
  | .mk none body => do
    if !isLast then Check.require (.mk none body) (.error .switchWithoutDefault)
    let body ← Check.part (.mk none ·) (Check.inBlock (annotateStatements settings body))
    return .mk none body
  | .mk (some value) body => do
    if isLast then Check.require (.mk (some value) body) (.error .defaultWithValue)
    let (value, received) ← Check.expression settings (fun value => .mk (some value) body) value
    Check.require (.mk (some value) body) (requireAssignable ty received)
    let body ← Check.part (.mk (some value) ·)
      (Check.inBlock (annotateStatements settings body))
    return .mk (some value) body

/-- Annotates the cases of a switch on a value of the given type. -/
def annotateCases (settings : Settings) (ty : Ty) : List Case → Check (List Case) (List Case)
  | [] => return []
  | case :: cases => do
    let case ← Check.part (· :: cases) (annotateCase settings ty cases.isEmpty case)
    let cases ← Check.part (case :: ·) (annotateCases settings ty cases)
    return case :: cases

end

end TinyScript.Typing
