import TinyScript.Typing.Statement

/-!
# Checking programs

First every function is registered under its signature, then the globals are checked in order,
and then the bodies of the functions. A function without a declared result is taken to return
anything until its own body has been checked; from then on it returns the type of its first
result, or nil if it has none. At last there has to be a `main` without parameters that returns
an integer.
-/

namespace TinyScript.Typing

/-- Gives a notice. -/
def notify {Tree : Type} (notice : Notice) : Check Tree Unit := fun context =>
  .ok () { context with notices := notice :: context.notices }

/-! ## Functions -/

/-- The types of parameters. -/
def parameterTypes (names : TypeNames) : List Parameter → Except TypeError (List Ty)
  | [] => .ok []
  | parameter :: parameters => do
    let ty ← names.resolve parameter.typeName
    return ty :: (← parameterTypes names parameters)

/-- The signature that a function shows before its body has been checked. -/
def declaredSignature (names : TypeNames) (function : Function) : Except TypeError Signature := do
  let parameters ← parameterTypes names function.parameters
  let returns ← names.resolveOptional function.returnTypeName
  return ⟨function.name, parameters, returns.getD .any⟩

/-- Binds the signature of a function in the innermost frame. -/
def registerFunction (settings : Settings) (function : Function) : Check Function Function := do
  let signature ← Check.require function (declaredSignature settings.names function)
  let context ← get
  match context.scope.defineFunction? function.name function.arity signature with
  | none => Check.require function (.error (.functionRedefined function.name function.arity))
  | some scope =>
    set { context with scope }
    notify (.functionRegistered function.name function.arity)
    return { function with signature := some signature }

/-- Binds the parameters of a function. -/
def defineParameters {Tree : Type} (tree : Tree) :
    List Parameter → List Ty → Check Tree Unit
  | parameter :: parameters, ty :: types => do
    Check.define tree ⟨parameter.name, ty, none, true⟩
    defineParameters tree parameters types
  | _, _ => return ()

/-- Annotates the body of a function, parameters and body in one frame. -/
def annotateBody (settings : Settings) (parameters : List Parameter) (types : List Ty)
    (body : List Statement) : Check (List Statement) (List Statement) :=
  Check.inBlock do
    defineParameters body parameters types
    annotateStatements settings body

/-- Checks inside a function that returns what is given, and tells what is known of it behind.
What the place around the function returns is the same again, whether or not a fault was met. -/
def insideFunction {Tree α : Type} (returns : Option Ty) (check : Check Tree α) :
    Check Tree (α × Option Ty) := fun context =>
  match check { context with returning := some returns } with
  | .ok value after =>
    .ok (value, after.returning.getD none) { after with returning := context.returning }
  | .error fault after => .error fault { after with returning := context.returning }

/-- Writes an inferred result into the innermost frame, if the function is bound there. -/
def inferResult {Tree : Type} (function : Function) (returns : Ty) : Check Tree Unit :=
  fun context =>
    match context.scope.current.lookupFunction function.name function.arity with
    | some signature =>
      .ok () { context with
        scope := context.scope.setFunction function.name function.arity { signature with returns } }
    | none => .ok () context

/-- Checks the body of a registered function and infers what it returns, if that is not
declared. -/
def annotateFunction (settings : Settings) (function : Function) : Check Function Function := do
  match function.signature with
  | none => Check.require function (.error (.functionNotRegistered function.name function.arity))
  | some signature =>
    let isDeclared := function.returnTypeName.isSome
    let (body, known) ← Check.part (fun body => { function with body })
      (insideFunction (if isDeclared then some signature.returns else none)
        (annotateBody settings function.parameters signature.parameters function.body))
    if isDeclared then return { function with body }
    else
      let returns := known.getD .nil
      inferResult function returns
      notify (.resultInferred function.name returns)
      return { function with body, signature := some { signature with returns } }

/-! ## Globals -/

/-- Demands that the elements of a list fit a type. -/
def requireElements (element : Ty) : List Expression → Except TypeError Unit
  | [] => .ok ()
  | value :: values => do
    requireAssignable element (value.ty.getD .any)
    requireElements element values

/-- The type and the element type of a global with an annotated value. -/
def globalType (declared : Option Ty) (value : Expression) (received : Ty) :
    Except TypeError (Ty × Option Ty) :=
  match value with
  | .list elements _ => do
    requireElements (declared.getD .any) elements
    return (.list, some (declared.getD .any))
  | _ => do
    let ty := declared.getD received
    requireAssignable ty received
    return (ty, copiedElement value)

/-- Annotates a global and binds it in the innermost frame. -/
def annotateGlobal (settings : Settings) (global : Global) : Check Global Global := do
  let declared ← Check.require global (settings.names.resolveOptional global.typeName)
  let (value, ty, element) ←
    match global.value with
    | none =>
      match declared with
      | none => Check.require global (.error (.globalWithoutType global.name))
      | some ty => pure (none, ty, none)
    | some value =>
      let (value, received) ←
        Check.expression settings (fun value => { global with value := some value }) value
      let (ty, element) ← Check.require { global with value := some value }
        (globalType declared value received)
      pure (some value, ty, element)
  let binding := ⟨global.name, ty, element, global.isMutable⟩
  Check.define { global with value } binding
  notify (.globalRegistered global.name ty)
  return { global with value, binding := some binding }

/-! ## Programs -/

/-- Annotates trees in order. -/
def annotateEach {Tree : Type} (annotate : Tree → Check Tree Tree) :
    List Tree → Check (List Tree) (List Tree)
  | [] => return []
  | tree :: trees => do
    let tree ← Check.part (· :: trees) (annotate tree)
    let trees ← Check.part (tree :: ·) (annotateEach annotate trees)
    return tree :: trees

/-- Demands an entry point that returns an integer. -/
def requireMain (scope : StaticScope) : Except TypeError Unit :=
  match scope.lookupFunction "main" 0 with
  | none => .error .missingMain
  | some (main, _) =>
    if main.returns = .integer then .ok () else .error (.mismatch .integer main.returns)

/-- Annotates a program in a context whose scope holds only what every program can call. -/
def annotateProgram (settings : Settings) (program : Program) : Check Program Program := do
  let functions ← Check.part (fun functions => { program with functions })
    (annotateEach (registerFunction settings) program.functions)
  let globals ← Check.part (fun globals => ⟨globals, functions⟩)
    (annotateEach (annotateGlobal settings) program.globals)
  let functions ← Check.part (fun functions => ⟨globals, functions⟩)
    (annotateEach (annotateFunction settings) functions)
  Check.require ⟨globals, functions⟩ (requireMain (← get).scope)
  notify (.complete globals.length functions.length)
  return ⟨globals, functions⟩

end Typing

/-- Checks a program and fills in its annotations. -/
def Program.check (settings : Typing.Settings) (program : Program) : Except TypeError Program :=
  match Typing.annotateProgram settings program Typing.Context.initial with
  | .ok program _ => .ok program
  | .error fault _ => .error fault.reason

end TinyScript
