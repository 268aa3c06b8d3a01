import TinyScript.Run.Evaluate

/-!
# Running programs

A run binds all functions, evaluates the globals in order, and calls `main`, whose value has to
be an integer. It has a scope of its own; lists, sink and notices go on from those of the machine
it runs on.
-/

namespace TinyScript

namespace Run

/-- Binds functions in the innermost frame. -/
def bindFunctions : List Function → Run Unit
  | [] => return ()
  | function :: functions => do
    fun machine =>
      match machine.scope.defineFunction? function.name function.arity (.function function) with
      | some scope => .ok () { machine with scope }
      | none => fail (.functionRedefined function.name function.arity) machine
    bindFunctions functions

/-- Evaluates globals in order and binds them in the innermost frame. -/
def bindGlobals (settings : RunSettings) (fuel : Nat) : List Global → Run Unit
  | [] => return ()
  | global :: globals => do
    let value ←
      match global.value with
      | none => pure .nil
      | some expression => value settings fuel expression
    define global.name global.isMutable value
    bindGlobals settings fuel globals

/-- Demands that `main` has returned an integer. -/
def mainResult : Value → Except RuntimeError Int
  | .integer n => .ok n
  | other => .error (.mainNotInteger other.kind)

end Run

/-- Runs a program and gives the integer that `main` returns. -/
def Program.run (settings : RunSettings) (fuel : Nat) (program : Program) : Run Int :=
  Run.inScope .initial do
    Run.bindFunctions program.functions
    Run.bindGlobals settings fuel program.globals
    Run.notify (.starting program.globals.length program.functions.length)
    let value ← Run.call settings fuel "main" []
    Run.ofExcept (Run.mainResult value)

end TinyScript
