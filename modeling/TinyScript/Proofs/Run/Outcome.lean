import TinyScript.Proofs.Run.Program

/-!
# What a run comes to

Running a program on a machine is acting in a scope of its own, `Program.inside`, and reporting how
that ended. The machine that is left has what the action left but the scope, which is the one from
before the run.
-/

namespace TinyScript

open Run

/-- The outcome of a run that ends without a value. -/
def Halt.outcome : Halt → Outcome
  | failed error => .failed (.runtimeError error)
  | scaleOverflow => .scaleOverflow
  | outOfFuel => .outOfFuel

namespace Program

variable {settings : RunSettings} {fuel : Nat} {program : Program} {machine : Machine}

/-- What a run of a program does in the scope of the run. -/
def inside (settings : RunSettings) (fuel : Nat) (program : Program) : Run Int := do
  bindFunctions program.functions
  bindGlobals settings fuel program.globals
  notify (.starting program.globals.length program.functions.length)
  let value ← call settings fuel "main" []
  ofExcept (mainResult value)

theorem run_eq_inScope :
    program.run settings fuel = inScope .initial (program.inside settings fuel) := rfl

theorem execute_of_ok {result : Int} {after : Machine}
    (h : program.inside settings fuel { machine with scope := .initial } = .ok result after) :
    program.execute settings fuel machine =
      (.finished result, { after with scope := machine.scope }) := by
  simp only [execute, run_eq_inScope, inScope, h]

theorem execute_of_error {halt : Halt} {after : Machine}
    (h : program.inside settings fuel { machine with scope := .initial } = .error halt after) :
    program.execute settings fuel machine =
      (halt.outcome, { after with scope := machine.scope }) := by
  cases halt <;> simp only [execute, run_eq_inScope, inScope, h, Halt.outcome]

theorem outcome_execute :
    (∃ result, (program.execute settings fuel machine).1 = .finished result) ∨
      ∃ halt : Halt, (program.execute settings fuel machine).1 = halt.outcome := by
  cases h : program.inside settings fuel { machine with scope := .initial } with
  | ok result after => exact .inl ⟨result, by rw [execute_of_ok h]⟩
  | error halt after => exact .inr ⟨halt, by rw [execute_of_error h]⟩

/-- What a run that ends badly comes to tells how it has ended. -/
theorem execute_eq_outcome_iff (halt : Halt) :
    (program.execute settings fuel machine).1 = halt.outcome ↔
      ∃ m', program.run settings fuel machine = .error halt m' := by
  cases hrun : program.run settings fuel machine with
  | ok result after => cases halt <;> simp [execute, hrun, Halt.outcome]
  | error other after => cases halt <;> cases other <;> simp [execute, hrun, Halt.outcome]

theorem run_of_execute {error : RuntimeError}
    (h : (program.execute settings fuel machine).1 = .failed (.runtimeError error)) :
    ∃ m', program.run settings fuel machine = .error (.failed error) m' :=
  (execute_eq_outcome_iff (.failed error)).mp h

/-- Behind a run the scope from before is back. -/
theorem scope_execute : (program.execute settings fuel machine).2.scope = machine.scope := by
  cases h : program.inside settings fuel { machine with scope := .initial } with
  | ok result after => rw [execute_of_ok h]
  | error halt after => rw [execute_of_error h]

end Program

end TinyScript
