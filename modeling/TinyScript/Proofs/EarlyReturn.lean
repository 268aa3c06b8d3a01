import TinyScript.Proofs.Run.Lockstep
import TinyScript.Proofs.Run.Returning
import TinyScript.Proofs.Run.Timeline

/-!
# Nothing happens behind a return

A statement that returns ends its block, and with it everything up to the call it stands in. So the
statements behind it in its block can be dropped, in all blocks of all functions at once
(`Program.prune`), and the program runs as before: a block does what it does without them
(`executeAll_pruneBlock`), and programs whose functions do the same go in lockstep. What a call
gives is the value of the one return that its body comes to, or nil if it comes to none.
-/

namespace TinyScript

open Run

/-! ## Blocks that end with their first return -/

/-- Whether a statement returns, whatever its expression comes to. -/
def Statement.isResult : Statement → Bool
  | .result _ => true
  | _ => false

mutual

/-- The statement whose blocks end with their first return. -/
def Statement.prune : Statement → Statement
  | .branch test thenBody elseBody => .branch test (pruneBlock thenBody) (pruneBlock elseBody)
  | .switch test cases => .switch test (pruneCases cases)
  | .loop test body => .loop test (pruneBlock body)
  | .expression expression => .expression expression
  | .declaration name typeName value binding => .declaration name typeName value binding
  | .assignment receiver value => .assignment receiver value
  | .result value => .result value

/-- The block up to its first return. -/
def pruneBlock : List Statement → List Statement
  | [] => []
  | statement :: statements =>
    statement.prune :: if statement.isResult then [] else pruneBlock statements

/-- The cases whose blocks end with their first return. -/
def pruneCases : List Case → List Case
  | [] => []
  | .mk value body :: cases => .mk value (pruneBlock body) :: pruneCases cases

end

/-- The function without the statements behind returns. -/
def Function.prune (function : Function) : Function :=
  { function with body := pruneBlock function.body }

/-- The program without the statements behind returns. -/
def Program.prune (program : Program) : Program :=
  { program with functions := program.functions.map Function.prune }

/-! ## Pruned blocks do the same -/

section Blocks

variable {settings : RunSettings} {fuel : Nat} {calls : Calls}

/-- A return ends its block. -/
theorem executeAll_result {statement : Statement} (h : statement.isResult = true)
    (statements : List Statement) :
    executeAll settings fuel calls (statement :: statements) =
      execute settings fuel calls statement := by
  cases statement with
  | result value =>
      simp only [executeAll, execute, bind_assoc, pure_bind]
  | _ => cases h

mutual

theorem execute_prune : ∀ statement : Statement,
    execute settings fuel calls statement.prune = execute settings fuel calls statement
  | .branch test thenBody elseBody => by
      rw [Statement.prune, execute, execute, executeAll_pruneBlock thenBody,
        executeAll_pruneBlock elseBody]
  | .switch test cases => by
      rw [Statement.prune, execute, execute]
      simp only [executeCases_pruneCases _ cases]
  | .loop test body => by
      rw [Statement.prune, execute, execute, executeAll_pruneBlock body]
  | .expression _ | .declaration .. | .assignment .. | .result _ => by rw [Statement.prune]

/-- A block does what it does up to its first return. -/
theorem executeAll_pruneBlock : ∀ statements : List Statement,
    executeAll settings fuel calls (pruneBlock statements) =
      executeAll settings fuel calls statements
  | [] => by rw [pruneBlock]
  | statement :: statements => by
      rw [pruneBlock]
      by_cases hresult : statement.isResult = true
      · have hpruned : statement.prune.isResult = true := by
          cases statement with
          | result value => rw [Statement.prune, Statement.isResult]
          | _ => cases hresult
        rw [executeAll_result hpruned, executeAll_result hresult, execute_prune statement]
      · rw [if_neg hresult, executeAll, executeAll, execute_prune statement,
          executeAll_pruneBlock statements]

theorem executeCases_pruneCases (selector : Value) : ∀ cases : List Case,
    executeCases settings fuel calls selector (pruneCases cases) =
      executeCases settings fuel calls selector cases
  | [] => by rw [pruneCases]
  | .mk none body :: cases => by
      rw [pruneCases, executeCases, executeCases, executeAll_pruneBlock body]
  | .mk (some value) body :: cases => by
      rw [pruneCases, executeCases, executeCases, executeAll_pruneBlock body,
        executeCases_pruneCases selector cases]

end

end Blocks

/-- Machines that hold the same but for functions of which one is the other one pruned. -/
def Likeness.pruning : Likeness :=
  .sameStores (fun function function' => function' = function.prune) fun _ => False

theorem Likeness.allows_pruning (settings : RunSettings) (fuel : Nat) :
    Likeness.pruning.Allows settings settings fuel fuel where
  rounds := .inl rfl
  depth := .inl rfl
  negative := .inl rfl
  takes := sameStores_takes
  header := by
    rintro function _ rfl
    exact ⟨rfl, rfl⟩
  body := by
    rintro function _ rfl calls
    exact executeAll_pruneBlock function.body

/-- A program does what it does without the statements behind returns. -/
theorem Program.execute_prune (settings : RunSettings) (fuel : Nat) (program : Program)
    (machine : Machine) :
    program.prune.execute settings fuel machine = program.execute settings fuel machine := by
  have hfunctions : List.Forall₂ (fun function function' => function' = function.prune)
      program.functions (program.functions.map Function.prune) := by
    rw [List.forall₂_map_right_iff]
    exact List.forall₂_same.mpr fun _ _ => rfl
  rcases Likeness.execute_sameStores (Likeness.allows_pruning settings fuel) program.globals
    hfunctions machine with ⟨_, -, hcut⟩ | hsame
  · exact hcut.elim
  · exact hsame

/-! ## Calls that return -/

section Calls

variable {settings : RunSettings} {fuel : Nat} {calls inner : Calls} {name : String}
  {values : List Value} {function : Function} {m m₁ m₂ : Machine}

/-- Behind a statement that returns there is no step in its block. -/
theorem eq_result_of_step {value : Expression} {statements : List Statement} {number : Nat}
    {task : Task}
    (hstep : Step fuel (performs settings fuel calls)
      (.statements (.result value :: statements)) m number task m₁) :
    task = .statement (.result value) := by
  cases hstep with
  | first => rfl
  | rest hfirst =>
      have hresult : ComesToResult settings fuel calls (.statement (.result value)) m value m :=
        .here
      exact absurd hfirst hresult.not_completed

/-- A call that enters the body of a function is that body with a frame around it. -/
theorem call_of_enters (henters : Enters settings fuel calls name values m inner function m₁) :
    ∃ home, bindParameters function.parameters values (m.callee home name values.length) =
        .ok () m₁ ∧
      calls name values m = counted (invoke settings fuel inner home function values)
        { m with notices := .call name values.length :: m.notices } := by
  obtain ⟨hfound, hdeeper, hbound⟩ := henters
  refine ⟨_, hbound, ?_⟩
  cases hdeeper with
  | within => exact callWithin_of_function hfound
  | outermost hroom =>
      unfold call
      rw [hroom]
      exact callWithin_of_function hfound

theorem counted_eq_ok {α : Type} {action : Run α} {a : α} {after : Machine}
    (h : action { m with active := m.active + 1 } = .ok a after) :
    counted action m = .ok a { after with active := m.active } := by
  unfold counted
  rw [h]

theorem inCallee_eq_ok {α : Type} {action : Run α} {home : RunScope} {a : α} {after : Machine}
    (h : action { m with scope := home.enter } = .ok a after) :
    inCallee home action m = .ok a { after with scope := m.scope.regrow after.scope.leave } := by
  unfold inCallee
  rw [h]

theorem counted_invoke_of_ends {home : RunScope} {flow : Flow}
    (hbound : bindParameters function.parameters values (m.callee home name values.length) =
      .ok () m₁)
    (h : executeAll settings fuel calls function.body m₁ = .ok flow m₂) :
    counted (invoke settings fuel calls home function values)
      { m with notices := .call name values.length :: m.notices } =
        .ok flow.value (m.resume m₂) := by
  refine counted_eq_ok (inCallee_eq_ok ((bind_of_ok hbound).trans ((bind_of_ok h).trans ?_)))
  cases flow <;> rfl

/-- A call ends as the body it has entered: with what the body returns, or in its failure. -/
theorem call_eq_ok_iff (henters : Enters settings fuel calls name values m inner function m₁)
    {v : Value} {m' : Machine} :
    calls name values m = .ok v m' ↔ ∃ flow m₂,
      executeAll settings fuel inner function.body m₁ = .ok flow m₂ ∧
        v = flow.value ∧ m' = m.resume m₂ := by
  obtain ⟨home, hbound, hcall⟩ := call_of_enters henters
  rw [hcall]
  constructor
  · intro h
    obtain ⟨m₂, flow, m₃, hbound', hflow, hvalue, hafter⟩ := counted_invoke_eq_ok h
    cases hbound.symm.trans hbound'
    exact ⟨flow, m₃, hflow, hvalue, hafter⟩
  · rintro ⟨flow, m₂, hflow, rfl, rfl⟩
    exact counted_invoke_of_ends hbound hflow

theorem call_of_fails (henters : Enters settings fuel calls name values m inner function m₁)
    {halt : Halt} (h : Fails settings fuel inner (.statements function.body) m₁ halt) :
    ∃ m', calls name values m = .error halt m' := by
  obtain ⟨home, hbound, hcall⟩ := call_of_enters henters
  obtain ⟨after, h⟩ := fails_statements.mp h
  exact ⟨_, hcall.trans (counted_invoke_of_body hbound h)⟩

/-- A call gives what the return that its body comes to gives, or nil if there is none. -/
theorem returns_of_call (henters : Enters settings fuel calls name values m inner function m₁)
    {v : Value} {m' : Machine} (h : calls name values m = .ok v m') :
    ReturnsFrom settings fuel inner (.statements function.body) m₁ v ∨
      v = .nil ∧ ∀ value m₂,
        ¬ ComesToResult settings fuel inner (.statements function.body) m₁ value m₂ := by
  obtain ⟨flow, m₂, hflow, rfl, -⟩ := (call_eq_ok_iff henters).mp h
  cases flow with
  | completed =>
      exact .inr ⟨rfl, fun _ _ hresult => hresult.not_completed (performs_statements.mpr hflow)⟩
  | returned v => exact .inl (returnsFrom_of_executeAll function.body hflow)

theorem call_of_comesToResult
    (henters : Enters settings fuel calls name values m inner function m₁) {value : Expression}
    (hresult : ComesToResult settings fuel inner (.statements function.body) m₁ value m₂)
    {v : Value} {m₃ : Machine} (hvalue : evaluate settings inner value m₂ = .ok v m₃) :
    ∃ m', calls name values m = .ok v m' := by
  obtain ⟨after, hreturned⟩ := hresult.performs hvalue
  exact ⟨_, (call_eq_ok_iff henters).mpr
    ⟨.returned v, after, performs_statements.mp hreturned, rfl, rfl⟩⟩

end Calls

/-- Nothing behind a return is executed. Dropping, in every block of every function, what follows a
return there changes no run: the outcome and the machine, and so the output, stay the same. No step
of a block goes on behind a return, and in each call that enters the body of a function at most one
return is reached. Its value, or failure, is that of the call, through all blocks around it; a call
that ends well without reaching one gives nil. -/
theorem return_ends_its_call (settings : RunSettings) (fuel : Nat) :
    (∀ program machine,
      (Program.prune program).execute settings fuel machine =
        program.execute settings fuel machine) ∧
      (∀ calls value statements m number task m',
        Step fuel (performs settings fuel calls) (.statements (.result value :: statements)) m
          number task m' → task = .statement (.result value)) ∧
      ∀ calls name values m inner function m₁,
        Enters settings fuel calls name values m inner function m₁ →
        (∀ v m', calls name values m = .ok v m' →
          (∃ value m₂ m₃,
            ComesToResult settings fuel inner (.statements function.body) m₁ value m₂ ∧
              evaluate settings inner value m₂ = .ok v m₃) ∨
          v = .nil ∧ ∀ value m₂,
            ¬ ComesToResult settings fuel inner (.statements function.body) m₁ value m₂) ∧
        ∀ value m₂, ComesToResult settings fuel inner (.statements function.body) m₁ value m₂ →
          (∀ other m₃, ComesToResult settings fuel inner (.statements function.body) m₁ other m₃ →
            other = value ∧ m₃ = m₂) ∧
          (∀ v m₃, evaluate settings inner value m₂ = .ok v m₃ →
            ∃ m', calls name values m = .ok v m') ∧
          ∀ halt m₃, evaluate settings inner value m₂ = .error halt m₃ →
            ∃ m', calls name values m = .error halt m' := by
  refine ⟨Program.execute_prune settings fuel, fun _ _ _ _ _ _ _ => eq_result_of_step, ?_⟩
  intro calls name values m inner function m₁ henters
  refine ⟨fun _ _ => returns_of_call henters, fun value m₂ hresult => ⟨?_, ?_, ?_⟩⟩
  · exact fun _ _ => hresult.unique
  · exact fun _ _ => call_of_comesToResult henters hresult
  · exact fun _ _ hvalue => call_of_fails henters (hresult.fails hvalue)

/-! ## A return in a switch in a branch in a loop -/

/-- A function that counts beyond a limit and returns from inside a loop. Statements stand behind
three of its four returns. -/
def seekBeyond : Function where
  name := "seek"
  parameters := [⟨"limit", "Integer"⟩]
  returnTypeName := some "Integer"
  body :=
    let count := Expression.access "i" none none
    let next := Statement.assignment count (.binary .add count (.literal (.integer 1) none) none)
    [.declaration "i" none (some (.literal (.integer 0) none)) none,
      .loop (.literal (.boolean true) none)
        [.branch (.binary .greater count (.access "limit" none none) none)
            [.switch count
                [.mk (some (.literal (.integer 100) none))
                    [.result (.literal (.integer 100) none), next],
                  .mk none
                    [.result (.binary .multiply count (.literal (.integer 10) none) none),
                      .result (.literal .nil none)]],
              next]
            [],
          next],
      .result (.literal (.integer (-1)) none), next]
  signature := none

/-- A program whose `main` calls the function. -/
def seeking : Program where
  globals := []
  functions :=
    [seekBeyond, ⟨"main", [], some "Integer",
      [.result (.call "seek" [.literal (.integer 3) none] none none)], none⟩]

/-- A machine that has bound the function. -/
def seekingMachine : Machine :=
  { Machine.initial .unlimited with
    scope := .root (Frame.empty.addFunction "seek" 1 (.function seekBeyond)) }

/-- The program runs as without what stands behind returns, and the call gives ten times four: the
value of the return that its body comes to in the fifth round. -/
theorem return_ends_its_call_seeking :
    seekBeyond.body.length = 4 ∧ seekBeyond.prune.body.length = 3 ∧
      (seeking.execute default 5 (.initial .unlimited)).1 = .finished 40 ∧
      (seeking.prune.execute default 5 (.initial .unlimited)).1 = .finished 40 ∧
      ∃ inner m₁, Enters default 5 (call default 5) "seek" [.integer 3] seekingMachine inner
          seekBeyond m₁ ∧
        ∃ value m₂ m₃, ComesToResult default 5 inner (.statements seekBeyond.body) m₁ value m₂ ∧
          evaluate default inner value m₂ = .ok (.integer 40) m₃ := by
  obtain ⟨hprune, -, hcalls⟩ := return_ends_its_call default 5
  have houtcome : (seeking.execute default 5 (.initial .unlimited)).1 = .finished 40 := by
    decide +kernel
  obtain ⟨m₁, henters⟩ : ∃ m₁, Enters default 5 (call default 5) "seek" [.integer 3]
      seekingMachine (callWithin default 5 9999) seekBeyond m₁ :=
    ⟨_, .mk rfl (.outermost rfl) rfl⟩
  obtain ⟨m', hcall⟩ : ∃ m', call default 5 "seek" [.integer 3] seekingMachine =
      .ok (.integer 40) m' := by
    have hvalue : (match call default 5 "seek" [.integer 3] seekingMachine with
      | .ok v _ => some v
      | .error _ _ => none) = some (.integer 40) := by decide +kernel
    split at hvalue
    · next hcall =>
        cases hvalue
        exact ⟨_, hcall⟩
    · cases hvalue
  refine ⟨rfl, rfl, houtcome, by rw [hprune, houtcome], _, m₁, henters, ?_⟩
  rcases (hcalls _ _ _ _ _ _ _ henters).1 _ _ hcall with hreturns | ⟨hnil, -⟩
  · exact hreturns
  · cases hnil

end TinyScript
