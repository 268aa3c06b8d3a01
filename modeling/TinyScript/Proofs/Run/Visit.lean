import TinyScript.Proofs.Sequencing
import TinyScript.Proofs.Site
import TinyScript.Run.Program

/-!
# What a run visits

A run works through parts of a program: it evaluates expressions, executes statements, and goes on
to their parts. A `Task` is one such piece of work, and `perform` is what the evaluator does with
it. `Step` says which parts a task goes on to, from which machine, once the parts before it have
finished; `Visits` follows the steps to any depth and through any number of calls. Every part keeps
its `Site`, which says where in the program it stands, so that what happens at a part during a run
can be held against what the checker found there.
-/

namespace TinyScript

/-! ## Machines at blocks and calls -/

namespace Machine

/-- The machine inside a block. -/
def enter (machine : Machine) : Machine := { machine with scope := machine.scope.enter }

/-- The machine behind a block. -/
def leave (machine : Machine) : Machine := { machine with scope := machine.scope.leave }

/-- The machine inside a call of a function that is bound in the scope `home`. -/
def callee (machine : Machine) (home : RunScope) (name : String) (arity : Nat) : Machine :=
  { machine with
    scope := home.enter
    active := machine.active + 1
    notices := .call name arity :: machine.notices }

/-- The machine of a caller behind a call that has ended in the machine `after`. -/
def resume (caller after : Machine) : Machine :=
  { after with
    scope := caller.scope.regrow after.scope.leave
    active := caller.active }

end Machine

/-- The value of a call whose body ends in a given way. -/
def Flow.value : Flow → Value
  | completed => .nil
  | returned value => value

namespace Run

theorem inBlock_eq_ok {α : Type} {action : Run α} {m m' : Machine} {a : α} :
    inBlock action m = .ok a m' ↔ ∃ after, action m.enter = .ok a after ∧ m' = after.leave := by
  simp only [inBlock]
  unfold Machine.enter
  cases action { m with scope := m.scope.enter } with
  | ok value after =>
      constructor
      · intro h
        cases h
        exact ⟨after, rfl, rfl⟩
      · rintro ⟨_, h, rfl⟩
        cases h
        rfl
  | error halt after => simp

theorem inBlock_eq_error {α : Type} {action : Run α} {m m' : Machine} {halt : Halt} :
    inBlock action m = .error halt m' ↔
      ∃ after, action m.enter = .error halt after ∧ m' = after.leave := by
  simp only [inBlock]
  unfold Machine.enter
  cases action { m with scope := m.scope.enter } with
  | ok value after => simp
  | error halt after =>
      constructor
      · intro h
        cases h
        exact ⟨after, rfl, rfl⟩
      · rintro ⟨_, h, rfl⟩
        cases h
        rfl

/-! ## Tasks -/

/-- A piece of work of the evaluator. -/
inductive Task where
  | expression (expression : Expression)
  | expressions (expressions : List Expression)
  /-- Finding what an assignment to a receiver changes. -/
  | receiver (receiver : Expression)
  | statement (statement : Statement)
  | statements (statements : List Statement)
  /-- Looking for the first case whose value equals the selector. -/
  | cases (selector : Value) (cases : List Case)

/-- What a task ends with. -/
inductive Product where
  | value (value : Value)
  | values (values : List Value)
  | target (target : Target)
  | flow (flow : Flow)

/-- Does a task. -/
def perform (settings : RunSettings) (fuel : Nat) (calls : Calls) : Task → Run Product
  | .expression expression => Product.value <$> evaluate settings calls expression
  | .expressions expressions => Product.values <$> evaluateAll settings calls expressions
  | .receiver receiver => Product.target <$> locate settings calls receiver
  | .statement statement => Product.flow <$> execute settings fuel calls statement
  | .statements statements => Product.flow <$> executeAll settings fuel calls statements
  | .cases selector cases => Product.flow <$> executeCases settings fuel calls selector cases

/-- How tasks may finish: from which machine, with what, in which machine. -/
abbrev Finish := Task → Machine → Product → Machine → Prop

/-- How tasks finish when they are performed. -/
def performs (settings : RunSettings) (fuel : Nat) (calls : Calls) : Finish :=
  fun task m product m' => perform settings fuel calls task m = .ok product m'

section Performs

variable {settings : RunSettings} {fuel : Nat} {calls : Calls} {m m' : Machine}

@[simp] theorem performs_expression {expression : Expression} {v : Value} :
    performs settings fuel calls (.expression expression) m (.value v) m' ↔
      evaluate settings calls expression m = .ok v m' := by
  simp [performs, perform, map_eq_ok]

@[simp] theorem performs_expressions {expressions : List Expression} {vs : List Value} :
    performs settings fuel calls (.expressions expressions) m (.values vs) m' ↔
      evaluateAll settings calls expressions m = .ok vs m' := by
  simp [performs, perform, map_eq_ok]

@[simp] theorem performs_receiver {receiver : Expression} {target : Target} :
    performs settings fuel calls (.receiver receiver) m (.target target) m' ↔
      locate settings calls receiver m = .ok target m' := by
  simp [performs, perform, map_eq_ok]

@[simp] theorem performs_statement {statement : Statement} {flow : Flow} :
    performs settings fuel calls (.statement statement) m (.flow flow) m' ↔
      execute settings fuel calls statement m = .ok flow m' := by
  simp [performs, perform, map_eq_ok]

@[simp] theorem performs_statements {statements : List Statement} {flow : Flow} :
    performs settings fuel calls (.statements statements) m (.flow flow) m' ↔
      executeAll settings fuel calls statements m = .ok flow m' := by
  simp [performs, perform, map_eq_ok]

end Performs

/-! ## Steps into parts -/

/-- A loop comes from one machine to another by so many rounds. -/
inductive Rounds (finish : Finish) (test : Expression) (body : List Statement) (m : Machine) :
    Nat → Machine → Prop
  | none : Rounds finish test body m 0 m
  | more {rounds m₁ m₂ m₃ a} :
      Rounds finish test body m rounds m₁ →
      finish (.expression test) m₁ (.value a) m₂ → a.truth = .ok true →
      finish (.statements body) m₂.enter (.flow .completed) m₃ →
      Rounds finish test body m (rounds + 1) m₃.leave

/-- A task at a machine goes on to a part of it at another machine. The parts of each task are
numbered in the order in which they are written. A loop has at most `fuel` rounds. -/
inductive Step (fuel : Nat) (finish : Finish) : Task → Machine → Nat → Task → Machine → Prop
  | group {inner ty m} :
      Step fuel finish (.expression (.group inner ty)) m 0 (.expression inner) m
  | left {operator left right ty m} :
      Step fuel finish (.expression (.binary operator left right ty)) m 0 (.expression left) m
  | right {operator left right ty m m₁ a} :
      finish (.expression left) m (.value a) m₁ →
      (operator.isLogical → ∃ truth, a.truth = .ok truth ∧ operator.isDecidedBy truth = false) →
      Step fuel finish (.expression (.binary operator left right ty)) m 1 (.expression right) m₁
  | index {name index binding ty m found id} :
      m.scope.lookupVariable name = some found → found.value = .list id →
      Step fuel finish (.expression (.element name index binding ty)) m 0 (.expression index) m
  | arguments {name arguments binding ty m} :
      Step fuel finish (.expression (.call name arguments binding ty)) m 0
        (.expressions arguments) m
  | elements {elements ty m} :
      Step fuel finish (.expression (.list elements ty)) m 0 (.expressions elements) m
  | head {expression expressions m} :
      Step fuel finish (.expressions (expression :: expressions)) m 0 (.expression expression) m
  | tail {expression expressions m m₁ a} :
      finish (.expression expression) m (.value a) m₁ →
      Step fuel finish (.expressions (expression :: expressions)) m 1 (.expressions expressions) m₁
  | receiverIndex {name index binding ty m found id} :
      m.scope.lookupVariable name = some found → found.isMutable → found.value = .list id →
      Step fuel finish (.receiver (.element name index binding ty)) m 0 (.expression index) m
  | effect {expression m} :
      Step fuel finish (.statement (.expression expression)) m 0 (.expression expression) m
  | initial {name typeName value binding m} :
      Step fuel finish (.statement (.declaration name typeName (some value) binding)) m 0
        (.expression value) m
  | receiver {receiver value m} :
      Step fuel finish (.statement (.assignment receiver value)) m 0 (.receiver receiver) m
  | assigned {receiver value m m₁ target} :
      finish (.receiver receiver) m (.target target) m₁ →
      Step fuel finish (.statement (.assignment receiver value)) m 1 (.expression value) m₁
  | branchTest {test thenBody elseBody m} :
      Step fuel finish (.statement (.branch test thenBody elseBody)) m 0 (.expression test) m
  | thenBody {test thenBody elseBody m m₁ a} :
      finish (.expression test) m (.value a) m₁ → a.truth = .ok true →
      Step fuel finish (.statement (.branch test thenBody elseBody)) m 1
        (.statements thenBody) m₁.enter
  | elseBody {test thenBody elseBody m m₁ a} :
      finish (.expression test) m (.value a) m₁ → a.truth = .ok false →
      Step fuel finish (.statement (.branch test thenBody elseBody)) m 2
        (.statements elseBody) m₁.enter
  | switchTest {test cases m} :
      Step fuel finish (.statement (.switch test cases)) m 0 (.expression test) m
  | switchCases {test cases m m₁ selector} :
      finish (.expression test) m (.value selector) m₁ →
      Step fuel finish (.statement (.switch test cases)) m 1 (.cases selector cases) m₁
  | loopTest {test body m rounds m₁} :
      Rounds finish test body m rounds m₁ → rounds < fuel →
      Step fuel finish (.statement (.loop test body)) m 0 (.expression test) m₁
  | loopBody {test body m rounds m₁ m₂ a} :
      Rounds finish test body m rounds m₁ → rounds < fuel →
      finish (.expression test) m₁ (.value a) m₂ → a.truth = .ok true →
      Step fuel finish (.statement (.loop test body)) m 1 (.statements body) m₂.enter
  | result {value m} :
      Step fuel finish (.statement (.result value)) m 0 (.expression value) m
  | first {statement statements m} :
      Step fuel finish (.statements (statement :: statements)) m 0 (.statement statement) m
  | rest {statement statements m m₁} :
      finish (.statement statement) m (.flow .completed) m₁ →
      Step fuel finish (.statements (statement :: statements)) m 1 (.statements statements) m₁
  | defaultBody {selector body cases m} :
      Step fuel finish (.cases selector (.mk none body :: cases)) m 1 (.statements body) m.enter
  | caseValue {selector value body cases m} :
      Step fuel finish (.cases selector (.mk (some value) body :: cases)) m 0 (.expression value) m
  | caseBody {selector value body cases m m₁ a} :
      finish (.expression value) m (.value a) m₁ → selector.order a = .ok .eq →
      Step fuel finish (.cases selector (.mk (some value) body :: cases)) m 1
        (.statements body) m₁.enter
  | otherCases {selector value body cases m m₁ a order} :
      finish (.expression value) m (.value a) m₁ → selector.order a = .ok order → order ≠ .eq →
      Step fuel finish (.cases selector (.mk (some value) body :: cases)) m 2
        (.cases selector cases) m₁

/-! ## Calls -/

/-- Calls inside the body of a function that is called from a given machine. There is room for one
less of them. -/
inductive Deeper (settings : RunSettings) (fuel : Nat) : Calls → Machine → Calls → Prop
  | within {room m} :
      Deeper settings fuel (callWithin settings fuel (room + 1)) m (callWithin settings fuel room)
  | outermost {rest m} :
      room settings m = rest + 1 →
      Deeper settings fuel (call settings fuel) m (callWithin settings fuel rest)

/-- A call of a name with given values enters the body of a function: where calls are limited in
which way, and from which machine to which. -/
inductive Enters (settings : RunSettings) (fuel : Nat) (calls : Calls) (name : String)
    (values : List Value) (m : Machine) : Calls → Function → Machine → Prop
  | mk {inner function home m'} :
      m.scope.lookupFunction name values.length = some (.function function, home) →
      Deeper settings fuel calls m inner →
      bindParameters function.parameters values (m.callee home name values.length) = .ok () m' →
      Enters settings fuel calls name values m inner function m'

/-! ## Visits -/

/-- A task that is taken up in the course of a run. -/
structure Visit where
  calls : Calls
  site : Site
  task : Task
  machine : Machine

/-- In the course of the first task the second one is taken up. -/
inductive Visits (settings : RunSettings) (fuel : Nat) (start : Visit) : Visit → Prop
  | here : Visits settings fuel start start
  | part {calls site task m number task' m'} :
      Visits settings fuel start ⟨calls, site, task, m⟩ →
      Step fuel (performs settings fuel calls) task m number task' m' →
      Visits settings fuel start ⟨calls, site.part number, task', m'⟩
  | body {calls site name arguments binding ty m values m₁ inner function m₂} :
      Visits settings fuel start ⟨calls, site, .expression (.call name arguments binding ty), m⟩ →
      evaluateAll settings calls arguments m = .ok values m₁ →
      Enters settings fuel calls name values m₁ inner function m₂ →
      Visits settings fuel start
        ⟨inner, .body function.name function.arity, .statements function.body, m₂⟩

theorem Visits.trans {settings : RunSettings} {fuel : Nat} {first second third : Visit}
    (h : Visits settings fuel first second) (h' : Visits settings fuel second third) :
    Visits settings fuel first third := by
  induction h' with
  | here => exact h
  | part _ hstep ih => exact .part ih hstep
  | body _ hvalues henters ih => exact .body ih hvalues henters

/-- At a visit an operator is applied to two values, which are there on a machine. -/
inductive Visit.Operates (settings : RunSettings) :
    Visit → Operator → Value → Value → Machine → Prop
  | mk {calls site operator left right ty a b m m₁ m₂} :
      operator.isLogical = false →
      evaluate settings calls left m = .ok a m₁ → evaluate settings calls right m₁ = .ok b m₂ →
      Operates settings ⟨calls, site, .expression (.binary operator left right ty), m⟩ operator a b
        m₂

end Run

/-! ## Whole programs -/

namespace Program

/-- The machine has bound the functions of the program and evaluated the given globals, which are
the first ones of the program. -/
def Initialises (settings : RunSettings) (fuel : Nat) (program : Program) (machine : Machine)
    (globals : List Global) (m : Machine) : Prop :=
  ∃ linked,
    Run.bindFunctions program.functions { machine with scope := .initial } = .ok () linked ∧
      Run.bindGlobals settings fuel globals linked = .ok () m

/-- The task by which a run evaluates the initial value of a global, all globals in front of it
being evaluated. -/
inductive Initial (settings : RunSettings) (fuel : Nat) (program : Program) (machine : Machine)
    (earlier : List Global) (global : Global) (later : List Global) : Run.Visit → Prop
  | mk {value m} :
      program.globals = earlier ++ global :: later → global.value = some value →
      program.Initialises settings fuel machine earlier m →
      Initial settings fuel program machine earlier global later
        ⟨Run.call settings fuel, .initial global.name, .expression value, m⟩

/-- The machine in which a run calls `main`, when the one behind the globals is `m`. -/
def ready (program : Program) (m : Machine) : Machine :=
  { m with notices := .starting program.globals.length program.functions.length :: m.notices }

/-- The task by which a run executes the body of `main`. -/
inductive Main (settings : RunSettings) (fuel : Nat) (program : Program) (machine : Machine) :
    Run.Visit → Prop
  | mk {m calls main m'} :
      program.Initialises settings fuel machine program.globals m →
      Run.Enters settings fuel (Run.call settings fuel) "main" [] (program.ready m) calls main m' →
      Main settings fuel program machine
        ⟨calls, .body main.name main.arity, .statements main.body, m'⟩

/-- A task that a run of a program on a machine takes up. -/
def Visits (settings : RunSettings) (fuel : Nat) (program : Program) (machine : Machine)
    (visit : Run.Visit) : Prop :=
  ∃ start,
    ((∃ earlier global later,
        program.Initial settings fuel machine earlier global later start) ∨
      program.Main settings fuel machine start) ∧
    Run.Visits settings fuel start visit

end Program

end TinyScript
