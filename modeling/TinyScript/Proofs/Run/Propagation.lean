import TinyScript.Proofs.Run.Failure

/-!
# Where failures go

Whatever fails in the course of a task makes the whole task fail in the same way: no construct of
a program takes a failure back. `fails_of_visits` says so, by one lemma for a step into a part and
one for the call of a function.
-/

namespace TinyScript.Run

variable {settings : RunSettings} {fuel : Nat}

/-- A task ends badly. -/
def Fails (settings : RunSettings) (fuel : Nat) (calls : Calls) (task : Task) (m : Machine)
    (halt : Halt) : Prop :=
  ∃ after, perform settings fuel calls task m = .error halt after

section Fails

variable {calls : Calls} {m : Machine} {halt : Halt}

@[simp] theorem fails_expression {expression : Expression} :
    Fails settings fuel calls (.expression expression) m halt ↔
      ∃ after, evaluate settings calls expression m = .error halt after := by
  simp [Fails, perform, map_eq_error]

@[simp] theorem fails_expressions {expressions : List Expression} :
    Fails settings fuel calls (.expressions expressions) m halt ↔
      ∃ after, evaluateAll settings calls expressions m = .error halt after := by
  simp [Fails, perform, map_eq_error]

@[simp] theorem fails_receiver {receiver : Expression} :
    Fails settings fuel calls (.receiver receiver) m halt ↔
      ∃ after, locate settings calls receiver m = .error halt after := by
  simp [Fails, perform, map_eq_error]

@[simp] theorem fails_statement {statement : Statement} :
    Fails settings fuel calls (.statement statement) m halt ↔
      ∃ after, execute settings fuel calls statement m = .error halt after := by
  simp [Fails, perform, map_eq_error]

@[simp] theorem fails_statements {statements : List Statement} :
    Fails settings fuel calls (.statements statements) m halt ↔
      ∃ after, executeAll settings fuel calls statements m = .error halt after := by
  simp [Fails, perform, map_eq_error]

@[simp] theorem fails_cases {selector : Value} {cases : List Case} :
    Fails settings fuel calls (.cases selector cases) m halt ↔
      ∃ after, executeCases settings fuel calls selector cases m = .error halt after := by
  simp [Fails, perform, map_eq_error]

theorem fails_bind {α β : Type} {x : Run α} {f : α → Run β}
    (h : ∃ after, x m = .error halt after) : ∃ after, (x >>= f) m = .error halt after := by
  obtain ⟨after, h⟩ := h
  exact ⟨after, bind_eq_error.mpr (.inl h)⟩

theorem fails_bind_of_ok {α β : Type} {x : Run α} {f : α → Run β} {a : α} {m₁ : Machine}
    (hx : x m = .ok a m₁) (h : ∃ after, f a m₁ = .error halt after) :
    ∃ after, (x >>= f) m = .error halt after := by
  obtain ⟨after, h⟩ := h
  exact ⟨after, bind_eq_error.mpr (.inr ⟨a, m₁, hx, h⟩)⟩

theorem condition_of_performs {test : Expression} {a : Value} {truth : Bool} {m' : Machine}
    (h : performs settings fuel calls (.expression test) m (.value a) m')
    (htruth : a.truth = .ok truth) : condition settings calls test m = .ok truth m' := by
  simp only [condition, bind_eq_ok, ofExcept_eq_ok]
  exact ⟨a, m', performs_expression.mp h, htruth, rfl⟩

theorem fails_condition {test : Expression}
    (h : Fails settings fuel calls (.expression test) m halt) :
    ∃ after, condition settings calls test m = .error halt after :=
  fails_bind (fails_expression.mp h)

theorem fails_inBlock {body : List Statement}
    (h : Fails settings fuel calls (.statements body) m.enter halt) :
    ∃ after, inBlock (executeAll settings fuel calls body) m = .error halt after := by
  obtain ⟨after, h⟩ := fails_statements.mp h
  exact ⟨after.leave, inBlock_eq_error.mpr ⟨after, h, rfl⟩⟩

/-- The rounds that a loop has gone through may be left out. -/
theorem repeatWhile_of_rounds {test : Expression} {body : List Statement} {m₁ : Machine}
    {rounds : Nat} (hrounds : Rounds (performs settings fuel calls) test body m rounds m₁) :
    ∀ left : Nat,
      repeatWhile (condition settings calls test) (inBlock (executeAll settings fuel calls body))
          (rounds + left) m =
        repeatWhile (condition settings calls test) (inBlock (executeAll settings fuel calls body))
          left m₁ := by
  induction hrounds with
  | none =>
      intro left
      rw [Nat.zero_add]
  | @more rounds m₁ m₂ m₃ a _ htest htruth hbody ih =>
      intro left
      rw [Nat.add_right_comm, Nat.add_assoc, ih, repeatWhile,
        bind_of_ok (condition_of_performs htest htruth)]
      simp only [if_true]
      exact bind_of_ok (inBlock_eq_ok.mpr ⟨m₃, performs_statements.mp hbody, rfl⟩)

/-- A loop fails when, in a round that it has, its condition or its body does. -/
theorem fails_loop {test : Expression} {body : List Statement} {m₁ : Machine} {rounds : Nat}
    (hrounds : Rounds (performs settings fuel calls) test body m rounds m₁) (more : rounds < fuel)
    (h : ∀ left, ∃ after,
      repeatWhile (condition settings calls test)
        (inBlock (executeAll settings fuel calls body)) (left + 1) m₁ = .error halt after) :
    Fails settings fuel calls (.statement (.loop test body)) m halt := by
  obtain ⟨after, h⟩ := h (fuel - rounds - 1)
  have whole : fuel = rounds + (fuel - rounds - 1 + 1) := by omega
  rw [← repeatWhile_of_rounds hrounds, ← whole] at h
  rw [fails_statement, execute]
  exact ⟨after, h⟩

/-- A task that looks up a variable which is not there fails. -/
theorem fails_of_lookup {task : Task} {name : String} (hname : task.variable? = some name)
    (hnone : m.scope.lookupVariable name = none) :
    Fails settings fuel calls task m (.failed (.undeclared name)) := by
  have hvariable : variableNamed name m = .error (.failed (.undeclared name)) m :=
    variableNamed_eq_error.mpr ⟨hnone, rfl, rfl⟩
  have hreceiver : receiver name m = .error (.failed (.undeclared name)) m :=
    bind_eq_error.mpr (.inl hvariable)
  cases task with
  | expression whole =>
      rw [fails_expression]
      refine ⟨m, ?_⟩
      cases whole with
      | access | element =>
          cases hname
          rw [evaluate]
          exact bind_eq_error.mpr (.inl hvariable)
      | _ => cases hname
  | receiver whole =>
      rw [fails_receiver]
      refine ⟨m, ?_⟩
      cases whole with
      | access | element =>
          cases hname
          rw [locate]
          exact bind_eq_error.mpr (.inl hreceiver)
      | _ => cases hname
  | _ => cases hname

/-- When a part that a task has gone on to ends badly, so does the task. -/
theorem fails_of_step {task task' : Task} {m' : Machine} {number : Nat}
    (hstep : Step fuel (performs settings fuel calls) task m number task' m')
    (h : Fails settings fuel calls task' m' halt) : Fails settings fuel calls task m halt := by
  cases hstep with
  | group => simpa [evaluate] using h
  | left =>
      rw [fails_expression, evaluate]
      exact fails_bind (fails_expression.mp h)
  | @right operator left right ty _ m₁ a hleft hopen =>
      rw [fails_expression, evaluate]
      refine fails_bind_of_ok (performs_expression.mp hleft) ?_
      cases logical : operator.isLogical with
      | true =>
          -- A logical operator comes to its right side only if the left one has not decided it.
          obtain ⟨truth, htruth, hdecided⟩ := hopen logical
          simp only [if_true]
          refine fails_bind_of_ok (ofExcept_eq_ok.mpr ⟨htruth, rfl⟩) ?_
          simp only [hdecided, Bool.false_eq_true, if_false]
          exact fails_bind (fails_expression.mp h)
      | false =>
          simp only [Bool.false_eq_true, if_false]
          exact fails_bind (fails_expression.mp h)
  | @index name index binding ty _ found id hfound hid =>
      rw [fails_expression, evaluate]
      refine fails_bind_of_ok (variableNamed_eq_ok.mpr ⟨hfound, rfl⟩) ?_
      refine fails_bind_of_ok (ofExcept_eq_ok.mpr ⟨Value.listOf_eq_ok.mpr hid, rfl⟩) ?_
      exact fails_bind (fails_expression.mp h)
  | arguments =>
      rw [fails_expression, evaluate]
      exact fails_bind (fails_expressions.mp h)
  | elements =>
      rw [fails_expression, evaluate]
      exact fails_bind (fails_expressions.mp h)
  | head =>
      rw [fails_expressions, evaluateAll]
      exact fails_bind (fails_expression.mp h)
  | @tail expression expressions _ m₁ a hhead =>
      rw [fails_expressions, evaluateAll]
      refine fails_bind_of_ok (performs_expression.mp hhead) ?_
      exact fails_bind (fails_expressions.mp h)
  | @receiverIndex name index binding ty _ found id hfound hmutable hid =>
      rw [fails_receiver, locate]
      refine fails_bind_of_ok (receiver_eq_ok.mpr ⟨hfound, hmutable, rfl⟩) ?_
      refine fails_bind_of_ok (ofExcept_eq_ok.mpr ⟨Value.listOf_eq_ok.mpr hid, rfl⟩) ?_
      exact fails_bind (fails_expression.mp h)
  | effect =>
      rw [fails_statement, execute]
      exact fails_bind (fails_expression.mp h)
  | initial =>
      rw [fails_statement, execute]
      exact fails_bind (fails_expression.mp h)
  | receiver =>
      rw [fails_statement, execute, assignTo]
      exact fails_bind (fails_bind (fails_receiver.mp h))
  | @assigned receiver value _ m₁ target hreceiver =>
      rw [fails_statement, execute, assignTo]
      refine fails_bind (fails_bind_of_ok (performs_receiver.mp hreceiver) ?_)
      exact fails_bind (fails_expression.mp h)
  | branchTest =>
      rw [fails_statement, execute]
      exact fails_bind (fails_condition h)
  | @thenBody test thenBody elseBody _ m₁ a htest htruth =>
      rw [fails_statement, execute]
      exact fails_bind_of_ok (condition_of_performs htest htruth) (fails_inBlock h)
  | @elseBody test thenBody elseBody _ m₁ a htest htruth =>
      rw [fails_statement, execute]
      exact fails_bind_of_ok (condition_of_performs htest htruth) (fails_inBlock h)
  | switchTest =>
      rw [fails_statement, execute]
      exact fails_bind (fails_expression.mp h)
  | @switchCases test cases _ m₁ selector htest =>
      rw [fails_statement, execute]
      exact fails_bind_of_ok (performs_expression.mp htest) (fails_cases.mp h)
  | loopTest hrounds more =>
      refine fails_loop hrounds more fun left => ?_
      exact fails_bind (fails_condition h)
  | @loopBody test body _ rounds m₁ m₂ a hrounds more htest htruth =>
      refine fails_loop hrounds more fun left => ?_
      refine fails_bind_of_ok (condition_of_performs htest htruth) ?_
      simp only [if_true]
      exact fails_bind (fails_inBlock h)
  | result =>
      rw [fails_statement, execute]
      exact fails_bind (fails_expression.mp h)
  | first =>
      rw [fails_statements, executeAll]
      exact fails_bind (fails_statement.mp h)
  | @rest statement statements _ m₁ hfirst =>
      rw [fails_statements, executeAll]
      exact fails_bind_of_ok (performs_statement.mp hfirst) (fails_statements.mp h)
  | defaultBody =>
      rw [fails_cases, executeCases]
      exact fails_inBlock h
  | caseValue =>
      rw [fails_cases, executeCases]
      exact fails_bind (fails_expression.mp h)
  | @caseBody selector value body cases _ m₁ a hvalue horder =>
      rw [fails_cases, executeCases]
      refine fails_bind_of_ok (performs_expression.mp hvalue) ?_
      refine fails_bind_of_ok (ofExcept_eq_ok.mpr ⟨horder, rfl⟩) ?_
      simp only [if_true]
      exact fails_inBlock h
  | @otherCases selector value body cases _ m₁ a order hvalue horder different =>
      rw [fails_cases, executeCases]
      refine fails_bind_of_ok (performs_expression.mp hvalue) ?_
      refine fails_bind_of_ok (ofExcept_eq_ok.mpr ⟨horder, rfl⟩) ?_
      rw [if_neg different]
      exact fails_cases.mp h

theorem counted_eq_error {α : Type} {action : Run α} {after : Machine}
    (h : action { m with active := m.active + 1 } = .error halt after) :
    counted action m = .error halt { after with active := m.active } := by
  unfold counted
  rw [h]

theorem inCallee_eq_error {α : Type} {action : Run α} {home : RunScope} {after : Machine}
    (h : action { m with scope := home.enter } = .error halt after) :
    inCallee home action m =
      .error halt { after with scope := m.scope.regrow after.scope.leave } := by
  unfold inCallee
  rw [h]

theorem counted_invoke_of_body {home : RunScope} {function : Function} {name : String}
    {values : List Value} {m₂ after : Machine}
    (hbound : bindParameters function.parameters values (m.callee home name values.length) =
      .ok () m₂)
    (h : executeAll settings fuel calls function.body m₂ = .error halt after) :
    counted (invoke settings fuel calls home function values)
      { m with notices := .call name values.length :: m.notices } =
        .error halt (m.resume after) :=
  counted_eq_error (inCallee_eq_error
    (bind_eq_error.mpr (.inr ⟨(), m₂, hbound, bind_eq_error.mpr (.inl h)⟩)))

theorem fails_of_callWithin {room : Nat} {name : String} {values : List Value} {home : RunScope}
    {function : Function} {m₂ : Machine}
    (hfound : m.scope.lookupFunction name values.length = some (.function function, home))
    (hbound : bindParameters function.parameters values (m.callee home name values.length) =
      .ok () m₂)
    (h : Fails settings fuel (callWithin settings fuel room) (.statements function.body) m₂ halt) :
    ∃ after, callWithin settings fuel (room + 1) name values m = .error halt after := by
  obtain ⟨after, h⟩ := fails_statements.mp h
  refine ⟨m.resume after, ?_⟩
  rw [callWithin, dispatch]
  simp only [hfound]
  exact bind_eq_error.mpr (.inr ⟨(), _, rfl, counted_invoke_of_body hbound h⟩)

/-- When the body of a function that a call has entered ends badly, so does the call. -/
theorem fails_of_enters {name : String} {values : List Value} {m₂ : Machine} {inner : Calls}
    {function : Function} (henters : Enters settings fuel calls name values m inner function m₂)
    (h : Fails settings fuel inner (.statements function.body) m₂ halt) :
    ∃ after, calls name values m = .error halt after := by
  obtain ⟨hfound, hdeeper, hbound⟩ := henters
  cases hdeeper with
  | within => exact fails_of_callWithin hfound hbound h
  | outermost hroom =>
      unfold call
      rw [hroom]
      exact fails_of_callWithin hfound hbound h

theorem fails_of_body {name : String} {arguments : List Expression} {binding : Option Signature}
    {ty : Option Ty} {values : List Value} {m₁ m₂ : Machine} {inner : Calls} {function : Function}
    (hvalues : evaluateAll settings calls arguments m = .ok values m₁)
    (henters : Enters settings fuel calls name values m₁ inner function m₂)
    (h : Fails settings fuel inner (.statements function.body) m₂ halt) :
    Fails settings fuel calls (.expression (.call name arguments binding ty)) m halt := by
  rw [fails_expression, evaluate]
  exact fails_bind_of_ok hvalues (fails_of_enters henters h)

end Fails

/-- What ends badly in the course of a task makes the task end in the same way. -/
theorem fails_of_visits {start visit : Visit} {halt : Halt}
    (hvisits : Visits settings fuel start visit)
    (h : Fails settings fuel visit.calls visit.task visit.machine halt) :
    Fails settings fuel start.calls start.task start.machine halt := by
  induction hvisits with
  | here => exact h
  | part _ hstep ih => exact ih (fails_of_step hstep h)
  | body _ hvalues henters ih => exact ih (fails_of_body hvalues henters h)

end TinyScript.Run
