import TinyScript.Proofs.Run.Derivation
import TinyScript.Proofs.Run.Propagation

/-!
# The value of a call

The body of a function is worked through step by step, and on its way the run comes to statements
that return. `ComesToResult` follows the steps, inside one call, to such a statement. It is reached
at most once in a call (`ComesToResult.unique`): whatever the statement stands in ends as soon as it
has ended (`performs_of_step`), so there is no step behind it, in no block, case or round around it.
A body that returns has come to such a statement, and the value is what its expression has come to
(`comesToResult_of_executeAll`).
-/

namespace TinyScript.Run

variable {settings : RunSettings} {fuel : Nat} {calls : Calls} {m m' m₁ : Machine}

/-! ## Coming to a return -/

/-- In the course of a task, and inside the same call, the return of an expression is reached. -/
inductive ComesToResult (settings : RunSettings) (fuel : Nat) (calls : Calls) :
    Task → Machine → Expression → Machine → Prop
  | here {value m} : ComesToResult settings fuel calls (.statement (.result value)) m value m
  | part {task m number task' m₁ value m'} :
      Step fuel (performs settings fuel calls) task m number task' m₁ →
      ComesToResult settings fuel calls task' m₁ value m' →
      ComesToResult settings fuel calls task m value m'

/-- Whether a task is about expressions only. -/
def Task.IsExpression : Task → Prop
  | .expression _ | .expressions _ | .receiver _ => True
  | .statement _ | .statements _ | .cases _ _ => False

theorem Step.isExpression {task task' : Task} {number : Nat} {finish : Finish}
    (hstep : Step fuel finish task m number task' m') (h : task.IsExpression) :
    task'.IsExpression := by
  cases hstep <;> first | exact h | exact trivial

/-- There are no statements in expressions. -/
theorem ComesToResult.not_isExpression {task : Task} {value : Expression}
    (h : ComesToResult settings fuel calls task m value m') : ¬ task.IsExpression := by
  induction h with
  | here => exact id
  | part hstep _ ih => exact fun hexpression => ih (hstep.isExpression hexpression)

@[simp] theorem performs_cases {selector : Value} {cases : List Case} {flow : Flow} :
    performs settings fuel calls (.cases selector cases) m (.flow flow) m' ↔
      executeCases settings fuel calls selector cases m = .ok flow m' := by
  simp [performs, perform, map_eq_ok]

/-! ## A return ends what it stands in -/

theorem inBlock_of_performs {body : List Statement} {flow : Flow}
    (h : performs settings fuel calls (.statements body) m.enter (.flow flow) m') :
    inBlock (executeAll settings fuel calls body) m = .ok flow m'.leave :=
  inBlock_eq_ok.mpr ⟨m', performs_statements.mp h, rfl⟩

/-- What a part of a task returns, the task returns, if the part is about statements. -/
theorem performs_of_step {task task' : Task} {number : Nat} {v : Value}
    (hstep : Step fuel (performs settings fuel calls) task m number task' m₁)
    (hstatement : ¬ task'.IsExpression)
    (h : performs settings fuel calls task' m₁ (.flow (.returned v)) m') :
    ∃ m'', performs settings fuel calls task m (.flow (.returned v)) m'' := by
  cases hstep with
  | thenBody htest htruth | elseBody htest htruth =>
      refine ⟨m'.leave, performs_statement.mpr ?_⟩
      rw [execute, bind_of_ok (condition_of_performs htest htruth)]
      exact inBlock_of_performs h
  | switchCases htest =>
      refine ⟨m', performs_statement.mpr ?_⟩
      rw [execute, bind_of_ok (performs_expression.mp htest)]
      exact performs_cases.mp h
  | @loopBody test body _ rounds m₁ _ _ hrounds more htest htruth =>
      refine ⟨m'.leave, performs_statement.mpr ?_⟩
      have hwhole : fuel = rounds + (fuel - rounds - 1 + 1) := by omega
      rw [execute, congrArg (repeatWhile _ _) hwhole, repeatWhile_of_rounds hrounds, repeatWhile,
        bind_of_ok (condition_of_performs htest htruth)]
      exact bind_of_ok (inBlock_of_performs h)
  | first =>
      refine ⟨m', performs_statements.mpr ?_⟩
      rw [executeAll, bind_of_ok (performs_statement.mp h)]
      rfl
  | rest hfirst =>
      refine ⟨m', performs_statements.mpr ?_⟩
      rw [executeAll, bind_of_ok (performs_statement.mp hfirst)]
      exact performs_statements.mp h
  | defaultBody =>
      refine ⟨m'.leave, performs_cases.mpr ?_⟩
      rw [executeCases]
      exact inBlock_of_performs h
  | caseBody hvalue horder =>
      refine ⟨m'.leave, performs_cases.mpr ?_⟩
      rw [executeCases, bind_of_ok (performs_expression.mp hvalue),
        bind_of_ok (ofExcept_eq_ok.mpr ⟨horder, rfl⟩), if_pos rfl]
      exact inBlock_of_performs h
  | otherCases hvalue horder different =>
      refine ⟨m', performs_cases.mpr ?_⟩
      rw [executeCases, bind_of_ok (performs_expression.mp hvalue),
        bind_of_ok (ofExcept_eq_ok.mpr ⟨horder, rfl⟩), if_neg different]
      exact performs_cases.mp h
  | _ => exact absurd trivial hstatement

namespace ComesToResult

variable {task : Task} {value : Expression}

/-- A task that comes to a return returns what the expression comes to. -/
theorem performs {v : Value} {m₂ : Machine}
    (h : ComesToResult settings fuel calls task m value m₁)
    (hvalue : evaluate settings calls value m₁ = .ok v m₂) :
    ∃ m', Run.performs settings fuel calls task m (.flow (.returned v)) m' := by
  induction h with
  | here =>
      refine ⟨m₂, performs_statement.mpr ?_⟩
      rw [execute, bind_of_ok hvalue]
      rfl
  | part hstep hrest ih =>
      obtain ⟨m', hreturned⟩ := ih hvalue
      exact performs_of_step hstep hrest.not_isExpression hreturned

/-- A task that comes to a return fails when the expression does. -/
theorem fails {halt : Halt} {m₂ : Machine}
    (h : ComesToResult settings fuel calls task m value m₁)
    (hvalue : evaluate settings calls value m₁ = .error halt m₂) :
    Fails settings fuel calls task m halt := by
  induction h with
  | here => exact fails_of_step .result (fails_expression.mpr ⟨m₂, hvalue⟩)
  | part hstep _ ih => exact fails_of_step hstep (ih hvalue)

/-- A task that comes to a return does not complete. -/
theorem not_completed (h : ComesToResult settings fuel calls task m value m₁) :
    ¬ Run.performs settings fuel calls task m (.flow .completed) m' := by
  intro hcompleted
  cases hvalue : evaluate settings calls value m₁ with
  | ok v m₂ =>
      obtain ⟨_, hreturned⟩ := h.performs hvalue
      cases hreturned.symm.trans hcompleted
  | error halt m₂ =>
      obtain ⟨_, hfails⟩ := h.fails hvalue
      cases hfails.symm.trans hcompleted

end ComesToResult

/-! ## There is one way -/

theorem performs_unique {task : Task} {product product' : Product} {m₂ : Machine}
    (h : performs settings fuel calls task m product m₁)
    (h' : performs settings fuel calls task m product' m₂) : product' = product ∧ m₂ = m₁ := by
  cases h.symm.trans h'
  exact ⟨rfl, rfl⟩

section Rounds

variable {test : Expression} {body : List Statement} {rounds rounds' : Nat} {m₂ m₃ : Machine}

theorem Rounds.unique (h : Rounds (performs settings fuel calls) test body m rounds m₁)
    (h' : Rounds (performs settings fuel calls) test body m rounds m₂) : m₂ = m₁ := by
  induction h generalizing m₂ with
  | none =>
      cases h'
      rfl
  | more _ htest _ hbody ih =>
      cases h' with
      | more hrounds' htest' _ hbody' =>
          obtain rfl := ih hrounds'
          obtain ⟨-, rfl⟩ := performs_unique htest htest'
          obtain ⟨-, rfl⟩ := performs_unique hbody hbody'
          rfl

/-- Each round that a loop has gone through is over, and its body has completed. -/
theorem Rounds.completed (h : Rounds (performs settings fuel calls) test body m rounds m₁)
    (hless : rounds' < rounds) :
    ∃ m₂ m₃ m₄ a, Rounds (performs settings fuel calls) test body m rounds' m₂ ∧
      performs settings fuel calls (.expression test) m₂ (.value a) m₃ ∧
      performs settings fuel calls (.statements body) m₃.enter (.flow .completed) m₄ := by
  induction h with
  | none => exact absurd hless (Nat.not_lt_zero _)
  | @more earlier _ _ _ _ hrounds htest _ hbody ih =>
      rcases Nat.lt_succ_iff_lt_or_eq.mp hless with hless | rfl
      · exact ih hless
      · exact ⟨_, _, _, _, hrounds, htest, hbody⟩

/-- Behind a round whose body comes to a return there is no other one. -/
theorem Rounds.le_of_comesToResult {value : Expression} {a : Value}
    (h : Rounds (performs settings fuel calls) test body m rounds m₁)
    (htest : performs settings fuel calls (.expression test) m₁ (.value a) m₂)
    (hbody : ComesToResult settings fuel calls (.statements body) m₂.enter value m')
    (h' : Rounds (performs settings fuel calls) test body m rounds' m₃) : rounds' ≤ rounds := by
  refine Nat.le_of_not_lt fun hless => ?_
  obtain ⟨_, _, _, _, hrounds, htest', hcompleted⟩ := h'.completed hless
  obtain rfl := h.unique hrounds
  obtain ⟨-, rfl⟩ := performs_unique htest htest'
  exact hbody.not_completed hcompleted

end Rounds

/-- Of the parts of a task at most one comes to a return, and from one machine only. -/
theorem step_unique {task task₁ task₂ : Task} {number number' : Nat} {value value' : Expression}
    {m₂ m'' : Machine}
    (hstep : Step fuel (performs settings fuel calls) task m number task₁ m₁)
    (h : ComesToResult settings fuel calls task₁ m₁ value m')
    (hstep' : Step fuel (performs settings fuel calls) task m number' task₂ m₂)
    (h' : ComesToResult settings fuel calls task₂ m₂ value' m'') : task₂ = task₁ ∧ m₂ = m₁ := by
  have hstatement := h.not_isExpression
  have hstatement' := h'.not_isExpression
  cases hstep with
  | thenBody htest htruth =>
      cases hstep' with
      | thenBody htest' _ =>
          obtain ⟨-, rfl⟩ := performs_unique htest htest'
          exact ⟨rfl, rfl⟩
      | elseBody htest' htruth' =>
          obtain ⟨hsame, -⟩ := performs_unique htest htest'
          cases hsame
          cases htruth.symm.trans htruth'
      | _ => exact absurd trivial hstatement'
  | elseBody htest htruth =>
      cases hstep' with
      | elseBody htest' _ =>
          obtain ⟨-, rfl⟩ := performs_unique htest htest'
          exact ⟨rfl, rfl⟩
      | thenBody htest' htruth' =>
          obtain ⟨hsame, -⟩ := performs_unique htest htest'
          cases hsame
          cases htruth.symm.trans htruth'
      | _ => exact absurd trivial hstatement'
  | switchCases htest =>
      cases hstep' with
      | switchCases htest' =>
          obtain ⟨hsame, rfl⟩ := performs_unique htest htest'
          cases hsame
          exact ⟨rfl, rfl⟩
      | _ => exact absurd trivial hstatement'
  | loopBody hrounds _ htest _ =>
      cases hstep' with
      | loopBody hrounds' _ htest' _ =>
          obtain rfl := Nat.le_antisymm (hrounds'.le_of_comesToResult htest' h' hrounds)
            (hrounds.le_of_comesToResult htest h hrounds')
          obtain rfl := hrounds.unique hrounds'
          obtain ⟨-, rfl⟩ := performs_unique htest htest'
          exact ⟨rfl, rfl⟩
      | _ => exact absurd trivial hstatement'
  | first =>
      cases hstep' with
      | first => exact ⟨rfl, rfl⟩
      | rest hfirst => exact absurd hfirst h.not_completed
  | rest hfirst =>
      cases hstep' with
      | first => exact absurd hfirst h'.not_completed
      | rest hfirst' =>
          obtain ⟨-, rfl⟩ := performs_unique hfirst hfirst'
          exact ⟨rfl, rfl⟩
  | defaultBody =>
      cases hstep' with
      | defaultBody => exact ⟨rfl, rfl⟩
  | caseBody hvalue horder =>
      cases hstep' with
      | caseBody hvalue' _ =>
          obtain ⟨-, rfl⟩ := performs_unique hvalue hvalue'
          exact ⟨rfl, rfl⟩
      | otherCases hvalue' horder' different =>
          obtain ⟨hsame, -⟩ := performs_unique hvalue hvalue'
          cases hsame
          cases horder.symm.trans horder'
          exact absurd rfl different
      | _ => exact absurd trivial hstatement'
  | otherCases hvalue horder different =>
      cases hstep' with
      | otherCases hvalue' _ _ =>
          obtain ⟨-, rfl⟩ := performs_unique hvalue hvalue'
          exact ⟨rfl, rfl⟩
      | caseBody hvalue' horder' =>
          obtain ⟨hsame, -⟩ := performs_unique hvalue hvalue'
          cases hsame
          cases horder.symm.trans horder'
          exact absurd rfl different
      | _ => exact absurd trivial hstatement'
  | _ => exact absurd trivial hstatement

/-- In the course of a task one return is reached at most. -/
theorem ComesToResult.unique {task : Task} {value value' : Expression} {m₂ : Machine}
    (h : ComesToResult settings fuel calls task m value m₁)
    (h' : ComesToResult settings fuel calls task m value' m₂) : value' = value ∧ m₂ = m₁ := by
  induction h with
  | here =>
      cases h' with
      | here => exact ⟨rfl, rfl⟩
      | part hstep hrest =>
          cases hstep
          exact absurd trivial hrest.not_isExpression
  | part hstep hrest ih =>
      cases h' with
      | here =>
          cases hstep
          exact absurd trivial hrest.not_isExpression
      | part hstep' hrest' =>
          obtain ⟨rfl, rfl⟩ := step_unique hstep hrest hstep' hrest'
          exact ih hrest'

/-! ## What is returned has been reached -/

/-- A task has come to a return whose expression has come to a value. -/
def ReturnsFrom (settings : RunSettings) (fuel : Nat) (calls : Calls) (task : Task) (m : Machine)
    (v : Value) : Prop :=
  ∃ value m₁ m₂, ComesToResult settings fuel calls task m value m₁ ∧
    evaluate settings calls value m₁ = .ok v m₂

theorem ReturnsFrom.part {task task' : Task} {number : Nat} {v : Value}
    (h : ReturnsFrom settings fuel calls task' m₁ v)
    (hstep : Step fuel (performs settings fuel calls) task m number task' m₁) :
    ReturnsFrom settings fuel calls task m v := by
  obtain ⟨value, m₂, m₃, hresult, hvalue⟩ := h
  exact ⟨value, m₂, m₃, .part hstep hresult, hvalue⟩

theorem performs_of_condition_eq_ok {test : Expression} {truth : Bool}
    (h : condition settings calls test m = .ok truth m') :
    ∃ a, performs settings fuel calls (.expression test) m (.value a) m' ∧
      a.truth = .ok truth := by
  simp only [condition, bind_eq_ok, ofExcept_eq_ok] at h
  obtain ⟨a, _, htest, htruth, rfl⟩ := h
  exact ⟨a, performs_expression.mpr htest, htruth⟩

/-- A loop that returns after some rounds. The induction is on the rounds that are left; what its
body returns is reached in the course of the whole loop. -/
theorem returnsFrom_of_repeatWhile {test : Expression} {body : List Statement} {v : Value}
    (hbody : ∀ {m m' : Machine}, executeAll settings fuel calls body m = .ok (.returned v) m' →
      ReturnsFrom settings fuel calls (.statements body) m v) :
    ∀ (left : Nat) {rounds : Nat} {m₁ : Machine},
      Rounds (performs settings fuel calls) test body m rounds m₁ → rounds + left = fuel →
      repeatWhile (condition settings calls test)
          (inBlock (executeAll settings fuel calls body)) left m₁ = .ok (.returned v) m' →
        ReturnsFrom settings fuel calls (.statement (.loop test body)) m v := by
  intro left
  induction left with
  | zero =>
      intro rounds m₁ _ _ h
      cases h
  | succ left ih =>
      intro rounds m₁ hrounds hleft h
      simp only [repeatWhile, bind_eq_ok] at h
      obtain ⟨truth, m₂, hcondition, h⟩ := h
      obtain ⟨a, htest, htruth⟩ := performs_of_condition_eq_ok hcondition
      cases truth with
      | false =>
          simp only [Bool.false_eq_true, if_false, pure_eq_ok, reduceCtorEq, false_and] at h
      | true =>
          simp only [if_true, bind_eq_ok, inBlock_eq_ok] at h
          obtain ⟨flow, _, ⟨after, hround, rfl⟩, h⟩ := h
          cases flow with
          | completed =>
              exact ih (.more hrounds htest htruth (performs_statements.mpr hround)) (by omega) h
          | returned v' =>
              obtain ⟨hsame, -⟩ := pure_eq_ok.mp h
              cases hsame
              exact (hbody hround).part (.loopBody hrounds (by omega) htest htruth)

-- By recursion on the statements: what a statement returns, one of its parts has returned.
mutual

theorem returnsFrom_of_execute {v : Value} : ∀ (statement : Statement) {m m' : Machine},
    execute settings fuel calls statement m = .ok (.returned v) m' →
      ReturnsFrom settings fuel calls (.statement statement) m v
  | .expression _, _, _, h | .declaration _ _ none _, _, _, h | .declaration _ _ (some _) _, _, _, h
  | .assignment _ _, _, _, h => by
      simp only [execute, bind_eq_ok, pure_eq_ok, reduceCtorEq, false_and, and_false,
        exists_false] at h
  | .branch test thenBody elseBody, m, m', h => by
      simp only [execute, bind_eq_ok] at h
      obtain ⟨truth, m₁, hcondition, h⟩ := h
      obtain ⟨a, htest, htruth⟩ := performs_of_condition_eq_ok hcondition
      cases truth with
      | true =>
          simp only [if_true, inBlock_eq_ok] at h
          obtain ⟨after, hbody, rfl⟩ := h
          exact (returnsFrom_of_executeAll thenBody hbody).part (.thenBody htest htruth)
      | false =>
          simp only [Bool.false_eq_true, if_false, inBlock_eq_ok] at h
          obtain ⟨after, hbody, rfl⟩ := h
          exact (returnsFrom_of_executeAll elseBody hbody).part (.elseBody htest htruth)
  | .switch test cases, m, m', h => by
      simp only [execute, bind_eq_ok] at h
      obtain ⟨selector, m₁, htest, h⟩ := h
      exact (returnsFrom_of_executeCases cases h).part
        (.switchCases (performs_expression.mpr htest))
  | .loop test body, m, m', h =>
      returnsFrom_of_repeatWhile (returnsFrom_of_executeAll body) fuel .none (by omega) h
  | .result value, m, m', h => by
      simp only [execute, bind_eq_ok, pure_eq_ok, Flow.returned.injEq] at h
      obtain ⟨_, _, hvalue, rfl, rfl⟩ := h
      exact ⟨value, m, _, .here, hvalue⟩

theorem returnsFrom_of_executeAll {v : Value} : ∀ (statements : List Statement) {m m' : Machine},
    executeAll settings fuel calls statements m = .ok (.returned v) m' →
      ReturnsFrom settings fuel calls (.statements statements) m v
  | [], m, m', h => by
      simp only [executeAll, pure_eq_ok, reduceCtorEq, false_and] at h
  | statement :: statements, m, m', h => by
      simp only [executeAll, bind_eq_ok] at h
      obtain ⟨flow, m₁, hfirst, h⟩ := h
      cases flow with
      | completed =>
          exact (returnsFrom_of_executeAll statements h).part
            (.rest (performs_statement.mpr hfirst))
      | returned v' =>
          obtain ⟨hsame, -⟩ := pure_eq_ok.mp h
          cases hsame
          exact (returnsFrom_of_execute statement hfirst).part .first

theorem returnsFrom_of_executeCases {v selector : Value} : ∀ (cases : List Case) {m m' : Machine},
    executeCases settings fuel calls selector cases m = .ok (.returned v) m' →
      ReturnsFrom settings fuel calls (.cases selector cases) m v
  | [], m, m', h => by
      simp only [executeCases, pure_eq_ok, reduceCtorEq, false_and] at h
  | .mk none body :: cases, m, m', h => by
      simp only [executeCases, inBlock_eq_ok] at h
      obtain ⟨after, hbody, rfl⟩ := h
      exact (returnsFrom_of_executeAll body hbody).part .defaultBody
  | .mk (some value) body :: cases, m, m', h => by
      simp only [executeCases, bind_eq_ok, ofExcept_eq_ok] at h
      obtain ⟨a, m₁, hvalue, order, _, ⟨horder, rfl⟩, h⟩ := h
      have hvalue : performs settings fuel calls (.expression value) m (.value a) m₁ :=
        performs_expression.mpr hvalue
      split at h
      · next equal =>
          subst equal
          obtain ⟨after, hbody, rfl⟩ := inBlock_eq_ok.mp h
          exact (returnsFrom_of_executeAll body hbody).part (.caseBody hvalue horder)
      · next different =>
          exact (returnsFrom_of_executeCases cases h).part (.otherCases hvalue horder different)

end

end TinyScript.Run
