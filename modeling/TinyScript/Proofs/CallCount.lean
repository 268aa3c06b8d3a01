import TinyScript.Tree

/-!
# The calls in a tree

How many calls a tree has bounds how many it makes when it is evaluated, not counting those that are
made inside the functions it calls. A loop makes those of its body once for each round; where there
are no loops, the number of rounds does not matter.
-/

namespace TinyScript

/-! ## Calls in a tree -/

mutual

/-- The number of calls that an expression has. -/
def Expression.callCount : Expression → Nat
  | .literal _ _ => 0
  | .group inner _ => inner.callCount
  | .binary _ left right _ => left.callCount + right.callCount
  | .access _ _ _ => 0
  | .element _ index _ _ => index.callCount
  | .call _ arguments _ _ => callCounts arguments + 1
  | .list elements _ => callCounts elements

/-- The number of calls that expressions have. -/
def callCounts : List Expression → Nat
  | [] => 0
  | expression :: expressions => expression.callCount + callCounts expressions

end

mutual

/-- The number of calls that a statement has, those of a loop counted once for each round. -/
def Statement.callCount (fuel : Nat) : Statement → Nat
  | .expression expression => expression.callCount
  | .declaration _ _ none _ => 0
  | .declaration _ _ (some value) _ => value.callCount
  | .assignment receiver value => receiver.callCount + value.callCount
  | .branch test thenBody elseBody =>
    test.callCount + (bodyCallCount fuel thenBody + bodyCallCount fuel elseBody)
  | .switch test cases => test.callCount + caseCallCount fuel cases
  | .loop test body => fuel * (test.callCount + bodyCallCount fuel body)
  | .result value => value.callCount

/-- The number of calls that statements have. -/
def bodyCallCount (fuel : Nat) : List Statement → Nat
  | [] => 0
  | statement :: statements => statement.callCount fuel + bodyCallCount fuel statements

/-- The number of calls that the cases of a switch have. -/
def caseCallCount (fuel : Nat) : List Case → Nat
  | [] => 0
  | .mk none body :: cases => bodyCallCount fuel body + caseCallCount fuel cases
  | .mk (some value) body :: cases =>
    value.callCount + (bodyCallCount fuel body + caseCallCount fuel cases)

end

mutual

/-- A statement without loops. -/
def Statement.isLoopFree : Statement → Bool
  | .branch _ thenBody elseBody => areLoopFree thenBody && areLoopFree elseBody
  | .switch _ cases => areCasesLoopFree cases
  | .loop _ _ => false
  | _ => true

/-- Statements without loops. -/
def areLoopFree : List Statement → Bool
  | [] => true
  | statement :: statements => statement.isLoopFree && areLoopFree statements

/-- Cases without loops. -/
def areCasesLoopFree : List Case → Bool
  | [] => true
  | .mk _ body :: cases => areLoopFree body && areCasesLoopFree cases

end

mutual

/-- How many rounds there are does not matter where there are no loops. -/
theorem Statement.callCount_of_isLoopFree (fuel fuel' : Nat) : ∀ {statement : Statement},
    statement.isLoopFree → statement.callCount fuel = statement.callCount fuel'
  | .expression _, _ => rfl
  | .declaration _ _ none _, _ => rfl
  | .declaration _ _ (some _) _, _ => rfl
  | .assignment _ _, _ => rfl
  | .branch _ thenBody elseBody, h => by
      simp only [Statement.isLoopFree, Bool.and_eq_true] at h
      simp only [Statement.callCount, bodyCallCount_of_areLoopFree fuel fuel' h.1,
        bodyCallCount_of_areLoopFree fuel fuel' h.2]
  | .switch _ cases, h => by
      simp only [Statement.isLoopFree] at h
      simp only [Statement.callCount, caseCallCount_of_areCasesLoopFree fuel fuel' h]
  | .loop _ _, h => by cases h
  | .result _, _ => rfl

theorem bodyCallCount_of_areLoopFree (fuel fuel' : Nat) : ∀ {statements : List Statement},
    areLoopFree statements → bodyCallCount fuel statements = bodyCallCount fuel' statements
  | [], _ => rfl
  | statement :: statements, h => by
      simp only [areLoopFree, Bool.and_eq_true] at h
      simp only [bodyCallCount, Statement.callCount_of_isLoopFree fuel fuel' h.1,
        bodyCallCount_of_areLoopFree fuel fuel' h.2]

theorem caseCallCount_of_areCasesLoopFree (fuel fuel' : Nat) : ∀ {cases : List Case},
    areCasesLoopFree cases → caseCallCount fuel cases = caseCallCount fuel' cases
  | [], _ => rfl
  | .mk none _ :: _, h | .mk (some _) _ :: _, h => by
      simp only [areCasesLoopFree, Bool.and_eq_true] at h
      simp only [caseCallCount, bodyCallCount_of_areLoopFree fuel fuel' h.1,
        caseCallCount_of_areCasesLoopFree fuel fuel' h.2]

end

/-! ## Calls in a program -/

namespace Program

/-- A program without loops. -/
def isLoopFree (program : Program) : Bool := program.functions.all (areLoopFree ·.body)

/-- The number of calls that the initial values of globals have. -/
def globalCallCount : List Global → Nat
  | [] => 0
  | global :: globals => (global.value.elim 0 Expression.callCount) + globalCallCount globals

/-- The number of calls that the bodies of functions have. -/
def functionCallCount (fuel : Nat) : List Function → Nat
  | [] => 0
  | function :: functions => bodyCallCount fuel function.body + functionCallCount fuel functions

/-- The number of calls that a program has, those of a loop counted once for each round. -/
def callCount (fuel : Nat) (program : Program) : Nat :=
  globalCallCount program.globals + functionCallCount fuel program.functions

theorem bodyCallCount_le {fuel : Nat} {function : Function} {functions : List Function}
    (h : function ∈ functions) :
    bodyCallCount fuel function.body ≤ functionCallCount fuel functions := by
  induction functions with
  | nil => cases h
  | cons first functions ih =>
      simp only [functionCallCount]
      rcases List.mem_cons.mp h with rfl | hmem
      · exact Nat.le_add_right _ _
      · exact Nat.le_add_left_of_le (ih hmem)

theorem callCount_of_isLoopFree (fuel fuel' : Nat) {program : Program} (h : program.isLoopFree) :
    program.callCount fuel = program.callCount fuel' := by
  have hfunctions : ∀ functions : List Function, functions.all (areLoopFree ·.body) →
      functionCallCount fuel functions = functionCallCount fuel' functions := by
    intro functions
    induction functions with
    | nil => exact fun _ => rfl
    | cons function functions ih =>
        intro h
        simp only [List.all_cons, Bool.and_eq_true] at h
        simp only [functionCallCount, bodyCallCount_of_areLoopFree fuel fuel' h.1, ih h.2]
  simp only [callCount, hfunctions program.functions h]

end Program

end TinyScript
