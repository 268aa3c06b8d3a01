import Mathlib.Algebra.Group.Nat.Defs
import TinyScript.Proofs.Run.Spending

/-!
# The account of the evaluator

When every call costs at most `cost`, a tree with so many calls costs as many times `cost`. A call
with room for `room` more inside it costs at most `(K + 1) ^ room`, where `K` bounds the calls that
the body of a function has: one for itself, and `K` times the cost of a call with less room. So a
run makes at most so many calls as its program, its settings and the rounds of its loops allow,
leaves the number of calls under way as it was, whether it ends well or badly, and runs out of
rounds in a loop only.
-/

namespace TinyScript

open Run

namespace Run

variable {P : Function → Prop} {dry : Prop} {settings : RunSettings} {fuel : Nat} {calls : Calls}
  {cost : Nat}

/-! ## Expressions -/

theorem spends_operate (operator : Operator) (a b : Value) :
    Spends P dry 0 (operate settings operator a b) := by
  intro m
  unfold operate
  split
  · exact fun _ => .error nofun .refl
  · exact Spends.ofExcept _ m

theorem spends_elementOf (name : String) (id : ListId) (position : Value) :
    Spends P dry 0 (elementOf name id position) :=
  .free_bind (.itemsOf id) fun _ => .free_bind (.ofExcept _) fun _ => .pure _

mutual

theorem spends_evaluate (hcalls : ∀ name values, Spends P dry cost (calls name values)) :
    ∀ expression, Spends P dry (expression.callCount * cost) (evaluate settings calls expression)
  | .literal _ _ => by
      unfold evaluate
      exact .pure _
  | .group inner _ => by
      unfold evaluate
      exact spends_evaluate hcalls inner
  | .binary operator left right _ => by
      unfold evaluate
      rw [Expression.callCount, Nat.add_mul]
      refine .bind (spends_evaluate hcalls left) fun a => ?_
      split
      · refine .free_bind (.ofExcept _) fun truth => ?_
        split
        · exact .pure _
        · exact .bind_free (spends_evaluate hcalls right) fun _ =>
            .free_bind (.ofExcept _) fun _ => .pure _
      · exact .bind_free (spends_evaluate hcalls right) fun _ => spends_operate operator _ _
  | .access name _ _ => by
      unfold evaluate
      exact .free_bind (.variableNamed name) fun _ => .pure _
  | .element name index _ _ => by
      unfold evaluate
      exact .free_bind (.variableNamed name) fun _ => .free_bind (.ofExcept _) fun _ =>
        .bind_free (spends_evaluate hcalls index) fun _ => spends_elementOf name _ _
  | .call name arguments _ _ => by
      unfold evaluate
      rw [Expression.callCount, Nat.succ_mul]
      exact .bind (spends_evaluateAll hcalls arguments) fun values => hcalls name values
  | .list elements _ => by
      unfold evaluate
      exact .bind_free (spends_evaluateAll hcalls elements) fun _ => .newList _

theorem spends_evaluateAll (hcalls : ∀ name values, Spends P dry cost (calls name values)) :
    ∀ expressions,
      Spends P dry (callCounts expressions * cost) (evaluateAll settings calls expressions)
  | [] => by
      unfold evaluateAll
      exact .pure _
  | expression :: expressions => by
      unfold evaluateAll
      rw [callCounts, Nat.add_mul]
      exact .bind (spends_evaluate hcalls expression) fun _ =>
        .bind_free (spends_evaluateAll hcalls expressions) fun _ => .pure _

end

/-! ## Statements -/

theorem spends_condition (hcalls : ∀ name values, Spends P dry cost (calls name values))
    (test : Expression) :
    Spends P dry (test.callCount * cost) (condition settings calls test) :=
  .bind_free (spends_evaluate hcalls test) fun _ => .ofExcept _

theorem spends_receiver (name : String) : Spends P dry 0 (receiver name) := by
  refine .free_bind (.variableNamed name) fun found => ?_
  split
  · exact .pure _
  · exact .fail _

theorem spends_locate (hcalls : ∀ name values, Spends P dry cost (calls name values))
    (receiver : Expression) :
    Spends P dry (receiver.callCount * cost) (locate settings calls receiver) := by
  cases receiver with
  | access name binding ty => exact .free_bind (spends_receiver name) fun _ => .pure _
  | element name index binding ty =>
      exact .free_bind (spends_receiver name) fun _ => .free_bind (.ofExcept _) fun _ =>
        .bind_free (spends_evaluate hcalls index) fun _ => .pure _
  | _ => exact .fail _

theorem spends_store (target : Target) (value : Value) : Spends P dry 0 (store target value) := by
  cases target with
  | whole name => exact .assign name value
  | slot name id position =>
      exact .free_bind (.itemsOf id) fun _ => .free_bind (.ofExcept _) fun _ => .put id _ value

theorem spends_assignTo (hcalls : ∀ name values, Spends P dry cost (calls name values))
    (receiver value : Expression) :
    Spends P dry (receiver.callCount * cost + value.callCount * cost)
      (assignTo settings calls receiver value) :=
  .bind (spends_locate hcalls receiver) fun _ =>
    .bind_free (spends_evaluate hcalls value) fun _ => spends_store _ _

/-- A loop pays for its condition and its body in every round. -/
theorem spends_repeatWhile {count count' : Nat} {test : Run Bool} {body : Run Flow} (hdry : dry)
    (htest : Spends P dry count test) (hbody : Spends P dry count' body) :
    ∀ rounds, Spends P dry (rounds * (count + count')) (repeatWhile test body rounds) := by
  intro rounds
  induction rounds with
  | zero => exact fun _ _ => .error (fun _ => hdry) .refl
  | succ rounds ih =>
      have hround : count + (count' + rounds * (count + count')) ≤
          (rounds + 1) * (count + count') := by
        rw [Nat.succ_mul]
        omega
      unfold repeatWhile
      refine Spends.mono (.bind htest fun holds => ?_) hround
      split
      · refine .bind hbody fun flow => ?_
        cases flow with
        | completed => exact ih
        | returned value => exact .pure _
      · exact .pure _

mutual

theorem spends_execute (hcalls : ∀ name values, Spends P dry cost (calls name values)) :
    ∀ statement, (statement.isLoopFree = false → dry) →
      Spends P dry (statement.callCount fuel * cost) (execute settings fuel calls statement)
  | .expression expression, _ => by
      unfold execute
      exact .bind_free (spends_evaluate hcalls expression) fun _ => .pure _
  | .declaration name _ none _, _ => by
      unfold execute
      exact .free_bind (.define name true .nil) fun _ => .pure _
  | .declaration name _ (some value) _, _ => by
      unfold execute
      exact .bind_free (spends_evaluate hcalls value) fun v =>
        .free_bind (.define name true v) fun _ => .pure _
  | .assignment receiver value, _ => by
      unfold execute
      rw [Statement.callCount, Nat.add_mul]
      exact .bind_free (spends_assignTo hcalls receiver value) fun _ => .pure _
  | .branch test thenBody elseBody, hdry => by
      simp only [Statement.isLoopFree, Bool.and_eq_false_iff] at hdry
      unfold execute
      rw [Statement.callCount, Nat.add_mul, Nat.add_mul]
      refine .bind (spends_condition hcalls test) fun holds => ?_
      split
      · exact (Spends.inBlock (spends_executeAll hcalls thenBody fun h => hdry (.inl h))).mono
          (Nat.le_add_right _ _)
      · exact (Spends.inBlock (spends_executeAll hcalls elseBody fun h => hdry (.inr h))).mono
          (Nat.le_add_left _ _)
  | .switch test cases, hdry => by
      unfold execute
      rw [Statement.callCount, Nat.add_mul]
      exact .bind (spends_evaluate hcalls test) fun selector =>
        spends_executeCases hcalls selector cases hdry
  | .loop test body, hdry => by
      unfold execute
      rw [Statement.callCount, Nat.mul_assoc, Nat.add_mul]
      exact spends_repeatWhile (hdry rfl) (spends_condition hcalls test)
        (.inBlock (spends_executeAll hcalls body fun _ => hdry rfl)) fuel
  | .result value, _ => by
      unfold execute
      exact .bind_free (spends_evaluate hcalls value) fun _ => .pure _

theorem spends_executeAll (hcalls : ∀ name values, Spends P dry cost (calls name values)) :
    ∀ statements, (areLoopFree statements = false → dry) →
      Spends P dry (bodyCallCount fuel statements * cost)
        (executeAll settings fuel calls statements)
  | [], _ => by
      unfold executeAll
      exact .pure _
  | statement :: statements, hdry => by
      simp only [areLoopFree, Bool.and_eq_false_iff] at hdry
      unfold executeAll
      rw [bodyCallCount, Nat.add_mul]
      refine .bind (spends_execute hcalls statement fun h => hdry (.inl h)) fun flow => ?_
      cases flow with
      | completed => exact spends_executeAll hcalls statements fun h => hdry (.inr h)
      | returned value => exact .pure _

theorem spends_executeCases (hcalls : ∀ name values, Spends P dry cost (calls name values))
    (selector : Value) :
    ∀ cases, (areCasesLoopFree cases = false → dry) →
      Spends P dry (caseCallCount fuel cases * cost)
        (executeCases settings fuel calls selector cases)
  | [], _ => by
      unfold executeCases
      exact .pure _
  | .mk none body :: _, hdry => by
      simp only [areCasesLoopFree, Bool.and_eq_false_iff] at hdry
      unfold executeCases
      rw [caseCallCount, Nat.add_mul]
      exact (Spends.inBlock (spends_executeAll hcalls body fun h => hdry (.inl h))).mono
        (Nat.le_add_right _ _)
  | .mk (some value) body :: cases, hdry => by
      simp only [areCasesLoopFree, Bool.and_eq_false_iff] at hdry
      unfold executeCases
      rw [caseCallCount, Nat.add_mul, Nat.add_mul]
      refine .bind (spends_evaluate hcalls value) fun v => .free_bind (.ofExcept _) fun order => ?_
      split
      · exact (Spends.inBlock (spends_executeAll hcalls body fun h => hdry (.inl h))).mono
          (Nat.le_add_right _ _)
      · exact (spends_executeCases hcalls selector cases fun h => hdry (.inr h)).mono
          (Nat.le_add_left _ _)

end

/-! ## Calls -/

theorem spends_bindParameters : ∀ (parameters : List Parameter) (values : List Value),
    Spends P dry 0 (bindParameters parameters values)
  | [], _ => .pure _
  | _ :: _, [] => .pure _
  | parameter :: parameters, value :: values =>
      .free_bind (.define parameter.name true value) fun _ =>
        spends_bindParameters parameters values

theorem spends_printEach : ∀ texts : List String, Spends P dry 0 (printEach texts)
  | [] => .pure _
  | text :: texts => .free_bind (.print text) fun _ => spends_printEach texts

theorem spends_printAll : ∀ values : List Value, Spends P dry 0 (printAll values)
  | [] => .pure _
  | value :: values =>
      .free_bind (.piecesOf value) fun pieces =>
        .free_bind (.free_bind (spends_printEach pieces) fun _ => .print "\n") fun _ =>
          spends_printAll values

/-- A function that a run may bind: its body has no more than so many calls, and loops only if the
run may run out of rounds. -/
structure Affordable (fuel bound : Nat) (dry : Prop) (function : Function) : Prop where
  calls : bodyCallCount fuel function.body ≤ bound
  loops : areLoopFree function.body = false → dry

variable {bound : Nat}

theorem spends_invoke (hcalls : ∀ name values, Spends P dry cost (calls name values))
    {home : RunScope} (hhome : Scope.Binds P home) {function : Function}
    (hfunction : Affordable fuel bound dry function) (values : List Value) :
    Spends P dry (bound * cost) (invoke settings fuel calls home function values) := by
  refine .inCallee hhome (.free_bind (spends_bindParameters _ _) fun _ => .bind_free
    ((spends_executeAll hcalls function.body hfunction.loops).mono
      (Nat.mul_le_mul_right cost hfunction.calls)) fun flow => ?_)
  cases flow <;> exact .pure _

theorem spends_dispatch {count : Nat} {invokes : RunScope → Function → List Value → Run Value}
    (hinvokes : ∀ home function values, Scope.Binds P home → P function →
      Spends P dry count (invokes home function values)) (name : String) (values : List Value) :
    Spends P dry (1 + count) (dispatch invokes name values) := by
  intro m hm
  unfold dispatch
  cases hfound : m.scope.lookupFunction name values.length with
  | none => exact Spends.fail _ m hm
  | some found =>
      obtain ⟨callable, home⟩ := found
      obtain ⟨hhome, hfunction⟩ := hm.lookupFunction hfound
      refine Spends.bind (.notify _) (fun _ => ?_) m hm
      cases callable with
      | print =>
          exact (Spends.free_bind (spends_printAll values) fun _ => .pure _).mono (Nat.zero_le _)
      | function function => exact hinvokes home function values hhome (hfunction function rfl)

/-- A call pays for itself and, with less room, for the calls in the body of the function. -/
theorem spends_callWithin : ∀ room name values,
    Spends (Affordable fuel bound dry) dry ((bound + 1) ^ room)
      (callWithin settings fuel room name values) := by
  intro room
  induction room with
  | zero =>
      intro name values
      show Spends _ _ (1 + 0) _
      exact spends_dispatch (fun _ _ _ _ _ => .fail _) name values
  | succ room ih =>
      intro name values
      refine (spends_dispatch (fun _ _ values hhome hfunction =>
        .counted (spends_invoke ih hhome hfunction values)) name values).mono ?_
      have hpositive : 0 < (bound + 1) ^ room := Nat.pow_pos (Nat.succ_pos bound)
      rw [Nat.pow_succ, Nat.mul_succ, Nat.mul_comm bound]
      omega

theorem spends_call (name : String) (values : List Value) :
    Spends (Affordable fuel bound dry) dry ((bound + 1) ^ settings.maxCallDepth)
      (call settings fuel name values) :=
  fun m => (spends_callWithin (room settings m) name values).mono
    (Nat.pow_le_pow_right (Nat.succ_pos bound) (Nat.sub_le _ _)) m

theorem spends_value (expression : Expression) :
    Spends (Affordable fuel bound dry) dry
      (expression.callCount * (bound + 1) ^ settings.maxCallDepth)
      (value settings fuel expression) :=
  spends_evaluate spends_call expression

/-! ## Whole programs -/

theorem spends_bindFunctions : ∀ {functions : List Function}, (∀ function ∈ functions, P function) →
    Spends P dry 0 (bindFunctions functions)
  | [], _ => .pure _
  | function :: functions, h => by
      refine .free_bind (fun m hm => ?_) fun _ =>
        spends_bindFunctions fun other hother => h other (List.mem_cons_of_mem _ hother)
      split
      · next hdefine =>
          exact .ok (hm.defineFunction? (h function List.mem_cons_self) hdefine)
            ⟨rfl, Nat.le_add_right _ _⟩
      · exact .error nofun .refl

theorem spends_initialValue (global : Global) :
    Spends (Affordable fuel bound dry) dry
      (global.value.elim 0 Expression.callCount * (bound + 1) ^ settings.maxCallDepth)
      (initialValue settings fuel global) := by
  unfold initialValue
  cases global.value with
  | none => exact .pure _
  | some expression => exact spends_value expression

theorem spends_bindGlobals : ∀ globals,
    Spends (Affordable fuel bound dry) dry
      (Program.globalCallCount globals * (bound + 1) ^ settings.maxCallDepth)
      (bindGlobals settings fuel globals)
  | [] => .pure _
  | global :: globals => by
      intro m hm
      rw [bindGlobals_cons, Program.globalCallCount, Nat.add_mul]
      exact Spends.bind (spends_initialValue global)
        (fun v => .free_bind (.define global.name global.isMutable v) fun _ =>
          spends_bindGlobals globals) m hm

end Run

namespace Program

variable (settings : RunSettings) (fuel : Nat) (program : Program)

/-- The number of calls that a run of a program cannot exceed. -/
def callLimit : Nat :=
  (program.callCount fuel + 1) ^ (settings.maxCallDepth + 1)

/-- The calls of the globals, and that of `main`. -/
theorem callLimit_ge :
    (globalCallCount program.globals + 1) *
        (functionCallCount fuel program.functions + 1) ^ settings.maxCallDepth ≤
      program.callLimit settings fuel := by
  unfold callLimit callCount
  rw [Nat.pow_succ, Nat.mul_comm]
  refine Nat.mul_le_mul (Nat.pow_le_pow_left ?_ _) ?_
  · exact Nat.succ_le_succ (Nat.le_add_left _ _)
  · exact Nat.succ_le_succ (Nat.le_add_right _ _)

/-- Besides its calls, a run gives the notice that it is about to call `main`. -/
theorem spends_inside {dry : Prop} (hdry : program.isLoopFree = false → dry) :
    Spends (Affordable fuel (functionCallCount fuel program.functions) dry) dry
      (program.callLimit settings fuel + 1) (program.inside settings fuel) := by
  have haffordable : ∀ function ∈ program.functions,
      Affordable fuel (functionCallCount fuel program.functions) dry function := by
    refine fun function hmem => ⟨bodyCallCount_le hmem, fun hloops => hdry ?_⟩
    exact List.all_eq_false.mpr ⟨function, hmem, by simp [hloops]⟩
  have hinside : Spends (Affordable fuel (functionCallCount fuel program.functions) dry) dry
      (globalCallCount program.globals *
          (functionCallCount fuel program.functions + 1) ^ settings.maxCallDepth +
        (1 + (functionCallCount fuel program.functions + 1) ^ settings.maxCallDepth))
      (program.inside settings fuel) :=
    .free_bind (spends_bindFunctions haffordable) fun _ =>
      .bind (spends_bindGlobals program.globals) fun _ => .bind (.notify _) fun _ =>
      .bind_free (spends_call "main" []) fun v => .ofExcept (mainResult v)
  have hlimit := callLimit_ge settings fuel program
  rw [Nat.succ_mul] at hlimit
  exact hinside.mono (by omega)

/-- Behind a run as many calls are under way as before, the run has made no more calls than it may,
and it has run out of rounds only if there is a loop. -/
theorem account_execute (machine : Machine) :
    Machine.Spent (program.callLimit settings fuel + 1) machine
        (program.execute settings fuel machine).2 ∧
      ((program.execute settings fuel machine).1 = .outOfFuel → program.isLoopFree = false) := by
  have hleaves := spends_inside settings fuel program (fun h : program.isLoopFree = false => h)
    { machine with scope := .initial } RunScope.binds_initial
  generalize hinside : program.inside settings fuel _ = result at hleaves
  cases hleaves with
  | ok _ hspent =>
      rw [execute_of_ok hinside]
      exact ⟨⟨hspent.active, hspent.notices⟩, nofun⟩
  | @error halt _ hdry hspent =>
      rw [execute_of_error hinside]
      refine ⟨⟨hspent.active, hspent.notices⟩, fun houtcome => hdry ?_⟩
      cases halt with
      | failed _ | scaleOverflow => cases houtcome
      | outOfFuel => rfl

end Program

end TinyScript
