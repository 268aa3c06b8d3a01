import TinyScript.Proofs.AnnotationIndependence
import TinyScript.Proofs.Run.Lockstep

/-!
# Runs do not depend on annotations

The evaluator does not look at annotations, so a tree whose annotations are emptied is evaluated as
the tree itself. A run also keeps functions in its scope, with their bodies and the annotations in
them; two such scopes answer every lookup alike, which is enough for the runs to go in lockstep.
So programs that differ in annotations only do the same under all settings, on every machine,
whether or not the checker accepts them, and in particular a program does what it did before it was
checked.
-/

namespace TinyScript

namespace Run

variable {settings : RunSettings} {fuel : Nat} {calls : Calls}

/-! ## Trees without annotations -/

mutual

theorem evaluate_erasing : ∀ expression : Expression,
    evaluate settings calls (expression.rewrite .erasing) = evaluate settings calls expression
  | .literal _ _ => by
      unfold Expression.rewrite evaluate
      rfl
  | .group inner _ => by
      unfold Expression.rewrite evaluate
      exact evaluate_erasing inner
  | .binary operator left right _ => by
      unfold Expression.rewrite evaluate
      rw [evaluate_erasing left, evaluate_erasing right]
  | .access _ _ _ => by
      unfold Expression.rewrite evaluate
      rfl
  | .element _ index _ _ => by
      unfold Expression.rewrite evaluate
      rw [evaluate_erasing index]
  | .call _ arguments _ _ => by
      unfold Expression.rewrite evaluate
      rw [evaluateAll_erasing arguments]
  | .list elements _ => by
      unfold Expression.rewrite evaluate
      rw [evaluateAll_erasing elements]

theorem evaluateAll_erasing : ∀ expressions : List Expression,
    evaluateAll settings calls (rewriteExpressions .erasing expressions) =
      evaluateAll settings calls expressions
  | [] => rfl
  | expression :: expressions => by
      unfold rewriteExpressions evaluateAll
      rw [evaluate_erasing expression, evaluateAll_erasing expressions]

end

theorem condition_erasing (test : Expression) :
    condition settings calls (test.rewrite .erasing) = condition settings calls test := by
  unfold condition
  rw [evaluate_erasing]

theorem locate_erasing (receiver : Expression) :
    locate settings calls (receiver.rewrite .erasing) = locate settings calls receiver := by
  cases receiver with
  | element name index binding ty =>
      simp only [Expression.rewrite, locate, evaluate_erasing]
  | _ =>
      unfold Expression.rewrite locate
      rfl

theorem assignTo_erasing (receiver value : Expression) :
    assignTo settings calls (receiver.rewrite .erasing) (value.rewrite .erasing) =
      assignTo settings calls receiver value := by
  unfold assignTo
  rw [locate_erasing, evaluate_erasing]

mutual

theorem execute_erasing : ∀ statement : Statement,
    execute settings fuel calls (statement.rewrite .erasing) = execute settings fuel calls statement
  | .expression expression => by
      unfold Statement.rewrite execute
      rw [evaluate_erasing]
  | .declaration _ _ none _ => by
      unfold Statement.rewrite execute
      rfl
  | .declaration _ _ (some value) _ => by
      unfold Statement.rewrite execute
      simp only [Option.map_some, evaluate_erasing]
  | .assignment receiver value => by
      unfold Statement.rewrite execute
      rw [assignTo_erasing]
  | .branch test thenBody elseBody => by
      unfold Statement.rewrite execute
      rw [condition_erasing, executeAll_erasing thenBody, executeAll_erasing elseBody]
  | .switch test cases => by
      unfold Statement.rewrite execute
      simp only [evaluate_erasing, executeCases_erasing _ cases]
  | .loop test body => by
      unfold Statement.rewrite execute
      rw [condition_erasing, executeAll_erasing body]
  | .result value => by
      unfold Statement.rewrite execute
      rw [evaluate_erasing]

theorem executeAll_erasing : ∀ statements : List Statement,
    executeAll settings fuel calls (rewriteStatements .erasing statements) =
      executeAll settings fuel calls statements
  | [] => rfl
  | statement :: statements => by
      unfold rewriteStatements executeAll
      rw [execute_erasing statement, executeAll_erasing statements]

theorem executeCases_erasing (selector : Value) : ∀ cases : List Case,
    executeCases settings fuel calls selector (rewriteCases .erasing cases) =
      executeCases settings fuel calls selector cases
  | [] => rfl
  | .mk none body :: _ => by
      unfold rewriteCases executeCases
      simp only [Option.map_none, executeAll_erasing body]
  | .mk (some value) body :: cases => by
      unfold rewriteCases executeCases
      simp only [Option.map_some, evaluate_erasing, executeAll_erasing body,
        executeCases_erasing selector cases]

end

theorem bindGlobals_erasing (globals : List Global) :
    bindGlobals settings fuel (globals.map (Global.rewrite .erasing)) =
      bindGlobals settings fuel globals := by
  induction globals with
  | nil => rfl
  | cons global globals ih =>
      obtain ⟨name, typeName, isMutable, value, binding⟩ := global
      cases value with
      | none => simp only [List.map_cons, bindGlobals, Global.rewrite, Option.map_none, ih]
      | some expression =>
          simp only [List.map_cons, bindGlobals, Global.rewrite, Option.map_some, ih, Run.value,
            evaluate_erasing]

end Run

open Run Typing

/-! ## Programs without annotations -/

/-- Machines that hold the same but for annotations in one of the machines. -/
def Likeness.annotations : Likeness :=
  .sameStores (fun function function' => function' = function.rewrite .erasing) fun _ => False

theorem Likeness.allows_annotations (settings : RunSettings) (fuel : Nat) :
    Likeness.annotations.Allows settings settings fuel fuel where
  rounds := .inl rfl
  depth := .inl rfl
  negative := .inl rfl
  takes := sameStores_takes
  header := by
    rintro function _ rfl
    exact ⟨rfl, rfl⟩
  body := by
    rintro function _ rfl calls
    exact executeAll_erasing function.body

variable {settings : RunSettings} {fuel : Nat} {program : Program} {machine : Machine}

theorem inside_rewrite_erasing :
    (program.rewrite .erasing).inside settings fuel =
      Program.inside settings fuel
        ⟨program.globals, program.functions.map (Function.rewrite .erasing)⟩ := by
  unfold Program.inside Program.rewrite
  simp only [bindGlobals_erasing, List.length_map]

/-- A program does what it does without its annotations. -/
theorem execute_rewrite_erasing :
    (program.rewrite .erasing).execute settings fuel machine =
      program.execute settings fuel machine := by
  have hfunctions : List.Forall₂ (fun function function' => function' = function.rewrite .erasing)
      program.functions (program.functions.map (Function.rewrite .erasing)) := by
    rw [List.forall₂_map_right_iff]
    exact List.forall₂_same.mpr fun _ _ => rfl
  rcases Likeness.execute_sameStores (Likeness.allows_annotations settings fuel) program.globals
    hfunctions machine with ⟨_, -, hcut⟩ | hsame
  · exact hcut.elim
  · rw [← hsame]
    simp only [Program.execute, Program.run_eq_inScope, inside_rewrite_erasing]

/-- Programs that differ in annotations only do the same. -/
theorem execute_congr {other : Program} (h : other.rewrite .erasing = program.rewrite .erasing) :
    other.execute settings fuel machine = program.execute settings fuel machine := by
  rw [← execute_rewrite_erasing, h, execute_rewrite_erasing]

/-- Annotations have no part in a run. Under all settings, for any number of rounds, and on every
machine, programs that differ in annotations only come to the same outcome in the same machine, and
so with the same output, whether the checker accepts them or not. A checked program does what it did
before, and so does a program that a fault has left half annotated. -/
theorem execute_ignores_annotations (settings : RunSettings) (fuel : Nat) (program : Program)
    (machine : Machine) :
    (∀ other : Program, other.rewrite .erasing = program.rewrite .erasing →
        other.execute settings fuel machine = program.execute settings fuel machine) ∧
      (∀ typing annotated, program.check typing = .ok annotated →
        annotated.execute settings fuel machine = program.execute settings fuel machine) ∧
      ∀ typing fault after, annotateProgram typing program .initial = .error fault after →
        fault.tree.execute settings fuel machine = program.execute settings fuel machine := by
  refine ⟨fun _ => execute_congr, fun typing annotated h => ?_, fun typing fault after h => ?_⟩
  · obtain ⟨_, _, _, _, haccepts⟩ := accepts_of_check h
    exact execute_congr haccepts.erase
  · exact execute_congr (rewrite_of_fault h)

/-! ## A program with wrong annotations -/

/-- A program that prints what it has added to a global and then asks for a negative power of it. -/
def ledger : Program where
  globals := [⟨"total", none, true, some (.literal (.integer 1) none), none⟩]
  functions :=
    [⟨"add", [⟨"n", "Integer"⟩], none,
        [.assignment (.access "total" none none)
            (.binary .add (.access "total" none none) (.access "n" none none) none),
          .expression (.call "print" [.access "total" none none] none none)], none⟩,
      ⟨"main", [], some "Integer",
        [.expression (.call "add" [.literal (.integer 1) none] none none),
          .result (.binary .power (.access "total" none none)
            (.literal (.integer (-1)) none) none)], none⟩]

/-- Annotations that have nothing to do with the program. -/
def mislabelling : Rewriting :=
  ⟨id, fun _ => some .list, fun _ => some ⟨"nothing", .boolean, none, false⟩,
    fun _ => some ⟨"nobody", [.nil, .nil], .string⟩⟩

/-- The program fails in the same way, and has printed the same, when all its annotations are wrong.
The program that needs a name for the integers does the same when it has been checked with that
name, and when a checker without it has left it half annotated. -/
theorem execute_ignores_annotations_ledger :
    (ledger.rewrite mislabelling).rewrite .erasing = ledger.rewrite .erasing ∧
      (ledger.execute default 0 (.initial .unlimited)).1 =
        .failed (.runtimeError (.arithmetic (.negativeExponent (-1)))) ∧
      ((ledger.rewrite mislabelling).execute default 0 (.initial .unlimited)).1 =
        .failed (.runtimeError (.arithmetic (.negativeExponent (-1)))) ∧
      ((ledger.rewrite mislabelling).execute default 0 (.initial .unlimited)).2.sink.text =
        (ledger.execute default 0 (.initial .unlimited)).2.sink.text ∧
      moneyProgram.check withMoney = .ok moneyChecked ∧
      (moneyChecked.execute default 0 (.initial .unlimited)).1 = .finished 1 ∧
      (∃ after, annotateProgram default moneyProgram .initial =
        .error ⟨.unknownType "Money", moneyHalf⟩ after) ∧
      (moneyHalf.execute default 0 (.initial .unlimited)).1 = .finished 1 := by
  have hsame : (ledger.rewrite mislabelling).rewrite .erasing = ledger.rewrite .erasing := rfl
  have houtcome : (ledger.execute default 0 (.initial .unlimited)).1 =
      .failed (.runtimeError (.arithmetic (.negativeExponent (-1)))) := by decide +kernel
  obtain ⟨hcongr, -, -⟩ := execute_ignores_annotations default 0 ledger (.initial .unlimited)
  have hexecute := hcongr _ hsame
  have hmoney : (moneyProgram.execute default 0 (.initial .unlimited)).1 = .finished 1 := by
    decide +kernel
  have hchecked : moneyProgram.check withMoney = .ok moneyChecked := rfl
  obtain ⟨after, hfault⟩ : ∃ after, annotateProgram default moneyProgram .initial =
      .error ⟨.unknownType "Money", moneyHalf⟩ after := ⟨_, rfl⟩
  obtain ⟨-, hannotated, hleft⟩ :=
    execute_ignores_annotations default 0 moneyProgram (.initial .unlimited)
  refine ⟨hsame, houtcome, by rw [hexecute, houtcome], by rw [hexecute], hchecked, ?_,
    ⟨after, hfault⟩, ?_⟩
  · rw [hannotated _ _ hchecked, hmoney]
  · have hhalf : moneyHalf.execute default 0 (.initial .unlimited) =
        moneyProgram.execute default 0 (.initial .unlimited) := hleft _ _ after hfault
    rw [hhalf, hmoney]

end TinyScript
