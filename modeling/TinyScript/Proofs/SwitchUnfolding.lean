import Mathlib.Data.List.Forall2
import TinyScript.Proofs.Run.Unseen

/-!
# Switches as chains of branches

A switch does what a block does that keeps the selector in a variable of its own and compares it
with the value of one case after the other, each comparison in the `ELSE` of the one before
(`unfolded`). In a program that does not know the variable, any switches may be unfolded so, also
ones inside of each other: a run of the program comes to the same end, on the same machine.

The run of the unfolded program has more frames. The block of the selector has one, which holds the
hidden variable, and every comparison that fails opens an empty one; bodies are executed inside
them.
-/

namespace TinyScript

open Run

/-! ## Unfolding -/

/-- Statements in a block of their own. -/
def nested (body : List Statement) : Statement := .branch (.literal (.boolean true) none) body []

/-- Whether a variable equals a value. -/
def equalsVariable (name : String) (value : Expression) : Expression :=
  .binary .equal (.access name none none) value none

/-- What is left to do for cases, in a block of its own, when a variable holds the selector. -/
def chain (name : String) : List Case → List Statement
  | [] => []
  | .mk none body :: _ => body
  | .mk (some value) body :: cases =>
    [.branch (equalsVariable name value) body (chain name cases)]

/-- What is left to do for cases in the block that declares the variable with the selector. A body
must not declare its variables there. -/
def chainBehind (name : String) : List Case → List Statement
  | [] => []
  | .mk none body :: _ => [nested body]
  | .mk (some value) body :: cases => chain name (.mk (some value) body :: cases)

/-- A switch as a block that keeps the selector in a variable. -/
def unfolded (name : String) (condition : Expression) (cases : List Case) : Statement :=
  nested (.declaration name none (some condition) none :: chainBehind name cases)

mutual

/-- Some switches of a statement are unfolded. -/
inductive Statement.Unfolds (name : String) : Statement → Statement → Prop
  | expression (expression : Expression) :
      Statement.Unfolds name (.expression expression) (.expression expression)
  | declaration (declared : String) (typeName : Option String) (value : Option Expression)
      (binding : Option VariableBinding) :
      Statement.Unfolds name (.declaration declared typeName value binding)
        (.declaration declared typeName value binding)
  | assignment (receiver value : Expression) :
      Statement.Unfolds name (.assignment receiver value) (.assignment receiver value)
  | branch (condition : Expression) {thenBody thenBody' elseBody elseBody' : List Statement}
      (thenUnfolds : BlockUnfolds name thenBody thenBody')
      (elseUnfolds : BlockUnfolds name elseBody elseBody') :
      Statement.Unfolds name (.branch condition thenBody elseBody)
        (.branch condition thenBody' elseBody')
  | loop (condition : Expression) {body body' : List Statement}
      (bodyUnfolds : BlockUnfolds name body body') :
      Statement.Unfolds name (.loop condition body) (.loop condition body')
  | result (value : Expression) : Statement.Unfolds name (.result value) (.result value)
  /-- A switch that stays one. -/
  | switch (condition : Expression) {cases cases' : List Case}
      (casesUnfold : CasesUnfold name cases cases') :
      Statement.Unfolds name (.switch condition cases) (.switch condition cases')
  /-- A switch that is unfolded itself. -/
  | unfold (condition : Expression) {cases cases' : List Case}
      (casesUnfold : CasesUnfold name cases cases') :
      Statement.Unfolds name (.switch condition cases) (unfolded name condition cases')

/-- Some switches in statements are unfolded. -/
inductive BlockUnfolds (name : String) : List Statement → List Statement → Prop
  | nil : BlockUnfolds name [] []
  | cons {statement statement' : Statement} {statements statements' : List Statement}
      (first : Statement.Unfolds name statement statement')
      (rest : BlockUnfolds name statements statements') :
      BlockUnfolds name (statement :: statements) (statement' :: statements')

/-- Some switches in the bodies of cases are unfolded. -/
inductive CasesUnfold (name : String) : List Case → List Case → Prop
  | nil : CasesUnfold name [] []
  | cons (value : Option Expression) {body body' : List Statement} {cases cases' : List Case}
      (first : BlockUnfolds name body body') (rest : CasesUnfold name cases cases') :
      CasesUnfold name (.mk value body :: cases) (.mk value body' :: cases')

end

/-- Some switches of a function are unfolded. -/
structure Function.Unfolds (name : String) (function function' : Function) : Prop where
  body : BlockUnfolds name function.body function'.body
  header : function' = { function with body := function'.body }

/-- Some switches of a program are unfolded. -/
structure Program.Unfolds (name : String) (program program' : Program) : Prop where
  globals : program'.globals = program.globals
  functions : List.Forall₂ (Function.Unfolds name) program.functions program'.functions

mutual

/-- Every switch may stay as it is. -/
theorem Statement.Unfolds.refl {name : String} : ∀ statement : Statement,
    statement.Unfolds name statement
  | .expression expression => .expression expression
  | .declaration declared typeName value binding => .declaration declared typeName value binding
  | .assignment receiver value => .assignment receiver value
  | .branch condition thenBody elseBody =>
      .branch condition (BlockUnfolds.refl thenBody) (BlockUnfolds.refl elseBody)
  | .loop condition body => .loop condition (BlockUnfolds.refl body)
  | .result value => .result value
  | .switch condition cases => .switch condition (CasesUnfold.refl cases)

theorem BlockUnfolds.refl {name : String} : ∀ statements : List Statement,
    BlockUnfolds name statements statements
  | [] => .nil
  | statement :: statements =>
      .cons (Statement.Unfolds.refl statement) (BlockUnfolds.refl statements)

theorem CasesUnfold.refl {name : String} : ∀ cases : List Case, CasesUnfold name cases cases
  | [] => .nil
  | .mk value body :: cases => .cons value (BlockUnfolds.refl body) (CasesUnfold.refl cases)

end

/-! ## What an unfolded switch does -/

section Chains

variable {settings : RunSettings} {fuel : Nat} {calls : Calls}

theorem executeAll_singleton (statement : Statement) :
    executeAll settings fuel calls [statement] = execute settings fuel calls statement := by
  rw [executeAll]
  refine (bind_congr fun flow => ?_).trans (bind_pure _)
  cases flow with
  | completed => rw [executeAll]
  | returned value => rfl

theorem execute_nested (body : List Statement) :
    execute settings fuel calls (nested body) = inBlock (executeAll settings fuel calls body) := by
  rw [nested, execute, condition, evaluate, pure_bind]
  rfl

/-- Whether the value of a case equals the selector. -/
def selects (settings : RunSettings) (calls : Calls) (selector : Value) (value : Expression) :
    Run Bool := do
  let value ← evaluate settings calls value
  let order ← ofExcept (selector.order value)
  return order == .eq

theorem executeCases_value (selector : Value) (value : Expression) (body : List Statement)
    (cases : List Case) :
    executeCases settings fuel calls selector (.mk (some value) body :: cases) = (do
      if ← selects settings calls selector value then
        inBlock (executeAll settings fuel calls body)
      else executeCases settings fuel calls selector cases) := by
  simp only [executeCases, selects, bind_assoc, pure_bind, beq_iff_eq]

theorem condition_equalsVariable (name : String) (value : Expression) :
    condition settings calls (equalsVariable name value) = (do
      let found ← variableNamed name
      selects settings calls found.value value) := by
  have hcompare : ∀ selector value : Value,
      (operate settings .equal selector value >>= fun result => ofExcept result.truth) =
        (ofExcept (selector.order value) >>= fun order => pure (order == .eq)) := by
    intro selector value
    funext m
    show EStateM.bind _ _ m = EStateM.bind _ _ m
    simp only [operate, Operator.apply, EStateM.bind]
    cases selector.order value <;> rfl
  simp only [condition, equalsVariable, evaluate, selects, bind_assoc, pure_bind,
    Operator.isLogical, Bool.false_eq_true, if_false, hcompare]

end Chains

/-! ## Runs of unfolded parts -/

section Runs

variable {H : Hiding} {settings : RunSettings} {fuel : Nat} {calls : Calls} {layout : Layout}

theorem alike_selects (hcalls : H.Blind calls) (selector : Value) {value : Expression}
    (hfresh : H.Misses value.variables) :
    H.Alike layout layout (selects settings calls selector value)
      (selects settings calls selector value) :=
  .bind (Hiding.alike_evaluate hcalls value hfresh) fun _ => .bind (.ofExcept _) fun _ => .pure _

/-- Comparing with the selector is comparing with the hidden variable. -/
theorem alike_equalsVariable (hcalls : H.Blind calls) {selector : Value}
    (hholds : layout.Holds selector) {value : Expression} (hfresh : H.Misses value.variables) :
    H.Alike layout layout (selects settings calls selector value)
      (condition settings calls (equalsVariable H.name value)) := by
  rw [condition_equalsVariable, ← pure_bind (⟨true, selector⟩ : Variable)
    fun found => selects settings calls found.value value]
  exact .bind (.readHidden hholds) fun found => alike_selects hcalls found.value hfresh

/-- Going through a chain in a block of its own is going through it behind the declaration. -/
theorem alike_chain {selector : Value} {cases : List Case} {x : Run Flow}
    (h : ∀ {layout : Layout}, layout.Holds selector →
      H.Alike layout layout x (executeAll settings fuel calls (chainBehind H.name cases)))
    (hholds : layout.Holds selector) :
    H.Alike layout layout x (inBlock (executeAll settings fuel calls (chain H.name cases))) := by
  have hholds' : Layout.Holds selector (.hidden none :: layout) := hholds
  match cases with
  | [] => exact .hide (h hholds')
  | .mk (some value) body :: cases => exact .hide (h hholds')
  | .mk none body :: cases =>
      -- The chain is a body, which is in a block of its own behind the declaration already.
      rw [← execute_nested, ← executeAll_singleton]
      exact h hholds

-- By induction on what is unfolded, for every layout: a body is executed behind the frames of the
-- chain that it stands in.
mutual

/-- A statement does what it did before switches in it were unfolded. -/
theorem Statement.Unfolds.alike (hcalls : H.Blind calls) :
    ∀ {statement statement' : Statement} {layout : Layout}, statement.Unfolds H.name statement' →
      H.Misses statement.variables → layout.IsOpen →
        H.Alike layout layout (execute settings fuel calls statement)
          (execute settings fuel calls statement')
  | _, _, _, .expression expression, hfresh, _ => by
      unfold execute
      exact .bind (Hiding.alike_evaluate hcalls expression hfresh) fun _ => .pure _
  | _, _, _, .declaration declared _ value _, hfresh, hopen => by
      have hvalue := (Hiding.misses_cons.mp hfresh).2
      cases value with
      | none =>
          unfold execute
          exact .bind (.define hopen declared true .nil) fun _ => .pure _
      | some value =>
          unfold execute
          exact .bind (Hiding.alike_evaluate hcalls value hvalue) fun v =>
            .bind (.define hopen declared true v) fun _ => .pure _
  | _, _, _, .assignment receiver value, hfresh, _ => by
      obtain ⟨hreceiver, hvalue⟩ := Hiding.misses_append.mp hfresh
      unfold execute
      exact .bind (Hiding.alike_assignTo hcalls hreceiver hvalue) fun _ => .pure _
  | _, _, _, .branch condition thenUnfolds elseUnfolds, hfresh, _ => by
      obtain ⟨hcondition, hbodies⟩ := Hiding.misses_append.mp hfresh
      obtain ⟨hthen, helse⟩ := Hiding.misses_append.mp hbodies
      unfold execute
      refine .bind (Hiding.alike_condition hcalls hcondition) fun holds => ?_
      split
      · exact .inBlock (BlockUnfolds.alike hcalls thenUnfolds hthen trivial)
      · exact .inBlock (BlockUnfolds.alike hcalls elseUnfolds helse trivial)
  | _, _, _, .loop condition bodyUnfolds, hfresh, _ => by
      obtain ⟨hcondition, hbody⟩ := Hiding.misses_append.mp hfresh
      unfold execute
      exact Hiding.alike_repeatWhile (Hiding.alike_condition hcalls hcondition)
        (.inBlock (BlockUnfolds.alike hcalls bodyUnfolds hbody trivial)) fuel
  | _, _, _, .result value, hfresh, _ => by
      unfold execute
      exact .bind (Hiding.alike_evaluate hcalls value hfresh) fun _ => .pure _
  | _, _, _, .switch condition casesUnfold, hfresh, _ => by
      obtain ⟨hcondition, hcases⟩ := Hiding.misses_append.mp hfresh
      unfold execute
      exact .bind (Hiding.alike_evaluate hcalls condition hcondition) fun selector =>
        CasesUnfold.alike hcalls selector casesUnfold hcases
  | _, _, _, .unfold condition casesUnfold, hfresh, _ => by
      obtain ⟨hcondition, hcases⟩ := Hiding.misses_append.mp hfresh
      rw [unfolded, execute_nested]
      unfold execute executeAll
      unfold execute
      simp only [bind_assoc, pure_bind]
      exact .keep (Hiding.alike_evaluate hcalls condition hcondition) fun selector =>
        CasesUnfold.alike_chainBehind hcalls casesUnfold hcases rfl

theorem BlockUnfolds.alike (hcalls : H.Blind calls) :
    ∀ {statements statements' : List Statement} {layout : Layout},
      BlockUnfolds H.name statements statements' → H.Misses (variablesOfBlock statements) →
        layout.IsOpen → H.Alike layout layout (executeAll settings fuel calls statements)
          (executeAll settings fuel calls statements')
  | _, _, _, .nil, _, _ => by
      unfold executeAll
      exact .pure _
  | _, _, _, .cons first rest, hfresh, hopen => by
      obtain ⟨hfirst, hrest⟩ := Hiding.misses_append.mp hfresh
      unfold executeAll
      refine .bind (Statement.Unfolds.alike hcalls first hfirst hopen) fun flow => ?_
      cases flow with
      | completed => exact BlockUnfolds.alike hcalls rest hrest hopen
      | returned value => exact .pure _

theorem CasesUnfold.alike (hcalls : H.Blind calls) (selector : Value) :
    ∀ {cases cases' : List Case} {layout : Layout}, CasesUnfold H.name cases cases' →
      H.Misses (variablesOfCases cases) →
        H.Alike layout layout (executeCases settings fuel calls selector cases)
          (executeCases settings fuel calls selector cases')
  | _, _, _, .nil, _ => by
      unfold executeCases
      exact .pure _
  | _, _, _, .cons none first _, hfresh => by
      have hbody := (Hiding.misses_append.mp (Hiding.misses_append.mp hfresh).2).1
      unfold executeCases
      exact .inBlock (BlockUnfolds.alike hcalls first hbody trivial)
  | _, _, _, .cons (some value) first rest, hfresh => by
      obtain ⟨hvalue, hbodies⟩ := Hiding.misses_append.mp hfresh
      obtain ⟨hbody, hrest⟩ := Hiding.misses_append.mp hbodies
      rw [executeCases_value, executeCases_value]
      refine .bind (alike_selects hcalls selector hvalue) fun selected => ?_
      split
      · exact .inBlock (BlockUnfolds.alike hcalls first hbody trivial)
      · exact CasesUnfold.alike hcalls selector rest hrest

/-- Trying the cases is going through the chain, wherever the hidden variable holds the
selector. -/
theorem CasesUnfold.alike_chainBehind (hcalls : H.Blind calls) {selector : Value} :
    ∀ {cases cases' : List Case} {layout : Layout}, CasesUnfold H.name cases cases' →
      H.Misses (variablesOfCases cases) → layout.Holds selector →
        H.Alike layout layout (executeCases settings fuel calls selector cases)
          (executeAll settings fuel calls (chainBehind H.name cases'))
  | _, _, _, .nil, _, _ => by
      rw [chainBehind, executeCases, executeAll]
      exact .pure _
  | _, _, _, .cons none first _, hfresh, _ => by
      have hbody := (Hiding.misses_append.mp (Hiding.misses_append.mp hfresh).2).1
      rw [chainBehind, executeAll_singleton, execute_nested, executeCases]
      exact .inBlock (BlockUnfolds.alike hcalls first hbody trivial)
  | _, _, _, .cons (some value) first rest, hfresh, hholds => by
      obtain ⟨hvalue, hbodies⟩ := Hiding.misses_append.mp hfresh
      obtain ⟨hbody, hrest⟩ := Hiding.misses_append.mp hbodies
      rw [executeCases_value, chainBehind, chain, executeAll_singleton, execute]
      refine .bind (alike_equalsVariable hcalls hholds hvalue) fun selected => ?_
      split
      · exact .inBlock (BlockUnfolds.alike hcalls first hbody trivial)
      · exact alike_chain (CasesUnfold.alike_chainBehind hcalls rest hrest) hholds

end

end Runs

/-! ## Whole programs -/

/-- The second of two runs hides a variable that the first one does not know, and calls functions
with unfolded switches. -/
def unfoldingSwitches (name : String) : Hiding where
  name := name
  functions function function' := name ∉ function.variables ∧ function.Unfolds name function'

theorem misses_of_notMem {name : String} {names : List String} (hfresh : name ∉ names) :
    (unfoldingSwitches name).Misses names := by
  rintro _ hmem rfl
  exact hfresh hmem

/-- Functions with unfolded switches do what the functions do. -/
theorem allows_unfoldingSwitches (name : String) (settings : RunSettings) (fuel : Nat) :
    (unfoldingSwitches name).Allows settings fuel where
  header h := by
    rw [h.2.header]
    exact ⟨rfl, rfl⟩
  body h calls hcalls := by
    obtain ⟨hfresh, hunfolds⟩ := h
    have hbody := (Hiding.misses_append.mp (misses_of_notMem hfresh)).2
    exact BlockUnfolds.alike hcalls hunfolds.body hbody trivial

namespace Program

/-- Whichever of its switches are unfolded with a variable that a program does not know, the
program runs the same: with the same result or error, and leaving the same machine. -/
theorem runs_as_unfolded {name : String} {program program' : Program}
    (hfresh : name ∉ program.variables) (h : program.Unfolds name program')
    (settings : RunSettings) (fuel : Nat) (machine : Machine) :
    program'.execute settings fuel machine = program.execute settings fuel machine := by
  have hfunctions : List.Forall₂ (unfoldingSwitches name).functions program.functions
      program'.functions := by
    refine (List.forall₂_and_left _ _).mpr ⟨fun function hmem hname => ?_, h.functions⟩
    exact hfresh (List.mem_append_right _ (List.mem_flatMap_of_mem hmem hname))
  exact Hiding.execute_eq (allows_unfoldingSwitches name settings fuel) h.globals hfunctions
    (misses_of_notMem hfresh) machine

/-- A global that counts. -/
def tally : Global := ⟨"n", none, true, some (.literal (.integer 0) none), none⟩

/-- A function that counts and returns how far it has come. -/
def tallyNext : Function :=
  ⟨"next", [], some "Integer",
    [.assignment (.access "n" none none)
        (.binary .add (.access "n" none none) (.literal (.integer 1) none) none),
      .result (.access "n" none none)], none⟩

/-- Cases of which one counts on, before the one that a count of one selects. -/
def tallyCases : List Case :=
  [.mk (some (.call "next" [] none none)) [.result (.literal (.integer 0) none)],
    .mk (some (.literal (.integer 1) none))
      [.expression (.call "print" [.access "n" none none] none none),
        .result (.access "n" none none)],
    .mk (some (.call "next" [] none none)) [],
    .mk none [.expression (.call "print" [.literal (.integer 9) none] none none)]]

/-- A program whose `main` executes one statement before it returns nine. -/
def tallying (statement : Statement) : Program :=
  ⟨[tally], [tallyNext, ⟨"main", [], some "Integer",
    [statement, .result (.literal (.integer 9) none)], none⟩]⟩

/-- The condition is evaluated once, and no case behind the selected one, whose body returns. -/
theorem runs_as_unfolded_tallying :
    "selector" ∉ (tallying (.switch (.call "next" [] none none) tallyCases)).variables ∧
      (tallying (.switch (.call "next" [] none none) tallyCases)).Unfolds "selector"
        (tallying (unfolded "selector" (.call "next" [] none none) tallyCases)) ∧
      ((tallying (.switch (.call "next" [] none none) tallyCases)).execute default 0
        (.initial .unlimited)).1 = .finished 2 ∧
      ((tallying (.switch (.call "next" [] none none) tallyCases)).execute default 0
        (.initial .unlimited)).2.sink.text = "2\n" ∧
      (tallying (unfolded "selector" (.call "next" [] none none) tallyCases)).execute default 0
          (.initial .unlimited) =
        (tallying (.switch (.call "next" [] none none) tallyCases)).execute default 0
          (.initial .unlimited) := by
  have hfresh : "selector" ∉
      (tallying (.switch (.call "next" [] none none) tallyCases)).variables := by decide
  have hunfolds : (tallying (.switch (.call "next" [] none none) tallyCases)).Unfolds "selector"
      (tallying (unfolded "selector" (.call "next" [] none none) tallyCases)) := by
    have hcases : CasesUnfold "selector" tallyCases tallyCases := .refl tallyCases
    have hmain := Statement.Unfolds.unfold (.call "next" [] none none) hcases
    exact ⟨rfl, .cons ⟨.refl _, rfl⟩ (.cons ⟨.cons hmain (.refl _), rfl⟩ .nil)⟩
  exact ⟨hfresh, hunfolds, by decide +kernel, by decide +kernel,
    runs_as_unfolded hfresh hunfolds default 0 (.initial .unlimited)⟩

end Program

end TinyScript
