import TinyScript.Proofs.Typing.Program

/-!
# Notices are no matter

A check gives notices and never looks at those given before. What it comes to, the tree or the fault
and the context it leaves behind, is the same whatever they are (`Check.Blind`).
-/

namespace TinyScript.Typing

variable {Part Whole Tree α β : Type} {settings : Settings}

/-- What a check comes to: its value or its fault, the scope behind it, and what the place around it
returns. -/
def outcome : EStateM.Result (Fault Tree) Context α →
    Except (Fault Tree) α × StaticScope × Option (Option Ty)
  | .ok a c => (.ok a, c.scope, c.returning)
  | .error fault c => (.error fault, c.scope, c.returning)

/-- A check that comes to the same whatever notices have been given. -/
def Check.Blind (check : Check Tree α) : Prop :=
  ∀ (c : Context) (notices : List Notice), outcome (check { c with notices }) = outcome (check c)

/-- A check whose endings hold the same value or fault, and contexts that differ in notices only. -/
theorem outcome_eq_iff {left right : EStateM.Result (Fault Tree) Context α} :
    outcome left = outcome right ↔
      (∃ a c notices, left = .ok a { c with notices } ∧ right = .ok a c) ∨
        ∃ fault c notices, left = .error fault { c with notices } ∧ right = .error fault c := by
  constructor
  · intro h
    cases left with
    | ok a c =>
        cases right with
        | ok b d =>
            obtain ⟨scope, returning, notices⟩ := c
            cases h
            exact .inl ⟨a, d, notices, rfl, rfl⟩
        | error fault d => cases h
    | error fault c =>
        cases right with
        | ok b d => cases h
        | error fault' d =>
            obtain ⟨scope, returning, notices⟩ := c
            cases h
            exact .inr ⟨fault, d, notices, rfl, rfl⟩
  · rintro (⟨a, c, notices, rfl, rfl⟩ | ⟨fault, c, notices, rfl, rfl⟩) <;> rfl

/-- What is done behind a check comes to the same if it does not look at notices. -/
theorem outcome_match {left right : EStateM.Result (Fault Part) Context α}
    (h : outcome left = outcome right)
    {ok ok' : α → Context → EStateM.Result (Fault Tree) Context β}
    {error error' : Fault Part → Context → EStateM.Result (Fault Tree) Context β}
    (hok : ∀ a c notices, outcome (ok a { c with notices }) = outcome (ok' a c))
    (herror : ∀ fault c notices,
      outcome (error fault { c with notices }) = outcome (error' fault c)) :
    outcome (match left with | .ok a c => ok a c | .error fault c => error fault c) =
      outcome (match right with | .ok a c => ok' a c | .error fault c => error' fault c) := by
  rcases outcome_eq_iff.mp h with ⟨a, c, notices, rfl, rfl⟩ | ⟨fault, c, notices, rfl, rfl⟩
  · exact hok a c notices
  · exact herror fault c notices

namespace Check.Blind

theorem pure (a : α) : Blind (pure a : Check Tree α) := fun _ _ => rfl

theorem bind {x : Check Tree α} {f : α → Check Tree β} (hx : Blind x) (hf : ∀ a, Blind (f a)) :
    Blind (x >>= f) := by
  intro c notices
  show outcome (EStateM.bind x f _) = outcome (EStateM.bind x f c)
  unfold EStateM.bind
  rcases outcome_eq_iff.mp (hx c notices) with ⟨a, c₁, later, hleft, hright⟩ |
    ⟨fault, c₁, later, hleft, hright⟩
  · rw [hleft, hright]
    exact hf a c₁ later
  · rw [hleft, hright]
    rfl

theorem part {rebuild : Part → Whole} {check : Check Part α} (h : Blind check) :
    Blind (Check.part rebuild check) := by
  intro c notices
  exact outcome_match (h c notices) (fun _ _ _ => rfl) fun _ _ _ => rfl

theorem require (tree : Tree) (result : Except TypeError α) :
    Blind (Check.require tree result) := by
  intro c notices
  cases result <;> rfl

theorem define (tree : Tree) (binding : VariableBinding) : Blind (Check.define tree binding) := by
  intro c notices
  unfold Check.define
  dsimp only
  cases c.scope.defineVariable? binding.name binding <;> rfl

theorem expression (rebuild : Expression → Tree) (input : Expression) :
    Blind (Check.expression settings rebuild input) := by
  intro c notices
  unfold Check.expression
  dsimp only
  cases annotateExpression settings c.scope input <;> rfl

theorem inBlock {check : Check Tree α} (h : Blind check) : Blind (Check.inBlock check) := by
  intro c notices
  exact outcome_match (h { c with scope := c.scope.enter } notices) (fun _ _ _ => rfl)
    fun _ _ _ => rfl

theorem returning (tree : Tree) (received : Ty) : Blind (Check.returning tree received) := by
  intro c notices
  unfold Check.returning
  dsimp only
  split
  · rfl
  · rfl
  · exact require tree _ c notices

theorem notify (notice : Notice) : Blind (Typing.notify notice : Check Tree Unit) :=
  fun _ _ => rfl

theorem insideFunction {returns : Option Ty} {check : Check Tree α} (h : Blind check) :
    Blind (Typing.insideFunction returns check) := by
  intro c notices
  exact outcome_match (h { c with returning := some returns } notices) (fun _ _ _ => rfl)
    fun _ _ _ => rfl

theorem inferResult (function : Function) (returns : Ty) :
    Blind (Typing.inferResult function returns : Check Tree Unit) := by
  intro c notices
  unfold Typing.inferResult
  dsimp only
  cases c.scope.current.lookupFunction function.name function.arity <;> rfl

/-- A check that goes on only if a condition does not hold. -/
theorem guarded {condition : Bool} {tree : Tree} {reason : TypeError} {after : α → Check Tree β}
    {next : Check Tree β} (h : Blind next) :
    Blind (if condition = true then Check.require tree (.error reason) >>= after else next) := by
  cases condition with
  | true => exact fun _ _ => rfl
  | false => exact h

end Check.Blind

/-! ## Statements -/

theorem blind_annotateCondition (rebuild : Expression → Tree) (input : Expression) :
    (annotateCondition settings rebuild input).Blind :=
  .bind (.expression _ _) fun _ => .bind (.require _ _) fun _ => .pure _

theorem blind_annotateDeclaration (name : String) (typeName : Option String)
    (value : Option Expression) (old : Option VariableBinding) :
    (annotateDeclaration settings name typeName value old).Blind := by
  refine .bind (.require _ _) fun declared => ?_
  cases value with
  | none =>
      cases declared with
      | none => exact .require _ _
      | some ty => exact .bind (.define _ _) fun _ => .pure _
  | some value =>
      exact .bind (.expression _ _) fun _ => .bind (.require _ _) fun _ => .bind (.define _ _)
        fun _ => .pure _

theorem blind_annotateAssignment (receiver value : Expression) :
    (annotateAssignment settings receiver value).Blind :=
  .guarded (.bind (.expression _ _) fun _ => .bind (.expression _ _) fun _ =>
    .bind (.require _ _) fun _ => .pure _)

mutual

theorem blind_annotateStatement : ∀ input : Statement, (annotateStatement settings input).Blind
  | .expression expression => by
      rw [annotateStatement]
      exact .guarded (.bind (.expression _ _) fun _ => .pure _)
  | .declaration name typeName value old => by
      rw [annotateStatement]
      exact blind_annotateDeclaration name typeName value old
  | .assignment receiver value => by
      rw [annotateStatement]
      exact blind_annotateAssignment receiver value
  | .branch test thenBody elseBody => by
      rw [annotateStatement]
      exact .bind (blind_annotateCondition _ _) fun _ =>
        .bind (.part (.inBlock (blind_annotateStatements thenBody))) fun _ =>
          .bind (.part (.inBlock (blind_annotateStatements elseBody))) fun _ => .pure _
  | .switch test cases => by
      rw [annotateStatement]
      exact .bind (.expression _ _) fun _ => .guarded
        (.bind (.part (blind_annotateCases cases)) fun _ => .pure _)
  | .loop test body => by
      rw [annotateStatement]
      exact .bind (blind_annotateCondition _ _) fun _ =>
        .bind (.part (.inBlock (blind_annotateStatements body))) fun _ => .pure _
  | .result value => by
      rw [annotateStatement]
      exact .bind (.expression _ _) fun _ => .bind (.returning _ _) fun _ => .pure _

theorem blind_annotateStatements : ∀ input : List Statement,
    (annotateStatements settings input).Blind
  | [] => by
      rw [annotateStatements]
      exact .pure _
  | statement :: statements => by
      rw [annotateStatements]
      exact .bind (.part (blind_annotateStatement statement)) fun _ =>
        .bind (.part (blind_annotateStatements statements)) fun _ => .pure _

theorem blind_annotateCases : ∀ (input : List Case) {ty : Ty},
    (annotateCases settings ty input).Blind
  | [], ty => by
      rw [annotateCases]
      exact .pure _
  | .mk none body :: cases, ty => by
      rw [annotateCases, annotateCase]
      exact .bind (.part (.guarded (.bind (.part (.inBlock (blind_annotateStatements body)))
        fun _ => .pure _))) fun _ => .bind (.part (blind_annotateCases cases)) fun _ => .pure _
  | .mk (some value) body :: cases, ty => by
      rw [annotateCases, annotateCase]
      exact .bind (.part (.guarded (.bind (.expression _ _) fun _ => .bind (.require _ _) fun _ =>
        .bind (.part (.inBlock (blind_annotateStatements body))) fun _ => .pure _))) fun _ =>
          .bind (.part (blind_annotateCases cases)) fun _ => .pure _

end

/-! ## Globals, functions, programs -/

theorem blind_annotateGlobal (global : Global) : (annotateGlobal settings global).Blind := by
  refine .bind (.require _ _) fun declared => ?_
  cases global.value with
  | none =>
      cases declared with
      | none =>
          exact .bind (.require _ _) fun _ => .bind (.define _ _) fun _ =>
            .bind (.notify _) fun _ => .pure _
      | some ty =>
          exact .bind (.pure _) fun _ => .bind (.define _ _) fun _ =>
            .bind (.notify _) fun _ => .pure _
  | some value =>
      exact .bind (.expression _ _) fun _ => .bind (.require _ _) fun _ => .bind (.pure _)
        fun _ => .bind (.define _ _) fun _ => .bind (.notify _) fun _ => .pure _

theorem blind_registerFunction (function : Function) :
    (registerFunction settings function).Blind := by
  intro c notices
  simp only [registerFunction_apply]
  cases declaredSignature settings.names function with
  | error reason => rfl
  | ok signature =>
      dsimp only
      cases c.scope.defineFunction? function.name function.arity signature <;> rfl

theorem blind_defineParameters (tree : Tree) : ∀ (parameters : List Parameter) (types : List Ty),
    (defineParameters tree parameters types).Blind
  | [], _ => by
      unfold defineParameters
      exact .pure _
  | _ :: _, [] => by
      unfold defineParameters
      exact .pure _
  | parameter :: parameters, ty :: types => by
      unfold defineParameters
      exact .bind (.define _ _) fun _ => blind_defineParameters tree parameters types

theorem blind_annotateFunction (function : Function) :
    (annotateFunction settings function).Blind := by
  unfold annotateFunction
  split
  · exact .require _ _
  · refine .bind (.part (.insideFunction (.inBlock (.bind (blind_defineParameters _ _ _) fun _ =>
      blind_annotateStatements _)))) fun _ => ?_
    dsimp only
    split
    · exact .pure _
    · exact .bind (.inferResult _ _) fun _ => .bind (.notify _) fun _ => .pure _

theorem blind_annotateEach {annotate : Tree → Check Tree Tree}
    (h : ∀ tree, (annotate tree).Blind) : ∀ trees, (annotateEach annotate trees).Blind
  | [] => .pure _
  | tree :: trees => .bind (.part (h tree)) fun _ =>
      .bind (.part (blind_annotateEach h trees)) fun _ => .pure _

theorem blind_annotateProgram (program : Program) :
    (annotateProgram settings program).Blind := by
  refine .bind (.part (blind_annotateEach blind_registerFunction _)) fun functions =>
    .bind (.part (blind_annotateEach blind_annotateGlobal _)) fun globals =>
      .bind (.part (blind_annotateEach blind_annotateFunction _)) fun functions' => ?_
  -- The context is read here, for its scope, so `bind` does not apply before it is fixed.
  intro c notices
  exact Check.Blind.bind (.require _ (requireMain c.scope))
    (fun _ => .bind (.notify _) fun _ => .pure _) c notices

end TinyScript.Typing
