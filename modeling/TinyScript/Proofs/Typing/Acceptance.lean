import TinyScript.Proofs.Sequencing
import TinyScript.Typing.Program

/-!
# What the checker accepts, by rules

When the checker accepts a tree, it has done so by the rule for the outermost construct: it has
accepted the parts, in contexts that follow from the one it was in, and has found their types to
fit. `ExpressionRule`, `StatementRule` and `CasesRule` list the rules, and the theorems here say
that every accepted tree comes by one of them. The premises of a rule are what the checker itself
computes on the parts, so a rule can be applied to a part again.
-/

namespace TinyScript.Typing

/-! ## Contexts at blocks -/

namespace Context

/-- The context inside a block. -/
def enter (context : Context) : Context := { context with scope := context.scope.enter }

/-- The context behind a block. -/
def leave (context : Context) : Context := { context with scope := context.scope.leave }

end Context

theorem inBlock_eq_ok {Tree α : Type} {check : Check Tree α} {c c' : Context} {a : α} :
    Check.inBlock check c = .ok a c' ↔ ∃ after, check c.enter = .ok a after ∧ c' = after.leave := by
  simp only [Check.inBlock]
  show _ ↔ ∃ after, check { c with scope := c.scope.enter } = .ok a after ∧ c' = after.leave
  cases check { c with scope := c.scope.enter } with
  | ok value after =>
      constructor
      · intro h
        cases h
        exact ⟨after, rfl, rfl⟩
      · rintro ⟨_, h, rfl⟩
        cases h
        rfl
  | error fault after => simp

/-! ## Expressions -/

/-- The rules for expressions: which expression is accepted in a scope, how it is annotated, and
what its type is. -/
inductive ExpressionRule (settings : Settings) (scope : StaticScope) :
    Expression → Expression → Ty → Prop
  | literal {value old ty} :
      literalType value = .ok ty →
      ExpressionRule settings scope (.literal value old) (.literal value (some ty)) ty
  | group {inner inner' old ty} :
      annotateExpression settings scope inner = .ok (inner', ty) →
      ExpressionRule settings scope (.group inner old) (.group inner' (some ty)) ty
  | binary {operator left left' leftTy right right' rightTy old ty} :
      annotateExpression settings scope left = .ok (left', leftTy) →
      annotateExpression settings scope right = .ok (right', rightTy) →
      operatorType operator leftTy rightTy = .ok ty →
      ExpressionRule settings scope (.binary operator left right old)
        (.binary operator left' right' (some ty)) ty
  | access {name oldBinding old binding} :
      scope.lookupVariable name = some binding →
      ExpressionRule settings scope (.access name oldBinding old)
        (.access name (some binding) (some binding.ty)) binding.ty
  | element {name index index' indexTy oldBinding old binding ty} :
      scope.lookupVariable name = some binding →
      annotateExpression settings scope index = .ok (index', indexTy) →
      elementType binding name indexTy = .ok ty →
      ExpressionRule settings scope (.element name index oldBinding old)
        (.element name index' (some binding) (some ty)) ty
  | call {name arguments arguments' oldBinding old signature home} :
      scope.lookupFunction name arguments.length = some (signature, home) →
      annotateArguments settings scope arguments signature.parameters = .ok arguments' →
      ExpressionRule settings scope (.call name arguments oldBinding old)
        (.call name arguments' (some signature) (some signature.returns)) signature.returns
  | list {elements elements' old} :
      annotateElements settings scope elements = .ok elements' →
      ExpressionRule settings scope (.list elements old) (.list elements' (some .list)) .list

section Expressions

variable {settings : Settings} {scope : StaticScope}

theorem rule_of_annotateExpression {input output : Expression} {ty : Ty}
    (h : annotateExpression settings scope input = .ok (output, ty)) :
    ExpressionRule settings scope input output ty := by
  cases input with
  | literal value old =>
      simp only [annotateExpression, Except.bind_eq_ok, demand_eq_ok, Except.pure_eq_ok,
        Prod.mk.injEq] at h
      obtain ⟨_, hty, rfl, rfl⟩ := h
      exact .literal hty
  | group inner old =>
      simp only [annotateExpression] at h
      split at h
      · cases h
      · simp only [Except.bind_eq_ok, within_eq_ok, Except.pure_eq_ok, Prod.exists,
          Prod.mk.injEq] at h
        obtain ⟨_, _, hinner, rfl, rfl⟩ := h
        exact .group hinner
  | binary operator left right old =>
      simp only [annotateExpression, Except.bind_eq_ok, within_eq_ok, demand_eq_ok,
        Except.pure_eq_ok, Prod.exists, Prod.mk.injEq] at h
      obtain ⟨_, _, hleft, _, _, hright, _, hty, rfl, rfl⟩ := h
      exact .binary hleft hright hty
  | access name oldBinding old =>
      simp only [annotateExpression] at h
      split at h
      · cases h
      · next hfound =>
          cases h
          exact .access hfound
  | element name index oldBinding old =>
      simp only [annotateExpression] at h
      split at h
      · cases h
      · next hfound =>
          simp only [Except.bind_eq_ok, within_eq_ok, demand_eq_ok, Except.pure_eq_ok,
            Prod.exists, Prod.mk.injEq] at h
          obtain ⟨_, _, hindex, _, hty, rfl, rfl⟩ := h
          exact .element hfound hindex hty
  | call name arguments oldBinding old =>
      simp only [annotateExpression] at h
      split at h
      · cases h
      · next hfound =>
          simp only [Except.bind_eq_ok, within_eq_ok, Except.pure_eq_ok, Prod.mk.injEq] at h
          obtain ⟨_, harguments, rfl, rfl⟩ := h
          exact .call hfound harguments
  | list elements old =>
      simp only [annotateExpression, Except.bind_eq_ok, within_eq_ok, Except.pure_eq_ok,
        Prod.mk.injEq] at h
      obtain ⟨_, helements, rfl, rfl⟩ := h
      exact .list helements

/-- An accepted expression is annotated with its type. -/
theorem ty_of_annotateExpression {input output : Expression} {ty : Ty}
    (h : annotateExpression settings scope input = .ok (output, ty)) : output.ty = some ty := by
  cases rule_of_annotateExpression h <;> rfl

/-- The rules for the arguments of a call of a function with the given parameters. Arguments behind
the last parameter are left as they are. -/
inductive ArgumentsRule (settings : Settings) (scope : StaticScope) :
    List Expression → List Ty → List Expression → Prop
  | none {parameters} : ArgumentsRule settings scope [] parameters []
  | beyond {arguments} : ArgumentsRule settings scope arguments [] arguments
  | more {argument argument' received arguments arguments' expected parameters} :
      annotateExpression settings scope argument = .ok (argument', received) →
      isAssignable expected received = true →
      annotateArguments settings scope arguments parameters = .ok arguments' →
      ArgumentsRule settings scope (argument :: arguments) (expected :: parameters)
        (argument' :: arguments')

theorem rule_of_annotateArguments {arguments arguments' : List Expression} {parameters : List Ty}
    (h : annotateArguments settings scope arguments parameters = .ok arguments') :
    ArgumentsRule settings scope arguments parameters arguments' := by
  cases arguments with
  | nil =>
      rw [annotateArguments] at h
      cases h
      exact .none
  | cons argument arguments =>
      cases parameters with
      | nil =>
          rw [annotateArguments] at h
          · cases h
            exact .beyond
          · intro none
            cases none
      | cons expected parameters =>
          simp only [annotateArguments, Except.bind_eq_ok, within_eq_ok, demand_eq_ok,
            requireAssignable_eq_ok, Except.pure_eq_ok, Prod.exists] at h
          obtain ⟨_, _, hargument, _, hassignable, _, harguments, rfl⟩ := h
          exact .more hargument hassignable harguments

/-- The rules for the elements of a list. -/
inductive ElementsRule (settings : Settings) (scope : StaticScope) :
    List Expression → List Expression → Prop
  | none : ElementsRule settings scope [] []
  | more {element element' ty elements elements'} :
      annotateExpression settings scope element = .ok (element', ty) →
      annotateElements settings scope elements = .ok elements' →
      ElementsRule settings scope (element :: elements) (element' :: elements')

theorem rule_of_annotateElements {elements elements' : List Expression}
    (h : annotateElements settings scope elements = .ok elements') :
    ElementsRule settings scope elements elements' := by
  cases elements with
  | nil =>
      rw [annotateElements] at h
      cases h
      exact .none
  | cons element elements =>
      simp only [annotateElements, Except.bind_eq_ok, within_eq_ok, Except.pure_eq_ok,
        Prod.exists] at h
      obtain ⟨_, _, helement, _, helements, rfl⟩ := h
      exact .more helement helements

end Expressions

/-! ## Statements -/

/-- The rules for statements, with the contexts in front of them and behind them. -/
inductive StatementRule (settings : Settings) :
    Context → Statement → Statement → Context → Prop
  | expression {c expression expression' ty} :
      annotateExpression settings c.scope expression = .ok (expression', ty) →
      StatementRule settings c (.expression expression) (.expression expression') c
  | declaration {c name typeName ty old scope} :
      c.scope.defineVariable? name ⟨name, ty, none, true⟩ = some scope →
      settings.names.resolveOptional typeName = .ok (some ty) →
      StatementRule settings c (.declaration name typeName none old)
        (.declaration name typeName none (some ⟨name, ty, none, true⟩)) { c with scope }
  | initialised {c name typeName value value' received ty old scope declared} :
      annotateExpression settings c.scope value = .ok (value', received) →
      isAssignable ty received = true →
      c.scope.defineVariable? name ⟨name, ty, copiedElement value', true⟩ = some scope →
      settings.names.resolveOptional typeName = .ok declared → ty = declared.getD received →
      StatementRule settings c (.declaration name typeName (some value) old)
        (.declaration name typeName (some value') (some ⟨name, ty, copiedElement value', true⟩))
        { c with scope }
  | assignment {c receiver receiver' target value value' received} :
      receiver.isReceiver = true →
      annotateExpression settings c.scope receiver = .ok (receiver', target) →
      annotateExpression settings c.scope value = .ok (value', received) →
      isAssignable target received = true →
      StatementRule settings c (.assignment receiver value) (.assignment receiver' value') c
  | branch {c test test' thenBody thenBody' c₁ elseBody elseBody' c₂} :
      annotateExpression settings c.scope test = .ok (test', .boolean) →
      annotateStatements settings thenBody c.enter = .ok thenBody' c₁ →
      annotateStatements settings elseBody c₁.leave.enter = .ok elseBody' c₂ →
      StatementRule settings c (.branch test thenBody elseBody) (.branch test' thenBody' elseBody')
        c₂.leave
  | switch {c test test' ty cases cases' c'} :
      annotateExpression settings c.scope test = .ok (test', ty) →
      annotateCases settings ty cases c = .ok cases' c' →
      StatementRule settings c (.switch test cases) (.switch test' cases') c'
  | loop {c test test' body body' c₁} :
      annotateExpression settings c.scope test = .ok (test', .boolean) →
      annotateStatements settings body c.enter = .ok body' c₁ →
      StatementRule settings c (.loop test body) (.loop test' body') c₁.leave
  | result {c value value' received c'} :
      annotateExpression settings c.scope value = .ok (value', received) →
      Check.returning (Statement.result value') received c = .ok () c' →
      StatementRule settings c (.result value) (.result value') c'

/-- The rules for statements in order. -/
inductive StatementsRule (settings : Settings) :
    Context → List Statement → List Statement → Context → Prop
  | none {c} : StatementsRule settings c [] [] c
  | more {c statement statement' c₁ statements statements' c₂} :
      annotateStatement settings statement c = .ok statement' c₁ →
      annotateStatements settings statements c₁ = .ok statements' c₂ →
      StatementsRule settings c (statement :: statements) (statement' :: statements') c₂

/-- The rules for the cases of a switch. -/
inductive CasesRule (settings : Settings) (ty : Ty) :
    Context → List Case → List Case → Context → Prop
  | none {c} : CasesRule settings ty c [] [] c
  | default {c body body' c₁} :
      annotateStatements settings body c.enter = .ok body' c₁ →
      CasesRule settings ty c [.mk none body] [.mk none body'] c₁.leave
  | more {c value value' received body body' c₁ cases cases' c₂} :
      annotateExpression settings c.scope value = .ok (value', received) →
      annotateStatements settings body c.enter = .ok body' c₁ →
      annotateCases settings ty cases c₁.leave = .ok cases' c₂ →
      isAssignable ty received = true →
      CasesRule settings ty c (.mk (some value) body :: cases) (.mk (some value') body' :: cases')
        c₂

section Statements

variable {settings : Settings} {c c' : Context}

theorem annotateCondition_eq_ok {Tree : Type} {rebuild : Expression → Tree}
    {test test' : Expression} (h : annotateCondition settings rebuild test c = .ok test' c') :
    annotateExpression settings c.scope test = .ok (test', .boolean) ∧ c = c' := by
  simp only [annotateCondition, bind_eq_ok, Check.expression_eq_ok, Check.require_eq_ok,
    requireExact_eq_ok, pure_eq_ok, Prod.exists] at h
  obtain ⟨_, _, _, ⟨htest, rfl⟩, _, _, ⟨rfl, rfl⟩, rfl, rfl⟩ := h
  exact ⟨htest, rfl⟩

theorem rule_of_annotateDeclaration {name : String} {typeName : Option String}
    {value : Option Expression} {old : Option VariableBinding} {output : Statement}
    (h : annotateDeclaration settings name typeName value old c = .ok output c') :
    StatementRule settings c (.declaration name typeName value old) output c' := by
  unfold annotateDeclaration at h
  simp only [bind_eq_ok, Check.require_eq_ok] at h
  obtain ⟨declared, _, ⟨hdeclared, rfl⟩, h⟩ := h
  cases value with
  | none =>
      cases declared with
      | none =>
          obtain ⟨h, -⟩ := Check.require_eq_ok.mp h
          cases h
      | some ty =>
          simp only [bind_eq_ok, Check.define_eq_ok, pure_eq_ok] at h
          obtain ⟨_, _, ⟨scope, hscope, rfl⟩, rfl, rfl⟩ := h
          exact .declaration hscope hdeclared
  | some value =>
      simp only [bind_eq_ok, Check.expression_eq_ok, Check.require_eq_ok, Check.define_eq_ok,
        requireAssignable_eq_ok, pure_eq_ok, Prod.exists] at h
      obtain ⟨value', received, _, ⟨hvalue, rfl⟩, _, _, ⟨hassignable, rfl⟩, _, _,
        ⟨scope, hscope, rfl⟩, rfl, rfl⟩ := h
      exact .initialised hvalue hassignable hscope hdeclared rfl

/-- A check that goes on only if a condition does not hold. -/
theorem guarded_eq_ok {Tree α β : Type} {condition : Bool} {tree : Tree} {reason : TypeError}
    {after : β → Check Tree α} {next : Check Tree α} {a : α}
    (h : (if condition = true then Check.require tree (.error reason) >>= after else next) c =
      .ok a c') : condition = false ∧ next c = .ok a c' := by
  cases condition with
  | true =>
      simp only [if_true, bind_eq_ok, Check.require_eq_ok, reduceCtorEq, false_and,
        exists_false] at h
  | false => exact ⟨rfl, by simpa using h⟩

theorem rule_of_annotateAssignment {receiver value : Expression} {output : Statement}
    (h : annotateAssignment settings receiver value c = .ok output c') :
    StatementRule settings c (.assignment receiver value) output c' := by
  obtain ⟨hreceiver, h⟩ := guarded_eq_ok h
  simp only [bind_eq_ok, Check.expression_eq_ok, Check.require_eq_ok, requireAssignable_eq_ok,
    pure_eq_ok, Prod.exists] at h
  obtain ⟨_, _, _, ⟨htarget, rfl⟩, _, _, _, ⟨hvalue, rfl⟩, _, _, ⟨hassignable, rfl⟩, rfl, rfl⟩ := h
  exact .assignment (by simpa using hreceiver) htarget hvalue hassignable

theorem rule_of_annotateStatement {input output : Statement}
    (h : annotateStatement settings input c = .ok output c') :
    StatementRule settings c input output c' := by
  cases input with
  | expression expression =>
      rw [annotateStatement] at h
      obtain ⟨hcall, h⟩ := guarded_eq_ok h
      simp only [bind_eq_ok, Check.expression_eq_ok, pure_eq_ok, Prod.exists] at h
      obtain ⟨_, _, _, ⟨hexpression, rfl⟩, rfl, rfl⟩ := h
      exact .expression hexpression
  | declaration name typeName value old =>
      rw [annotateStatement] at h
      exact rule_of_annotateDeclaration h
  | assignment receiver value =>
      rw [annotateStatement] at h
      exact rule_of_annotateAssignment h
  | branch test thenBody elseBody =>
      simp only [annotateStatement, bind_eq_ok, Check.part_eq_ok, inBlock_eq_ok, pure_eq_ok] at h
      obtain ⟨_, _, hcondition, _, _, ⟨c₁, hthen, rfl⟩, _, _, ⟨c₂, helse, rfl⟩, rfl, rfl⟩ := h
      obtain ⟨htest, rfl⟩ := annotateCondition_eq_ok hcondition
      exact .branch htest hthen helse
  | switch test cases =>
      simp only [annotateStatement, bind_eq_ok, Check.expression_eq_ok, Prod.exists] at h
      obtain ⟨_, _, _, ⟨htest, rfl⟩, h⟩ := h
      obtain ⟨hcases, h⟩ := guarded_eq_ok h
      simp only [bind_eq_ok, Check.part_eq_ok, pure_eq_ok] at h
      obtain ⟨_, _, hannotated, rfl, rfl⟩ := h
      exact .switch htest hannotated
  | loop test body =>
      simp only [annotateStatement, bind_eq_ok, Check.part_eq_ok, inBlock_eq_ok, pure_eq_ok] at h
      obtain ⟨_, _, hcondition, _, _, ⟨c₁, hbody, rfl⟩, rfl, rfl⟩ := h
      obtain ⟨htest, rfl⟩ := annotateCondition_eq_ok hcondition
      exact .loop htest hbody
  | result value =>
      simp only [annotateStatement, bind_eq_ok, Check.expression_eq_ok, pure_eq_ok,
        Prod.exists] at h
      obtain ⟨_, _, _, ⟨hvalue, rfl⟩, _, _, hreturning, rfl, rfl⟩ := h
      exact .result hvalue hreturning

theorem rule_of_annotateStatements {input output : List Statement}
    (h : annotateStatements settings input c = .ok output c') :
    StatementsRule settings c input output c' := by
  cases input with
  | nil =>
      simp only [annotateStatements, pure_eq_ok] at h
      obtain ⟨rfl, rfl⟩ := h
      exact .none
  | cons statement statements =>
      simp only [annotateStatements, bind_eq_ok, Check.part_eq_ok, pure_eq_ok] at h
      obtain ⟨_, _, hfirst, _, _, hrest, rfl, rfl⟩ := h
      exact .more hfirst hrest

theorem rule_of_annotateCases {ty : Ty} {input output : List Case}
    (h : annotateCases settings ty input c = .ok output c') :
    CasesRule settings ty c input output c' := by
  cases input with
  | nil =>
      simp only [annotateCases, pure_eq_ok] at h
      obtain ⟨rfl, rfl⟩ := h
      exact .none
  | cons first cases =>
      simp only [annotateCases, bind_eq_ok, Check.part_eq_ok, pure_eq_ok] at h
      obtain ⟨_, _, hfirst, _, _, hrest, rfl, rfl⟩ := h
      obtain ⟨value, body⟩ := first
      cases value with
      | none =>
          rw [annotateCase] at hfirst
          obtain ⟨hlast, hfirst⟩ := guarded_eq_ok hfirst
          simp only [bind_eq_ok, Check.part_eq_ok, inBlock_eq_ok, pure_eq_ok] at hfirst
          obtain ⟨_, _, ⟨c₁, hbody, rfl⟩, rfl, rfl⟩ := hfirst
          -- Only the last case has no value.
          obtain rfl : cases = [] := by simpa using hlast
          simp only [annotateCases, pure_eq_ok] at hrest
          obtain ⟨rfl, rfl⟩ := hrest
          exact .default hbody
      | some value =>
          rw [annotateCase] at hfirst
          obtain ⟨hlast, hfirst⟩ := guarded_eq_ok hfirst
          simp only [bind_eq_ok, Check.expression_eq_ok, Check.require_eq_ok,
            requireAssignable_eq_ok, Check.part_eq_ok, inBlock_eq_ok, pure_eq_ok,
            Prod.exists] at hfirst
          obtain ⟨_, _, _, ⟨hvalue, rfl⟩, _, _, ⟨hassignable, rfl⟩, _, _, ⟨c₁, hbody, rfl⟩, rfl,
            rfl⟩ := hfirst
          exact .more hvalue hbody hrest hassignable

end Statements

end TinyScript.Typing
