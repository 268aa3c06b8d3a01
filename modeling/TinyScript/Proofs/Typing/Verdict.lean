import TinyScript.Proofs.Rewriting
import TinyScript.Proofs.Typing.Program

/-!
# Checking a tree without its annotations

The checker writes annotations into a tree and reads some of them back, so it could be led astray by
annotations that were there before. It is not: on a tree and on the same tree with its annotations
emptied, a check comes to the same answer (`verdict_annotateExpression`, `agree_annotateStatement`),
with one proviso. Arguments behind the last parameter of a function are passed over, so each
function has to be bound under the number of its parameters (`BoundByArity`), as it is wherever a
program is checked.
-/

namespace TinyScript.Typing

variable {Part Part' Whole Whole' Tree Tree' α β α' β' : Type} {settings : Settings}

/-! ## Functions bound under the number of their parameters -/

theorem mem_of_mem_replaceEntry {κ : Type} [BEq κ] [LawfulBEq κ] {key : κ} {value : α}
    {entries : List (κ × α)} {entry : κ × α} (h : entry ∈ replaceEntry key value entries) :
    entry = (key, value) ∨ entry ∈ entries := by
  induction entries with
  | nil => cases h
  | cons first entries ih =>
      obtain ⟨k, v⟩ := first
      unfold replaceEntry at h
      split at h
      · next same =>
          rcases List.mem_cons.mp h with rfl | hmem
          · exact .inl (by rw [eq_of_beq same])
          · exact .inr (List.mem_cons_of_mem _ hmem)
      · rcases List.mem_cons.mp h with rfl | hmem
        · exact .inr List.mem_cons_self
        · exact (ih hmem).imp_right (List.mem_cons_of_mem _)

/-- Every function of a scope is bound under the number of its parameters. -/
def BoundByArity (scope : StaticScope) : Prop :=
  ∀ frame ∈ scope.frames, ∀ entry ∈ frame.funs, entry.2.parameters.length = entry.1.2

namespace BoundByArity

variable {scope : StaticScope}

theorem rootScope : BoundByArity rootScope := by
  intro frame hframe entry hentry
  obtain rfl := List.mem_singleton.mp hframe
  obtain rfl := List.mem_singleton.mp hentry
  rfl

theorem current (h : BoundByArity scope) {name : String} {arity : Nat} {signature : Signature}
    (hfound : scope.current.lookupFunction name arity = some signature) :
    signature.parameters.length = arity := by
  refine h scope.current ?_ _ (mem_of_lookup hfound)
  cases scope <;> simp [Scope.frames, Scope.current]

theorem lookup (h : BoundByArity scope) {name : String} {arity : Nat} {signature : Signature}
    {home : StaticScope} (hfound : scope.lookupFunction name arity = some (signature, home)) :
    signature.parameters.length = arity := by
  induction scope with
  | root frame =>
      simp only [Scope.lookupFunction, Option.map_eq_some_iff, Prod.mk.injEq] at hfound
      obtain ⟨_, hframe, rfl, -⟩ := hfound
      exact h.current hframe
  | child frame parent ih =>
      simp only [Scope.lookupFunction] at hfound
      split at hfound
      · next hframe =>
          cases hfound
          exact h.current hframe
      · exact ih (fun frame' hmem => h frame' (List.mem_cons_of_mem _ hmem)) hfound

theorem enter (h : BoundByArity scope) : BoundByArity scope.enter := by
  intro frame hframe
  rcases List.mem_cons.mp hframe with rfl | hframe
  · exact nofun
  · exact h frame hframe

theorem leave (h : BoundByArity scope) : BoundByArity scope.leave := by
  cases scope with
  | root frame => exact h
  | child frame parent => exact fun frame' hmem => h frame' (List.mem_cons_of_mem _ hmem)

theorem modifyCurrent (h : BoundByArity scope)
    {change : Frame VariableBinding Signature → Frame VariableBinding Signature}
    (hchange : ∀ entry ∈ (change scope.current).funs, entry.2.parameters.length = entry.1.2) :
    BoundByArity (scope.modifyCurrent change) := by
  intro frame hframe
  cases scope with
  | root first =>
      obtain rfl := List.mem_singleton.mp hframe
      exact hchange
  | child first parent =>
      rcases List.mem_cons.mp hframe with rfl | hframe
      · exact hchange
      · exact h frame (List.mem_cons_of_mem _ hframe)

theorem funs_current (h : BoundByArity scope) :
    ∀ entry ∈ scope.current.funs, entry.2.parameters.length = entry.1.2 := by
  refine h scope.current ?_
  cases scope <;> simp [Scope.frames, Scope.current]

theorem defineVariable (h : BoundByArity scope) {name : String} {binding : VariableBinding}
    {after : StaticScope} (hafter : scope.defineVariable? name binding = some after) :
    BoundByArity after := by
  rw [(Scope.defineVariable?_eq_some.mp hafter).2]
  exact h.modifyCurrent h.funs_current

theorem defineFunction (h : BoundByArity scope) {name : String} {signature : Signature}
    {arity : Nat} {after : StaticScope}
    (hafter : scope.defineFunction? name arity signature = some after)
    (harity : signature.parameters.length = arity) : BoundByArity after := by
  rw [(Scope.defineFunction?_eq_some.mp hafter).2]
  refine h.modifyCurrent (List.forall_mem_cons.mpr ⟨harity, h.funs_current⟩)

theorem setFunction (h : BoundByArity scope) {name : String} {signature : Signature} {arity : Nat}
    (harity : signature.parameters.length = arity) :
    BoundByArity (scope.setFunction name arity signature) := by
  refine h.modifyCurrent fun entry hentry => ?_
  rcases mem_of_mem_replaceEntry hentry with rfl | hmem
  · exact harity
  · exact h.funs_current entry hmem

end BoundByArity

/-! ## Expressions -/

/-- What a check of a tree comes to, the tree of a fault being left out. -/
def verdict (checked : Except (Fault Tree) α) : Except TypeError α := checked.mapError Fault.reason

theorem verdict_bind {x : Except (Fault Tree) α} {y : Except (Fault Tree') α}
    {f : α → Except (Fault Tree) β} {g : α → Except (Fault Tree') β}
    (hx : verdict x = verdict y) (hf : ∀ a, verdict (f a) = verdict (g a)) :
    verdict (x >>= f) = verdict (y >>= g) := by
  cases x with
  | ok a =>
      cases y with
      | ok b =>
          cases hx
          exact hf a
      | error fault => cases hx
  | error fault =>
      cases y with
      | ok b => cases hx
      | error fault' => exact congrArg Except.error (Except.error.inj hx)

@[simp] theorem verdict_within (rebuild : Part → Whole) (checked : Except (Fault Part) α) :
    verdict (within rebuild checked) = verdict checked := by
  cases checked <;> rfl

theorem verdict_demand (tree : Tree) (result : Except TypeError α) :
    verdict (demand tree result) = result := by
  cases result <;> rfl

theorem isBinary_rewrite (r : Rewriting) (expression : Expression) :
    (expression.rewrite r).isBinary = expression.isBinary := by
  cases expression <;> rfl

theorem isCall_rewrite (r : Rewriting) (expression : Expression) :
    (expression.rewrite r).isCall = expression.isCall := by
  cases expression <;> rfl

theorem isReceiver_rewrite (r : Rewriting) (expression : Expression) :
    (expression.rewrite r).isReceiver = expression.isReceiver := by
  cases expression <;> rfl

theorem length_rewriteExpressions (r : Rewriting) : ∀ expressions : List Expression,
    (rewriteExpressions r expressions).length = expressions.length := by
  intro expressions
  induction expressions with
  | nil => rfl
  | cons _ _ ih => exact congrArg (· + 1) ih

mutual

/-- Annotations that are there already do not change what becomes of an expression. -/
theorem verdict_annotateExpression {scope : StaticScope} (h : BoundByArity scope) :
    ∀ input : Expression, verdict (annotateExpression settings scope (input.rewrite .erasing)) =
      verdict (annotateExpression settings scope input)
  | .literal value old => by
      simp only [Expression.rewrite, annotateExpression]
      exact verdict_bind (by simp [verdict_demand, Rewriting.erasing]) fun _ => rfl
  | .group inner old => by
      simp only [Expression.rewrite, annotateExpression, isBinary_rewrite]
      split
      · rfl
      · exact verdict_bind (by simp [verdict_annotateExpression h inner]) fun _ => rfl
  | .binary operator left right old => by
      simp only [Expression.rewrite, annotateExpression]
      exact verdict_bind (by simp [verdict_annotateExpression h left]) fun (_, leftTy) =>
        verdict_bind (by simp [verdict_annotateExpression h right]) fun (_, rightTy) =>
          verdict_bind (by simp only [verdict_demand]) fun _ => rfl
  | .access name oldBinding old => by
      simp only [Expression.rewrite, annotateExpression]
      split <;> rfl
  | .element name index oldBinding old => by
      simp only [Expression.rewrite, annotateExpression]
      split
      · rfl
      · exact verdict_bind (by simp [verdict_annotateExpression h index]) fun (_, indexTy) =>
          verdict_bind (by simp only [verdict_demand]) fun _ => rfl
  | .call name arguments oldBinding old => by
      simp only [Expression.rewrite, annotateExpression, length_rewriteExpressions]
      split
      · rfl
      · next signature home hfound =>
          refine verdict_bind ?_ fun _ => rfl
          simp only [verdict_within]
          exact verdict_annotateArguments h arguments _ (Nat.le_of_eq (h.lookup hfound).symm)
  | .list elements old => by
      simp only [Expression.rewrite, annotateExpression]
      exact verdict_bind (by simp [verdict_annotateElements h elements]) fun _ => rfl

theorem verdict_annotateArguments {scope : StaticScope} (h : BoundByArity scope) :
    ∀ (input : List Expression) (parameters : List Ty), input.length ≤ parameters.length →
      verdict (annotateArguments settings scope (rewriteExpressions .erasing input) parameters) =
        verdict (annotateArguments settings scope input parameters)
  | [], parameters, _ => by simp only [rewriteExpressions]
  -- Arguments without a parameter would be passed over, with the annotations they have.
  | argument :: arguments, [], hlength => by simp at hlength
  | argument :: arguments, expected :: parameters, hlength => by
      simp only [rewriteExpressions, annotateArguments]
      refine verdict_bind (by simp [verdict_annotateExpression h argument]) fun (_, received) =>
        verdict_bind (by simp only [verdict_demand]) fun _ => verdict_bind ?_ fun _ => rfl
      simp only [verdict_within]
      exact verdict_annotateArguments h arguments parameters (Nat.le_of_succ_le_succ hlength)

theorem verdict_annotateElements {scope : StaticScope} (h : BoundByArity scope) :
    ∀ input : List Expression,
      verdict (annotateElements settings scope (rewriteExpressions .erasing input)) =
        verdict (annotateElements settings scope input)
  | [] => by simp only [rewriteExpressions]
  | element :: elements => by
      simp only [rewriteExpressions, annotateElements]
      exact verdict_bind (by simp [verdict_annotateExpression h element]) fun _ =>
        verdict_bind (by simp [verdict_annotateElements h elements]) fun _ => rfl

end

/-! ## Checks that agree -/

/-- Two endings that are alike: both good, with related values and in the same context, or both bad,
for the same reason. Behind a good one functions are still bound by arity. -/
inductive SameEnd (related : α → β → Prop) :
    EStateM.Result (Fault Tree) Context α → EStateM.Result (Fault Tree') Context β → Prop
  | ok {a b c} : related a b → BoundByArity c.scope → SameEnd related (.ok a c) (.ok b c)
  | error {fault fault' c c'} : fault.reason = fault'.reason →
      SameEnd related (.error fault c) (.error fault' c')

/-- Two checks that come to the same answer wherever functions are bound by arity. -/
def Check.Agree (related : α → β → Prop) (check : Check Tree α) (check' : Check Tree' β) : Prop :=
  ∀ c : Context, BoundByArity c.scope → SameEnd related (check c) (check' c)

namespace Check.Agree

variable {related : α → α' → Prop} {related' : β → β' → Prop}

theorem pure {a : α} {a' : α'} (h : related a a') :
    Agree related (pure a : Check Tree α) (pure a' : Check Tree' α') :=
  fun _ hc => .ok h hc

theorem bind {x : Check Tree α} {y : Check Tree' α'} {f : α → Check Tree β}
    {g : α' → Check Tree' β'} (hx : Agree related x y)
    (hf : ∀ a a', related a a' → Agree related' (f a) (g a')) :
    Agree related' (x >>= f) (y >>= g) := by
  intro c hc
  show SameEnd related' (EStateM.bind x f c) (EStateM.bind y g c)
  unfold EStateM.bind
  have h := hx c hc
  generalize x c = left, y c = right at h
  cases h with
  | ok ha hc₁ => exact hf _ _ ha _ hc₁
  | error hreason => exact .error hreason

/-- The usual case of `bind`, where the values are the same. -/
theorem andThen {x : Check Tree α} {y : Check Tree' α} {f : α → Check Tree β}
    {g : α → Check Tree' β'} (hx : Agree Eq x y) (hf : ∀ a, Agree related' (f a) (g a)) :
    Agree related' (x >>= f) (y >>= g) :=
  hx.bind fun a _ h => h ▸ hf a

theorem part {x : Check Part α} {y : Check Part' α'} {rebuild : Part → Whole}
    {rebuild' : Part' → Whole'} (h : Agree related x y) :
    Agree related (Check.part rebuild x) (Check.part rebuild' y) := by
  intro c hc
  have h := h c hc
  unfold Check.part
  generalize x c = left, y c = right at h
  cases h with
  | ok ha hc₁ => exact .ok ha hc₁
  | error hreason => exact .error hreason

theorem require (tree : Tree) (tree' : Tree') (result : Except TypeError α) :
    Agree Eq (Check.require tree result) (Check.require tree' result) := by
  intro c hc
  unfold Check.require
  cases result with
  | ok a => exact .ok rfl hc
  | error reason => exact .error rfl

theorem define (tree : Tree) (tree' : Tree') (binding : VariableBinding) :
    Agree Eq (Check.define tree binding) (Check.define tree' binding) := by
  intro c hc
  unfold Check.define
  cases hscope : c.scope.defineVariable? binding.name binding with
  | none => exact .error rfl
  | some scope => exact .ok rfl (hc.defineVariable hscope)

theorem expression {rebuild : Expression → Tree} {rebuild' : Expression → Tree'}
    (input : Expression) :
    Agree Eq (Check.expression settings rebuild (input.rewrite .erasing))
      (Check.expression settings rebuild' input) := by
  intro c hc
  have h := @verdict_annotateExpression settings _ hc input
  unfold Check.expression
  generalize annotateExpression settings c.scope (input.rewrite .erasing) = left,
    annotateExpression settings c.scope input = right at h
  cases left with
  | ok checked =>
      cases right with
      | ok checked' =>
          cases h
          exact .ok rfl hc
      | error fault => cases h
  | error fault =>
      cases right with
      | ok checked => cases h
      | error fault' => exact .error (Except.error.inj h)

theorem inBlock {x : Check Tree α} {y : Check Tree' α'} (h : Agree related x y) :
    Agree related (Check.inBlock x) (Check.inBlock y) := by
  intro c hc
  have h := h { c with scope := c.scope.enter } hc.enter
  unfold Check.inBlock
  generalize x { c with scope := c.scope.enter } = left,
    y { c with scope := c.scope.enter } = right at h
  cases h with
  | ok ha hc₁ => exact .ok ha hc₁.leave
  | error hreason => exact .error hreason

theorem returning (tree : Tree) (tree' : Tree') (received : Ty) :
    Agree Eq (Check.returning tree received) (Check.returning tree' received) := by
  intro c hc
  unfold Check.returning
  split
  · exact .error rfl
  · exact .ok rfl hc
  · exact require tree tree' _ c hc

theorem guarded {condition : Bool} {tree : Tree} {tree' : Tree'} {reason : TypeError}
    {after : α → Check Tree β} {after' : α → Check Tree' β'} {next : Check Tree β}
    {next' : Check Tree' β'} (h : Agree related' next next') :
    Agree related'
      (if condition = true then Check.require tree (.error reason) >>= after else next)
      (if condition = true then Check.require tree' (.error reason) >>= after' else next') := by
  cases condition with
  | true => exact fun _ _ => .error rfl
  | false => exact h

end Check.Agree

/-! ## Statements -/

theorem agree_annotateCondition {rebuild : Expression → Tree} {rebuild' : Expression → Tree'}
    (input : Expression) :
    Check.Agree Eq (annotateCondition settings rebuild (input.rewrite .erasing))
      (annotateCondition settings rebuild' input) := by
  unfold annotateCondition
  exact .andThen (.expression input) fun (_, ty) => .andThen (.require _ _ _) fun _ => .pure rfl

theorem agree_annotateDeclaration (name : String) (typeName : Option String)
    (value : Option Expression) (old : Option VariableBinding) :
    Check.Agree Eq
      (annotateDeclaration settings name typeName (value.map (·.rewrite .erasing)) none)
      (annotateDeclaration settings name typeName value old) := by
  unfold annotateDeclaration
  refine .andThen (.require _ _ _) fun declared => ?_
  cases value with
  | none =>
      cases declared with
      | none => exact .require _ _ _
      | some ty => exact .andThen (.define _ _ _) fun _ => .pure rfl
  | some value =>
      exact .andThen (.expression value) fun (value', received) => .andThen (.require _ _ _)
        fun _ => .andThen (.define _ _ _) fun _ => .pure rfl

theorem agree_annotateAssignment (receiver value : Expression) :
    Check.Agree Eq
      (annotateAssignment settings (receiver.rewrite .erasing) (value.rewrite .erasing))
      (annotateAssignment settings receiver value) := by
  unfold annotateAssignment
  rw [isReceiver_rewrite]
  exact .guarded (.andThen (.expression receiver) fun (receiver', target) =>
    .andThen (.expression value) fun (value', received) => .andThen (.require _ _ _)
      fun _ => .pure rfl)

theorem isEmpty_rewriteCases (r : Rewriting) (cases : List Case) :
    (rewriteCases r cases).isEmpty = cases.isEmpty := by
  cases cases with
  | nil => rfl
  | cons first cases =>
      obtain ⟨value, body⟩ := first
      rfl

mutual

theorem agree_annotateStatement : ∀ input : Statement,
    Check.Agree Eq (annotateStatement settings (input.rewrite .erasing))
      (annotateStatement settings input)
  | .expression expression => by
      simp only [Statement.rewrite, annotateStatement, isCall_rewrite]
      exact .guarded (.andThen (.expression expression) fun _ => .pure rfl)
  | .declaration name typeName value old => by
      simp only [Statement.rewrite, annotateStatement]
      exact agree_annotateDeclaration name typeName value old
  | .assignment receiver value => by
      simp only [Statement.rewrite, annotateStatement]
      exact agree_annotateAssignment receiver value
  | .branch test thenBody elseBody => by
      simp only [Statement.rewrite, annotateStatement]
      exact .andThen (agree_annotateCondition test) fun _ =>
        .andThen (.part (.inBlock (agree_annotateStatements thenBody))) fun _ =>
          .andThen (.part (.inBlock (agree_annotateStatements elseBody))) fun _ => .pure rfl
  | .switch test cases => by
      simp only [Statement.rewrite, annotateStatement, isEmpty_rewriteCases]
      exact .andThen (.expression test) fun (_, ty) => .guarded
        (.andThen (.part (agree_annotateCases cases)) fun _ => .pure rfl)
  | .loop test body => by
      simp only [Statement.rewrite, annotateStatement]
      exact .andThen (agree_annotateCondition test) fun _ =>
        .andThen (.part (.inBlock (agree_annotateStatements body))) fun _ => .pure rfl
  | .result value => by
      simp only [Statement.rewrite, annotateStatement]
      exact .andThen (.expression value) fun _ => .andThen (.returning _ _ _) fun _ => .pure rfl

theorem agree_annotateStatements : ∀ input : List Statement,
    Check.Agree Eq (annotateStatements settings (rewriteStatements .erasing input))
      (annotateStatements settings input)
  | [] => by
      simp only [rewriteStatements, annotateStatements]
      exact .pure rfl
  | statement :: statements => by
      simp only [rewriteStatements, annotateStatements]
      exact .andThen (.part (agree_annotateStatement statement)) fun _ =>
        .andThen (.part (agree_annotateStatements statements)) fun _ => .pure rfl

theorem agree_annotateCases : ∀ (input : List Case) {ty : Ty},
    Check.Agree Eq (annotateCases settings ty (rewriteCases .erasing input))
      (annotateCases settings ty input)
  | [], ty => by
      simp only [rewriteCases, annotateCases]
      exact .pure rfl
  | .mk none body :: cases, ty => by
      simp only [rewriteCases, annotateCases, annotateCase, isEmpty_rewriteCases, Option.map_none]
      exact .andThen (.part (.guarded (.andThen
        (.part (.inBlock (agree_annotateStatements body))) fun _ => .pure rfl))) fun _ =>
          .andThen (.part (agree_annotateCases cases)) fun _ => .pure rfl
  | .mk (some value) body :: cases, ty => by
      simp only [rewriteCases, annotateCases, annotateCase, isEmpty_rewriteCases, Option.map_some]
      exact .andThen (.part (.guarded (.andThen (.expression value) fun (_, received) =>
        .andThen (.require _ _ _) fun _ => .andThen
          (.part (.inBlock (agree_annotateStatements body))) fun _ => .pure rfl))) fun _ =>
            .andThen (.part (agree_annotateCases cases)) fun _ => .pure rfl

end

end TinyScript.Typing
