import TinyScript.Proofs.Scope
import TinyScript.Proofs.Typing.Acceptance

/-!
# What checking leaves as it was

Checking statements changes the innermost frame and nothing around it, so a block leaves the scope
as it was; and once it is known what a function returns, that does not change any more.
-/

namespace TinyScript.Typing

/-- A later context of the same block. -/
structure Context.Extends (context later : Context) : Prop where
  scope : ∃ change, later.scope = context.scope.modifyCurrent change
  returning : ∀ ty, context.returning = some (some ty) → later.returning = some (some ty)

namespace Context.Extends

variable {c c₁ c₂ : Context}

theorem refl (context : Context) : context.Extends context :=
  ⟨⟨fun frame => frame, by simp⟩, fun _ h => h⟩

theorem trans (h : c.Extends c₁) (h' : c₁.Extends c₂) : c.Extends c₂ := by
  obtain ⟨first, hfirst⟩ := h.scope
  obtain ⟨second, hsecond⟩ := h'.scope
  refine ⟨⟨fun frame => second (first frame), ?_⟩,
    fun ty hty => h'.returning ty (h.returning ty hty)⟩
  rw [hsecond, hfirst, Scope.modifyCurrent_modifyCurrent]

theorem of_scope {scope : StaticScope} {change : Frame VariableBinding Signature → _}
    (h : scope = c.scope.modifyCurrent change) : c.Extends { c with scope } :=
  ⟨⟨change, h⟩, fun _ hty => hty⟩

/-- Behind a block the scope is the one in front of it. -/
theorem scope_leave (h : c.enter.Extends c₁) : c₁.leave.scope = c.scope := by
  obtain ⟨change, hchange⟩ := h.scope
  show c₁.scope.leave = c.scope
  rw [hchange]
  rfl

theorem leave (h : c.enter.Extends c₁) : c.Extends c₁.leave :=
  ⟨⟨fun frame => frame, by rw [h.scope_leave, Scope.modifyCurrent_id]⟩,
    fun ty hty => h.returning ty hty⟩

end Context.Extends

variable {settings : Settings}

theorem extends_of_define {Tree : Type} {tree : Tree} {binding : VariableBinding} {c c' : Context}
    {u : Unit} (h : Check.define tree binding c = .ok u c') : c.Extends c' := by
  obtain ⟨scope, hscope, rfl⟩ := Check.define_eq_ok.mp h
  exact .of_scope (Scope.defineVariable?_eq_some.mp hscope).2

theorem extends_of_returning {Tree : Type} {tree : Tree} {received : Ty} {c c' : Context} {u : Unit}
    (h : Check.returning tree received c = .ok u c') : c.Extends c' := by
  unfold Check.returning at h
  split at h
  · cases h
  · next hnone =>
      cases h
      refine ⟨⟨fun frame => frame, by simp⟩, fun ty hty => ?_⟩
      rw [hnone] at hty
      cases hty
  · obtain ⟨-, rfl⟩ := Check.require_eq_ok.mp h
    exact .refl c

theorem scope_of_returning {Tree : Type} {tree : Tree} {received : Ty} {c c' : Context} {u : Unit}
    (h : Check.returning tree received c = .ok u c') : c'.scope = c.scope := by
  unfold Check.returning at h
  split at h
  · cases h
  · cases h
    rfl
  · obtain ⟨-, rfl⟩ := Check.require_eq_ok.mp h
    rfl

/-- A result that is accepted may stand where what the function returns may. -/
theorem assignable_of_returning {Tree : Type} {tree : Tree} {received returns : Ty} {c c' : Context}
    {u : Unit} (h : Check.returning tree received c = .ok u c')
    (hreturns : ∀ ty, c'.returning = some (some ty) → ty = returns) :
    isAssignable returns received = true := by
  unfold Check.returning at h
  split at h
  · cases h
  · cases h
    rw [hreturns received rfl]
    exact isAssignable_refl _
  · next expected hexpected =>
      obtain ⟨hassignable, rfl⟩ := Check.require_eq_ok.mp h
      rw [hreturns expected hexpected] at hassignable
      exact requireAssignable_eq_ok.mp hassignable

mutual

theorem extends_of_annotateStatement : ∀ (input : Statement) {output : Statement} {c c' : Context},
    annotateStatement settings input c = .ok output c' → c.Extends c'
  | .expression expression, output, c, c', h => by
      cases rule_of_annotateStatement h
      exact .refl c
  | .declaration name typeName value old, output, c, c', h => by
      cases rule_of_annotateStatement h with
      | declaration hscope => exact .of_scope (Scope.defineVariable?_eq_some.mp hscope).2
      | initialised _ _ hscope => exact .of_scope (Scope.defineVariable?_eq_some.mp hscope).2
  | .assignment receiver value, output, c, c', h => by
      cases rule_of_annotateStatement h
      exact .refl c
  | .branch test thenBody elseBody, output, c, c', h => by
      cases rule_of_annotateStatement h with
      | branch _ hthen helse =>
          exact (extends_of_annotateStatements thenBody hthen).leave.trans
            (extends_of_annotateStatements elseBody helse).leave
  | .switch test cases, output, c, c', h => by
      cases rule_of_annotateStatement h with
      | switch _ hcases => exact (extends_of_annotateCases cases hcases).1
  | .loop test body, output, c, c', h => by
      cases rule_of_annotateStatement h with
      | loop _ hbody => exact (extends_of_annotateStatements body hbody).leave
  | .result value, output, c, c', h => by
      cases rule_of_annotateStatement h with
      | result _ hreturning => exact extends_of_returning hreturning

theorem extends_of_annotateStatements :
    ∀ (input : List Statement) {output : List Statement} {c c' : Context},
      annotateStatements settings input c = .ok output c' → c.Extends c'
  | [], output, c, c', h => by
      cases rule_of_annotateStatements h
      exact .refl c
  | statement :: statements, output, c, c', h => by
      cases rule_of_annotateStatements h with
      | more hfirst hrest =>
          exact (extends_of_annotateStatement statement hfirst).trans
            (extends_of_annotateStatements statements hrest)

/-- The cases of a switch have blocks of their own and leave the scope as it was. -/
theorem extends_of_annotateCases :
    ∀ (input : List Case) {output : List Case} {ty : Ty} {c c' : Context},
      annotateCases settings ty input c = .ok output c' → c.Extends c' ∧ c'.scope = c.scope
  | [], output, ty, c, c', h => by
      cases rule_of_annotateCases h
      exact ⟨.refl c, rfl⟩
  | .mk value body :: cases, output, ty, c, c', h => by
      cases rule_of_annotateCases h with
      | default hbody =>
          have hblock := extends_of_annotateStatements body hbody
          exact ⟨hblock.leave, hblock.scope_leave⟩
      | more _ hbody hcases =>
          have hblock := extends_of_annotateStatements body hbody
          obtain ⟨hrest, hscope⟩ := extends_of_annotateCases cases hcases
          exact ⟨hblock.leave.trans hrest, hscope.trans hblock.scope_leave⟩

end

theorem extends_of_defineParameters {Tree : Type} {tree : Tree} :
    ∀ {parameters : List Parameter} {types : List Ty} {c c' : Context} {u : Unit},
      defineParameters tree parameters types c = .ok u c' → c.Extends c' := by
  intro parameters
  induction parameters with
  | nil =>
      intro types c c' u h
      simp only [defineParameters, pure_eq_ok] at h
      rw [← h.2]
      exact .refl c
  | cons parameter parameters ih =>
      intro types c c' u h
      cases types with
      | nil =>
          simp only [defineParameters, pure_eq_ok] at h
          rw [← h.2]
          exact .refl c
      | cons ty types =>
          simp only [defineParameters, bind_eq_ok] at h
          obtain ⟨_, c₁, hfirst, hrest⟩ := h
          exact (extends_of_define hfirst).trans (ih hrest)

end TinyScript.Typing
