import TinyScript.Proofs.Rewriting
import TinyScript.Proofs.Stage

/-!
# The checker changes annotations only

An annotated tree with its annotations emptied again is the tree that was checked, without those
that it had. This is shown rule by rule, along the tree that is checked, and then pass by pass
(`Accepts.erase`).
-/

namespace TinyScript

open Typing

section Erasing

variable {settings : Settings}

mutual

theorem erase_of_annotateExpression : ∀ (input : Expression) {scope : StaticScope}
    {output : Expression} {ty : Ty}, annotateExpression settings scope input = .ok (output, ty) →
      output.rewrite .erasing = input.rewrite .erasing
  | .literal value old, scope, output, ty, h => by
      cases rule_of_annotateExpression h
      rfl
  | .group inner old, scope, output, ty, h => by
      cases rule_of_annotateExpression h with
      | group hinner =>
          simp only [Expression.rewrite, erase_of_annotateExpression inner hinner]
          rfl
  | .binary operator left right old, scope, output, ty, h => by
      cases rule_of_annotateExpression h with
      | binary hleft hright =>
          simp only [Expression.rewrite, erase_of_annotateExpression left hleft,
            erase_of_annotateExpression right hright]
          rfl
  | .access name binding old, scope, output, ty, h => by
      cases rule_of_annotateExpression h
      rfl
  | .element name index binding old, scope, output, ty, h => by
      cases rule_of_annotateExpression h with
      | element _ hindex =>
          simp only [Expression.rewrite, erase_of_annotateExpression index hindex]
          rfl
  | .call name arguments binding old, scope, output, ty, h => by
      cases rule_of_annotateExpression h with
      | call _ harguments =>
          simp only [Expression.rewrite, erase_of_annotateArguments arguments harguments]
          rfl
  | .list elements old, scope, output, ty, h => by
      cases rule_of_annotateExpression h with
      | list helements =>
          simp only [Expression.rewrite, erase_of_annotateElements elements helements]
          rfl

theorem erase_of_annotateArguments : ∀ (input : List Expression) {scope : StaticScope}
    {parameters : List Ty} {output : List Expression},
      annotateArguments settings scope input parameters = .ok output →
        rewriteExpressions .erasing output = rewriteExpressions .erasing input
  | [], scope, parameters, output, h => by
      cases rule_of_annotateArguments h <;> rfl
  | argument :: arguments, scope, parameters, output, h => by
      cases rule_of_annotateArguments h with
      | beyond => rfl
      | more hargument _ harguments =>
          simp only [rewriteExpressions, erase_of_annotateExpression argument hargument,
            erase_of_annotateArguments arguments harguments]

theorem erase_of_annotateElements : ∀ (input : List Expression) {scope : StaticScope}
    {output : List Expression}, annotateElements settings scope input = .ok output →
      rewriteExpressions .erasing output = rewriteExpressions .erasing input
  | [], scope, output, h => by
      cases rule_of_annotateElements h
      rfl
  | element :: elements, scope, output, h => by
      cases rule_of_annotateElements h with
      | more helement helements =>
          simp only [rewriteExpressions, erase_of_annotateExpression element helement,
            erase_of_annotateElements elements helements]

end

mutual

theorem erase_of_annotateStatement : ∀ (input : Statement) {c c' : Context} {output : Statement},
    annotateStatement settings input c = .ok output c' →
      output.rewrite .erasing = input.rewrite .erasing
  | .expression expression, c, c', output, h => by
      cases rule_of_annotateStatement h with
      | expression hexpression =>
          simp only [Statement.rewrite, erase_of_annotateExpression _ hexpression]
  | .declaration name typeName value old, c, c', output, h => by
      cases rule_of_annotateStatement h with
      | declaration => rfl
      | initialised hvalue =>
          simp only [Statement.rewrite, Option.map_some, erase_of_annotateExpression _ hvalue]
          rfl
  | .assignment receiver value, c, c', output, h => by
      cases rule_of_annotateStatement h with
      | assignment _ hreceiver hvalue =>
          simp only [Statement.rewrite, erase_of_annotateExpression _ hreceiver,
            erase_of_annotateExpression _ hvalue]
  | .branch test thenBody elseBody, c, c', output, h => by
      cases rule_of_annotateStatement h with
      | branch htest hthen helse =>
          simp only [Statement.rewrite, erase_of_annotateExpression _ htest,
            erase_of_annotateStatements thenBody hthen, erase_of_annotateStatements elseBody helse]
  | .switch test cases, c, c', output, h => by
      cases rule_of_annotateStatement h with
      | switch htest hcases =>
          simp only [Statement.rewrite, erase_of_annotateExpression _ htest,
            erase_of_annotateCases cases hcases]
  | .loop test body, c, c', output, h => by
      cases rule_of_annotateStatement h with
      | loop htest hbody =>
          simp only [Statement.rewrite, erase_of_annotateExpression _ htest,
            erase_of_annotateStatements body hbody]
  | .result value, c, c', output, h => by
      cases rule_of_annotateStatement h with
      | result hvalue =>
          simp only [Statement.rewrite, erase_of_annotateExpression _ hvalue]

theorem erase_of_annotateStatements : ∀ (input : List Statement) {c c' : Context}
    {output : List Statement}, annotateStatements settings input c = .ok output c' →
      rewriteStatements .erasing output = rewriteStatements .erasing input
  | [], c, c', output, h => by
      cases rule_of_annotateStatements h
      rfl
  | statement :: statements, c, c', output, h => by
      cases rule_of_annotateStatements h with
      | more hfirst hrest =>
          simp only [rewriteStatements, erase_of_annotateStatement statement hfirst,
            erase_of_annotateStatements statements hrest]

theorem erase_of_annotateCases : ∀ (input : List Case) {ty : Ty} {c c' : Context}
    {output : List Case}, annotateCases settings ty input c = .ok output c' →
      rewriteCases .erasing output = rewriteCases .erasing input
  | [], ty, c, c', output, h => by
      cases rule_of_annotateCases h
      rfl
  | .mk value body :: cases, ty, c, c', output, h => by
      cases rule_of_annotateCases h with
      | default hbody => simp only [rewriteCases, erase_of_annotateStatements body hbody]
      | more hvalue hbody hcases =>
          simp only [rewriteCases, Option.map_some, erase_of_annotateExpression _ hvalue,
            erase_of_annotateStatements body hbody, erase_of_annotateCases cases hcases]

end

theorem erase_of_annotateGlobal {input output : Global} {c c' : Context}
    (h : annotateGlobal settings input c = .ok output c') :
    output.rewrite .erasing = input.rewrite .erasing := by
  obtain ⟨binding, scope, hrule, -, -⟩ := rule_of_annotateGlobal h
  cases hrule with
  | declared hvalue =>
      simp only [Global.rewrite, hvalue]
      rfl
  | list hvalue _ hann =>
      simp only [Global.rewrite, hvalue, Option.map_some, erase_of_annotateExpression _ hann]
      rfl
  | other hvalue hann =>
      simp only [Global.rewrite, hvalue, Option.map_some, erase_of_annotateExpression _ hann]
      rfl

theorem erase_of_registerFunction {input output : Function} {c c' : Context}
    (h : registerFunction settings input c = .ok output c') :
    output.rewrite .erasing = input.rewrite .erasing := by
  obtain ⟨signature, scope, -, rfl, -, -⟩ := registerFunction_eq_ok h
  rfl

theorem erase_of_annotateFunction {input output : Function} {c c' : Context}
    (h : annotateFunction settings input c = .ok output c') :
    output.rewrite .erasing = input.rewrite .erasing := by
  obtain ⟨after, hrule⟩ := rule_of_annotateFunction h
  cases hrule with
  | declared _ _ _ hbody =>
      simp only [Function.rewrite, erase_of_annotateStatements _ hbody]
  | inferred _ _ _ hbody =>
      simp only [Function.rewrite, erase_of_annotateStatements _ hbody]
      rfl

/-- The checker changes annotations only. -/
theorem Accepts.erase {source annotated : Program} {functions : List Function}
    {c₀ c₁ c₂ : Context} (h : Accepts settings source annotated functions c₀ c₁ c₂) :
    annotated.rewrite .erasing = source.rewrite .erasing := by
  have hglobals := map_of_annotateEach erase_of_annotateGlobal h.globals
  have hregistered := map_of_annotateEach erase_of_registerFunction h.registered
  have hbodies := map_of_annotateEach erase_of_annotateFunction h.bodies
  rw [Program.rewrite, hglobals, hbodies, hregistered]
  rfl

end Erasing

end TinyScript
