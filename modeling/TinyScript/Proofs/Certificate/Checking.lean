import TinyScript.Proofs.Certificate.Rules
import TinyScript.Proofs.Typing.Program

/-!
# Checked trees keep to the rules

What the checker makes of a tree keeps to the rules of certificates, where the scope it is in knows
names as the view at that place does (`View.Agrees`). Behind statements this is so again, and what
the results among them have told of the function around them (`Infers`) is what its signature says.
-/

namespace TinyScript

open Typing

namespace Certificate

/-! ## Names -/

/-- A scope of the checker knows names as the view does. -/
structure View.Agrees (view : View) (scope : StaticScope) : Prop where
  visible : ∀ name, view.visible.lookup name = scope.lookupVariable name
  signatures : ∀ name arity,
    view.signatures.lookup (name, arity) = (scope.lookupFunction name arity).map Prod.fst
  arity : ∀ name arity signature, view.signatures.lookup (name, arity) = some signature →
    signature.parameters.length = arity

namespace View.Agrees

variable {view : View} {scope scope' : StaticScope}

theorem enter (h : view.Agrees scope) : view.Agrees scope.enter :=
  ⟨h.visible, h.signatures, h.arity⟩

theorem define {binding : VariableBinding} (h : view.Agrees scope)
    (hdefine : scope.defineVariable? binding.name binding = some scope') :
    (view.bind binding).Agrees scope' := by
  obtain ⟨hfree, rfl⟩ := Scope.defineVariable?_eq_some.mp hdefine
  refine ⟨fun name => ?_, fun name arity => ?_, h.arity⟩
  · rw [Scope.lookupVariable_addVariable, ← h.visible name]
    exact lookup_entry_cons _ _ _ _
  · rw [Scope.lookupFunction_addVariable]
    exact h.signatures name arity

theorem call {name : String} {arguments : Nat} {signature : Signature} {home : StaticScope}
    (h : view.Agrees scope)
    (hfound : scope.lookupFunction name arguments = some (signature, home)) :
    view.signatures.lookup (name, arguments) = some signature ∧
      signature.parameters.length = arguments := by
  have hlookup := h.signatures name arguments
  rw [hfound] at hlookup
  exact ⟨hlookup, h.arity _ _ _ hlookup⟩

end View.Agrees

/-! ## Expressions -/

section Expressions

variable {settings : Settings} {view : View} {scope : StaticScope}

theorem certifies_element {name : String} {index : Expression} {indexTy ty : Ty}
    {binding : VariableBinding} (hvisible : view.visible.lookup name = some binding)
    (hindex : Certifies view index indexTy) (hty : elementType binding name indexTy = .ok ty) :
    Certifies view (.element name index (some binding) (some ty)) ty := by
  simp only [elementType, Except.bind_eq_ok, requireExact_eq_ok] at hty
  obtain ⟨_, rfl, hty⟩ := hty
  split at hty
  · next hlist =>
      cases hty
      exact .listElement hvisible hindex hlist
  · next hany =>
      cases hty
      exact .anyElement hvisible hindex hany
  · cases hty

mutual

theorem certifies_of_annotateExpression (h : view.Agrees scope) : ∀ (input : Expression)
    {output : Expression} {ty : Ty}, annotateExpression settings scope input = .ok (output, ty) →
      Certifies view output ty
  | .literal value old, output, ty, hann => by
      cases rule_of_annotateExpression hann with
      | literal hty => exact .literal hty
  | .group inner old, output, ty, hann => by
      cases rule_of_annotateExpression hann with
      | group hinner => exact .group (certifies_of_annotateExpression h inner hinner)
  | .binary operator left right old, output, ty, hann => by
      cases rule_of_annotateExpression hann with
      | binary hleft hright hty =>
          exact .binary (certifies_of_annotateExpression h left hleft)
            (certifies_of_annotateExpression h right hright) hty
  | .access name binding old, output, ty, hann => by
      cases rule_of_annotateExpression hann with
      | access hfound => exact .access ((h.visible name).trans hfound)
  | .element name index binding old, output, ty, hann => by
      cases rule_of_annotateExpression hann with
      | element hfound hindex hty =>
          exact certifies_element ((h.visible name).trans hfound)
            (certifies_of_annotateExpression h index hindex) hty
  | .call name arguments binding old, output, ty, hann => by
      cases rule_of_annotateExpression hann with
      | call hfound harguments =>
          obtain ⟨hlookup, harity⟩ := h.call hfound
          obtain ⟨hlength, hcertified⟩ :=
            certifies_of_annotateArguments h arguments harguments harity.symm
          exact .call (hlength ▸ hlookup) hcertified
  | .list elements old, output, ty, hann => by
      cases rule_of_annotateExpression hann with
      | list helements => exact .list (certifies_of_annotateElements h elements helements)

theorem certifies_of_annotateArguments (h : view.Agrees scope) : ∀ (input : List Expression)
    {parameters : List Ty} {output : List Expression},
      annotateArguments settings scope input parameters = .ok output →
        input.length = parameters.length →
          input.length = output.length ∧ CertifiesArguments view output parameters
  | [], parameters, output, hann, hlength => by
      obtain rfl := List.length_eq_zero_iff.mp hlength.symm
      cases rule_of_annotateArguments hann with
      | none => exact ⟨rfl, .none⟩
      | beyond => exact ⟨rfl, .none⟩
  | argument :: arguments, parameters, output, hann, hlength => by
      cases rule_of_annotateArguments hann with
      | beyond => cases hlength
      | more hargument hassignable harguments =>
          obtain ⟨hrest, hcertified⟩ :=
            certifies_of_annotateArguments h arguments harguments (Nat.succ.inj hlength)
          exact ⟨congrArg (· + 1) hrest,
            .more (certifies_of_annotateExpression h argument hargument) hassignable hcertified⟩

theorem certifies_of_annotateElements (h : view.Agrees scope) : ∀ (input : List Expression)
    {output : List Expression}, annotateElements settings scope input = .ok output →
      CertifiesElements view output
  | [], output, hann => by
      cases rule_of_annotateElements hann
      exact .none
  | element :: elements, output, hann => by
      cases rule_of_annotateElements hann with
      | more helement helements =>
          exact .more (certifies_of_annotateExpression h element helement)
            (certifies_of_annotateElements h elements helements)

end

theorem isReceiver_of_annotateExpression {input output : Expression} {ty : Ty}
    (h : annotateExpression settings scope input = .ok (output, ty)) :
    output.isReceiver = input.isReceiver := by
  cases rule_of_annotateExpression h <;> rfl

end Expressions

/-! ## Statements -/

section Statements

variable {settings : Settings} {returns : Ty}

mutual

/-- Statements keep to the rules, and behind them the scope knows names as the view does again. What
the function returns is what is known of it behind them, if anything is. -/
theorem certifies_of_annotateStatement : ∀ (input : Statement) {view : View} {c c' : Context}
    {output : Statement}, annotateStatement settings input c = .ok output c' →
      view.Agrees c.scope → (∀ ty, c'.returning = some (some ty) → ty = returns) →
        ∃ view', CertifiesStatement settings.names returns view output view' ∧
          view'.Agrees c'.scope
  | .expression expression, view, c, c', output, hann, h, hreturns => by
      cases rule_of_annotateStatement hann with
      | expression hexpression =>
          exact ⟨view, .expression (certifies_of_annotateExpression h _ hexpression), h⟩
  | .declaration name typeName value old, view, c, c', output, hann, h, hreturns => by
      cases rule_of_annotateStatement hann with
      | declaration hdefine hdeclared => exact ⟨_, .declaration hdeclared, h.define hdefine⟩
      | initialised hvalue hassignable hdefine hdeclared hty =>
          subst hty
          exact ⟨_, .initialised hdeclared (certifies_of_annotateExpression h _ hvalue) hassignable,
            h.define hdefine⟩
  | .assignment receiver value, view, c, c', output, hann, h, hreturns => by
      cases rule_of_annotateStatement hann with
      | assignment hreceiver htarget hvalue hassignable =>
          have hreceiver' := (isReceiver_of_annotateExpression htarget).trans hreceiver
          exact ⟨view, .assignment hreceiver' (certifies_of_annotateExpression h _ htarget)
            (certifies_of_annotateExpression h _ hvalue) hassignable, h⟩
  | .branch test thenBody elseBody, view, c, c', output, hann, h, hreturns => by
      cases rule_of_annotateStatement hann with
      | branch htest hthen helse =>
          have hthenScope := (extends_of_annotateStatements _ hthen).scope_leave
          have helseExtends := extends_of_annotateStatements _ helse
          obtain ⟨_, hthenBody, -⟩ := certifies_of_annotateStatements thenBody hthen h.enter
            fun ty hty => hreturns ty (helseExtends.returning ty hty)
          obtain ⟨_, helseBody, -⟩ := certifies_of_annotateStatements elseBody helse
            (hthenScope ▸ h : view.Agrees _).enter hreturns
          refine ⟨view, .branch (certifies_of_annotateExpression h _ htest) hthenBody helseBody, ?_⟩
          rwa [helseExtends.scope_leave, hthenScope]
  | .switch test cases, view, c, c', output, hann, h, hreturns => by
      cases rule_of_annotateStatement hann with
      | switch htest hcases =>
          refine ⟨view, .switch (certifies_of_annotateExpression h _ htest)
            (certifies_of_annotateCases cases hcases h hreturns), ?_⟩
          rwa [(extends_of_annotateCases cases hcases).2]
  | .loop test body, view, c, c', output, hann, h, hreturns => by
      cases rule_of_annotateStatement hann with
      | loop htest hbody =>
          obtain ⟨_, hinner, -⟩ := certifies_of_annotateStatements body hbody h.enter hreturns
          refine ⟨view, .loop (certifies_of_annotateExpression h _ htest) hinner, ?_⟩
          rwa [(extends_of_annotateStatements _ hbody).scope_leave]
  | .result value, view, c, c', output, hann, h, hreturns => by
      cases rule_of_annotateStatement hann with
      | result hvalue hreturning =>
          refine ⟨view, .result (certifies_of_annotateExpression h _ hvalue)
            (assignable_of_returning hreturning hreturns), ?_⟩
          rwa [scope_of_returning hreturning]

theorem certifies_of_annotateStatements : ∀ (input : List Statement) {view : View}
    {c c' : Context} {output : List Statement},
      annotateStatements settings input c = .ok output c' →
      view.Agrees c.scope → (∀ ty, c'.returning = some (some ty) → ty = returns) →
        ∃ view', CertifiesStatements settings.names returns view output view' ∧
          view'.Agrees c'.scope
  | [], view, c, c', output, hann, h, hreturns => by
      cases rule_of_annotateStatements hann
      exact ⟨view, .none, h⟩
  | statement :: statements, view, c, c', output, hann, h, hreturns => by
      cases rule_of_annotateStatements hann with
      | more hfirst hrest =>
          have hextends := extends_of_annotateStatements _ hrest
          obtain ⟨view₁, hstatement, h₁⟩ := certifies_of_annotateStatement statement hfirst h
            fun ty hty => hreturns ty (hextends.returning ty hty)
          obtain ⟨view₂, hstatements, h₂⟩ :=
            certifies_of_annotateStatements statements hrest h₁ hreturns
          exact ⟨view₂, .more hstatement hstatements, h₂⟩

theorem certifies_of_annotateCases : ∀ (input : List Case) {view : View} {ty : Ty}
    {c c' : Context} {output : List Case}, annotateCases settings ty input c = .ok output c' →
      view.Agrees c.scope → (∀ ty, c'.returning = some (some ty) → ty = returns) →
        CertifiesCases settings.names returns view ty output
  | [], view, ty, c, c', output, hann, h, hreturns => by
      cases rule_of_annotateCases hann
      exact .none
  | .mk value body :: cases, view, ty, c, c', output, hann, h, hreturns => by
      cases rule_of_annotateCases hann with
      | default hbody =>
          obtain ⟨_, hinner, -⟩ := certifies_of_annotateStatements body hbody h.enter hreturns
          exact .default hinner
      | more hvalue hbody hcases hassignable =>
          have hscope := (extends_of_annotateStatements _ hbody).scope_leave
          have hextends := (extends_of_annotateCases _ hcases).1
          obtain ⟨_, hinner, -⟩ := certifies_of_annotateStatements body hbody h.enter
            fun ty hty => hreturns ty (hextends.returning ty hty)
          exact .more (certifies_of_annotateExpression h _ hvalue) hassignable hinner
            (certifies_of_annotateCases cases hcases (hscope ▸ h) hreturns)

end

/-! ## Inferred results -/

/-- Where nothing is known yet of what a function returns, the first of some results tells it. -/
def Infers (types : List (Option Ty)) (c c' : Context) : Prop :=
  c.returning = some none →
    (types = [] ∧ c'.returning = some none) ∨
      ∃ ty rest, types = some ty :: rest ∧ c'.returning = some (some ty)

theorem Infers.append {types types' : List (Option Ty)} {c c₁ c₂ : Context}
    (h : Infers types c c₁) (h' : Infers types' c₁ c₂) (hextends : c₁.Extends c₂) :
    Infers (types ++ types') c c₂ := by
  intro hnone
  obtain ⟨rfl, hnone₁⟩ | ⟨ty, rest, rfl, hty⟩ := h hnone
  · exact h' hnone₁
  · exact .inr ⟨ty, rest ++ types', rfl, hextends.returning ty hty⟩

/-- A block changes nothing of what is known. -/
theorem Infers.block {types : List (Option Ty)} {c c₁ : Context} (h : Infers types c.enter c₁) :
    Infers types c c₁.leave := h

theorem infers_none {c c' : Context} (h : c'.returning = c.returning) : Infers [] c c' :=
  fun hnone => .inl ⟨rfl, h.trans hnone⟩

theorem infers_of_returning {Tree : Type} {tree : Tree} {received : Ty} {c c' : Context} {u : Unit}
    (h : Check.returning tree received c = .ok u c') : Infers [some received] c c' := by
  intro hnone
  unfold Check.returning at h
  rw [hnone] at h
  cases h
  exact .inr ⟨received, [], rfl, rfl⟩

mutual

theorem infers_of_annotateStatement : ∀ (input : Statement) {c c' : Context} {output : Statement},
    annotateStatement settings input c = .ok output c' → Infers output.resultTypes c c'
  | .expression expression, c, c', output, hann => by
      cases rule_of_annotateStatement hann
      exact infers_none rfl
  | .declaration name typeName value old, c, c', output, hann => by
      cases rule_of_annotateStatement hann <;> exact infers_none rfl
  | .assignment receiver value, c, c', output, hann => by
      cases rule_of_annotateStatement hann
      exact infers_none rfl
  | .branch test thenBody elseBody, c, c', output, hann => by
      cases rule_of_annotateStatement hann with
      | branch _ hthen helse =>
          have hfirst := (infers_of_annotateStatements thenBody hthen).block
          have hsecond := (infers_of_annotateStatements elseBody helse).block
          exact hfirst.append hsecond (extends_of_annotateStatements _ helse).leave
  | .switch test cases, c, c', output, hann => by
      cases rule_of_annotateStatement hann with
      | switch _ hcases => exact infers_of_annotateCases cases hcases
  | .loop test body, c, c', output, hann => by
      cases rule_of_annotateStatement hann with
      | loop _ hbody => exact (infers_of_annotateStatements body hbody).block
  | .result value, c, c', output, hann => by
      cases rule_of_annotateStatement hann with
      | result hvalue hreturning =>
          rw [Statement.resultTypes, ty_of_annotateExpression hvalue]
          exact infers_of_returning hreturning

theorem infers_of_annotateStatements : ∀ (input : List Statement) {c c' : Context}
    {output : List Statement}, annotateStatements settings input c = .ok output c' →
      Infers (resultTypesOf output) c c'
  | [], c, c', output, hann => by
      cases rule_of_annotateStatements hann
      exact infers_none rfl
  | statement :: statements, c, c', output, hann => by
      cases rule_of_annotateStatements hann with
      | more hfirst hrest =>
          exact (infers_of_annotateStatement statement hfirst).append
            (infers_of_annotateStatements statements hrest)
            (extends_of_annotateStatements _ hrest)

theorem infers_of_annotateCases : ∀ (input : List Case) {ty : Ty} {c c' : Context}
    {output : List Case}, annotateCases settings ty input c = .ok output c' →
      Infers (resultTypesOfCases output) c c'
  | [], ty, c, c', output, hann => by
      cases rule_of_annotateCases hann
      exact infers_none rfl
  | .mk value body :: cases, ty, c, c', output, hann => by
      cases rule_of_annotateCases hann with
      | default hbody =>
          have hinner := infers_of_annotateStatements body hbody
          rw [resultTypesOfCases, resultTypesOfCases, List.append_nil]
          exact hinner
      | more _ hbody hcases =>
          have hinner := (infers_of_annotateStatements body hbody).block
          exact hinner.append (infers_of_annotateCases cases hcases)
            (extends_of_annotateCases _ hcases).1

end

end Statements

end Certificate

end TinyScript
