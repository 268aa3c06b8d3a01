import TinyScript.Proofs.Certificate.Erasure

/-!
# How checks end

A check ends well, with a value, or badly, with a fault that carries the tree as far as it has been
annotated; either way it leaves a context behind. `Check.Ends` describes both endings at once, with
one rule for each way to put checks together, so that what a fault leaves behind can be followed
from the innermost part to the whole. What comes out here: a fault carries the tree that was given,
with other annotations (`ends_annotateStatement`, `ends_annotateGlobal`, `ends_annotateFunction`,
`ends_annotateProgram`), and what is checked outside of a function leaves the place around it as it
was.
-/

namespace TinyScript.Typing

variable {Part Whole Tree α β : Type} {settings : Settings}

/-! ## Endings without a context -/

/-- Every fault carries a tree as described. -/
def Faults (checked : Except (Fault Tree) α) (badly : Tree → Prop) : Prop :=
  ∀ fault, checked = .error fault → badly fault.tree

namespace Faults

variable {badly : Tree → Prop}

theorem ok {a : α} : Faults (.ok a) badly := nofun

theorem error {fault : Fault Tree} (h : badly fault.tree) :
    Faults (.error fault : Except (Fault Tree) α) badly := by
  intro _ heq
  cases heq
  exact h

theorem bind {x : Except (Fault Tree) α} {f : α → Except (Fault Tree) β} (hx : Faults x badly)
    (hf : ∀ a, x = .ok a → Faults (f a) badly) : Faults (x >>= f) badly := by
  cases x with
  | ok a => exact hf a rfl
  | error fault => exact error (hx fault rfl)

theorem within {rebuild : Part → Whole} {checked : Except (Fault Part) α} {badly : Whole → Prop}
    (h : Faults checked fun part => badly (rebuild part)) :
    Faults (within rebuild checked) badly := by
  cases checked with
  | ok a => exact ok
  | error fault => exact error (h fault rfl)

theorem demand {tree : Tree} {result : Except TypeError α} (h : badly tree) :
    Faults (demand tree result) badly := by
  cases result with
  | ok a => exact ok
  | error reason => exact error h

end Faults

mutual

/-- A fault in an expression carries the expression, with other annotations. -/
theorem faults_annotateExpression : ∀ (input : Expression) {scope : StaticScope},
    Faults (annotateExpression settings scope input) fun tree =>
      tree.rewrite .erasing = input.rewrite .erasing
  | .literal value old, scope => by
      rw [annotateExpression]
      exact .bind (.demand rfl) fun _ _ => .ok
  | .group inner old, scope => by
      rw [annotateExpression]
      split
      · exact .error rfl
      · refine .bind (.within fun fault hfault => ?_) fun _ _ => .ok
        simp only [Expression.rewrite, faults_annotateExpression inner fault hfault]
  | .binary operator left right old, scope => by
      rw [annotateExpression]
      refine .bind (.within fun fault hfault => ?_) fun (left', leftTy) hleft =>
        .bind (.within fun fault hfault => ?_) fun (right', rightTy) hright =>
          .bind (.demand ?_) fun _ _ => .ok
      · simp only [Expression.rewrite, faults_annotateExpression left fault hfault]
      · simp only [Expression.rewrite, faults_annotateExpression right fault hfault,
          erase_of_annotateExpression left (within_eq_ok.mp hleft)]
      · simp only [Expression.rewrite, erase_of_annotateExpression left (within_eq_ok.mp hleft),
          erase_of_annotateExpression right (within_eq_ok.mp hright)]
  | .access name oldBinding old, scope => by
      rw [annotateExpression]
      split
      · exact .error rfl
      · exact .ok
  | .element name index oldBinding old, scope => by
      rw [annotateExpression]
      split
      · exact .error rfl
      · refine .bind (.within fun fault hfault => ?_) fun (index', indexTy) hindex =>
          .bind (.demand ?_) fun _ _ => .ok
        · simp only [Expression.rewrite, faults_annotateExpression index fault hfault]
        · simp only [Expression.rewrite,
            erase_of_annotateExpression index (within_eq_ok.mp hindex)]
  | .call name arguments oldBinding old, scope => by
      rw [annotateExpression]
      split
      · exact .error rfl
      · refine .bind (.within fun fault hfault => ?_) fun _ _ => .ok
        simp only [Expression.rewrite, faults_annotateArguments arguments _ fault hfault]
  | .list elements old, scope => by
      rw [annotateExpression]
      refine .bind (.within fun fault hfault => ?_) fun _ _ => .ok
      simp only [Expression.rewrite, faults_annotateElements elements fault hfault]

theorem faults_annotateArguments : ∀ (input : List Expression) (parameters : List Ty)
    {scope : StaticScope}, Faults (annotateArguments settings scope input parameters) fun tree =>
      rewriteExpressions .erasing tree = rewriteExpressions .erasing input
  | [], parameters, scope => by
      rw [annotateArguments]
      exact .ok
  | argument :: arguments, [], scope => by
      rw [annotateArguments]
      · exact .ok
      · exact nofun
  | argument :: arguments, expected :: parameters, scope => by
      rw [annotateArguments]
      refine .bind (.within fun fault hfault => ?_) fun (argument', received) hargument =>
        .bind (.demand ?_) fun _ _ => .bind (.within fun fault hfault => ?_) fun _ _ => .ok
      · simp only [rewriteExpressions, faults_annotateExpression argument fault hfault]
      · simp only [rewriteExpressions,
          erase_of_annotateExpression argument (within_eq_ok.mp hargument)]
      · simp only [rewriteExpressions, faults_annotateArguments arguments parameters fault hfault,
          erase_of_annotateExpression argument (within_eq_ok.mp hargument)]

theorem faults_annotateElements : ∀ (input : List Expression) {scope : StaticScope},
    Faults (annotateElements settings scope input) fun tree =>
      rewriteExpressions .erasing tree = rewriteExpressions .erasing input
  | [], scope => by
      rw [annotateElements]
      exact .ok
  | element :: elements, scope => by
      rw [annotateElements]
      refine .bind (.within fun fault hfault => ?_) fun (element', _) helement =>
        .bind (.within fun fault hfault => ?_) fun _ _ => .ok
      · simp only [rewriteExpressions, faults_annotateExpression element fault hfault]
      · simp only [rewriteExpressions, faults_annotateElements elements fault hfault,
          erase_of_annotateExpression element (within_eq_ok.mp helement)]

end

/-! ## Endings in a context -/

/-- A check ends in a context as described: well, with a value and a context, or badly, with the
tree of a fault and a context. -/
def Check.Ends (check : Check Tree α) (c : Context) (well : α → Context → Prop)
    (badly : Tree → Context → Prop) : Prop :=
  match check c with
  | .ok a c' => well a c'
  | .error fault c' => badly fault.tree c'

namespace Check.Ends

variable {c : Context} {badly : Tree → Context → Prop}

theorem of_ok {check : Check Tree α} {well : α → Context → Prop} (h : check.Ends c well badly)
    {a : α} {c' : Context} (hok : check c = .ok a c') : well a c' := by
  unfold Ends at h
  rwa [hok] at h

theorem of_error {check : Check Tree α} {well : α → Context → Prop} (h : check.Ends c well badly)
    {fault : Fault Tree} {c' : Context} (herror : check c = .error fault c') :
    badly fault.tree c' := by
  unfold Ends at h
  rwa [herror] at h

theorem pure {a : α} {well : α → Context → Prop} (h : well a c) :
    (pure a : Check Tree α).Ends c well badly := h

theorem mono {check : Check Tree α} {well well' : α → Context → Prop}
    {badly badly' : Tree → Context → Prop} (h : check.Ends c well badly)
    (hwell : ∀ a c', check c = .ok a c' → well a c' → well' a c')
    (hbadly : ∀ tree c', badly tree c' → badly' tree c') : check.Ends c well' badly' := by
  unfold Ends at h ⊢
  cases hcheck : check c with
  | ok a c' =>
      rw [hcheck] at h
      exact hwell a c' hcheck h
  | error fault c' =>
      rw [hcheck] at h
      exact hbadly fault.tree c' h

theorem bind {x : Check Tree α} {f : α → Check Tree β} {well : β → Context → Prop}
    (h : x.Ends c (fun a c₁ => (f a).Ends c₁ well badly) badly) :
    (x >>= f).Ends c well badly := by
  show match EStateM.bind x f c with
    | .ok a c' => well a c'
    | .error fault c' => badly fault.tree c'
  unfold Ends at h
  unfold EStateM.bind
  cases hx : x c <;> rw [hx] at h <;> exact h

theorem part {rebuild : Part → Whole} {check : Check Part α} {well : α → Context → Prop}
    {badly : Whole → Context → Prop}
    (h : check.Ends c well fun tree => badly (rebuild tree)) :
    (Check.part rebuild check).Ends c well badly := by
  unfold Ends at h ⊢
  unfold Check.part
  cases hcheck : check c <;> rw [hcheck] at h <;> exact h

theorem require {tree : Tree} {result : Except TypeError α} {well : α → Context → Prop}
    (hwell : ∀ a, result = .ok a → well a c) (hbadly : badly tree c) :
    (Check.require tree result).Ends c well badly := by
  cases result with
  | ok a => exact hwell a rfl
  | error reason => exact hbadly

theorem define {tree : Tree} {binding : VariableBinding} {well : Unit → Context → Prop}
    (hwell : ∀ scope, c.scope.defineVariable? binding.name binding = some scope →
      well () { c with scope }) (hbadly : badly tree c) :
    (Check.define tree binding).Ends c well badly := by
  unfold Ends Check.define
  cases hscope : c.scope.defineVariable? binding.name binding with
  | none => exact hbadly
  | some scope => exact hwell scope hscope

theorem inBlock {check : Check Tree α} {well : α → Context → Prop}
    (h : check.Ends c.enter (fun a c' => well a c'.leave) fun tree c' => badly tree c'.leave) :
    (Check.inBlock check).Ends c well badly := by
  unfold Ends at h ⊢
  unfold Check.inBlock
  change match check { c with scope := c.scope.enter } with
    | .ok a c' => _
    | .error fault c' => _ at h
  cases hcheck : check { c with scope := c.scope.enter } <;> rw [hcheck] at h <;> exact h

theorem expression {rebuild : Expression → Tree} {input : Expression}
    {well : Expression × Ty → Context → Prop}
    (hwell : ∀ output ty, output.rewrite .erasing = input.rewrite .erasing → well (output, ty) c)
    (hbadly : ∀ tree, tree.rewrite .erasing = input.rewrite .erasing → badly (rebuild tree) c) :
    (Check.expression settings rebuild input).Ends c well badly := by
  unfold Ends Check.expression
  cases h : annotateExpression settings c.scope input with
  | ok checked => exact hwell _ _ (erase_of_annotateExpression input h)
  | error fault => exact hbadly _ (faults_annotateExpression input fault h)

theorem get {well : Context → Context → Prop} (h : well c c) :
    (get : Check Tree Context).Ends c well badly := h

theorem set {c' : Context} {well : PUnit → Context → Prop} (h : well ⟨⟩ c') :
    (set c' : Check Tree PUnit).Ends c well badly := h

theorem notify {notice : Notice} {well : Unit → Context → Prop}
    (h : well () { c with notices := notice :: c.notices }) :
    (Typing.notify notice : Check Tree Unit).Ends c well badly := h

/-- A check that goes on only if a condition does not hold. -/
theorem guarded {condition : Bool} {tree : Tree} {reason : TypeError} {after : β → Check Tree α}
    {next : Check Tree α} {well : α → Context → Prop} (hbadly : badly tree c)
    (hnext : next.Ends c well badly) :
    (if condition = true then Check.require tree (.error reason) >>= after else next).Ends c well
      badly := by
  cases condition with
  | true => exact .bind (.require nofun hbadly)
  | false => exact hnext

end Check.Ends

/-! ## Statements -/

/-- A later context of the same scope, outside of a function if the earlier one was. -/
structure Context.Keeps (context later : Context) : Prop where
  scope : later.scope = context.scope
  outside : context.returning = none → later.returning = none

/-- A later context of the same block, outside of a function if the earlier one was. -/
structure Context.Stays (context later : Context) : Prop where
  scope : ∃ change, later.scope = context.scope.modifyCurrent change
  outside : context.returning = none → later.returning = none

namespace Context

variable {c c₁ c₂ : Context}

theorem Keeps.refl (context : Context) : context.Keeps context := ⟨rfl, fun h => h⟩

theorem Keeps.trans (h : c.Keeps c₁) (h' : c₁.Keeps c₂) : c.Keeps c₂ :=
  ⟨h'.scope.trans h.scope, fun hnone => h'.outside (h.outside hnone)⟩

theorem Keeps.stays (h : c.Keeps c₁) : c.Stays c₁ :=
  ⟨⟨fun frame => frame, by rw [h.scope, Scope.modifyCurrent_id]⟩, h.outside⟩

theorem Stays.refl (context : Context) : context.Stays context := (Keeps.refl context).stays

theorem Stays.trans (h : c.Stays c₁) (h' : c₁.Stays c₂) : c.Stays c₂ := by
  obtain ⟨first, hfirst⟩ := h.scope
  obtain ⟨second, hsecond⟩ := h'.scope
  refine ⟨⟨fun frame => second (first frame), ?_⟩, fun hnone => h'.outside (h.outside hnone)⟩
  rw [hsecond, hfirst, Scope.modifyCurrent_modifyCurrent]

/-- Behind a block the scope is the one in front of it. -/
theorem Stays.leave (h : c.enter.Stays c₁) : c.Keeps c₁.leave := by
  obtain ⟨change, hchange⟩ := h.scope
  refine ⟨?_, fun hnone => h.outside hnone⟩
  show c₁.scope.leave = c.scope
  rw [hchange]
  rfl

theorem Stays.of_define {binding : VariableBinding} {scope : StaticScope}
    (h : c.scope.defineVariable? binding.name binding = some scope) :
    c.Stays { c with scope } :=
  ⟨⟨_, (Scope.defineVariable?_eq_some.mp h).2⟩, fun hnone => hnone⟩

end Context

/-- A block of statements leaves the scope as it was, whether or not a fault is met in it. -/
theorem ends_block {rebuild : List Statement → Whole} {body : List Statement} {c : Context}
    {well : List Statement → Context → Prop} {badly : Whole → Context → Prop}
    (hbody : (annotateStatements settings body).Ends c.enter (fun _ c' => c.enter.Stays c')
      fun tree c' => rewriteStatements .erasing tree = rewriteStatements .erasing body ∧
        c.enter.Stays c')
    (hwell : ∀ output c', rewriteStatements .erasing output = rewriteStatements .erasing body →
      c.Keeps c' → well output c')
    (hbadly : ∀ tree c', rewriteStatements .erasing tree = rewriteStatements .erasing body →
      c.Keeps c' → badly (rebuild tree) c') :
    (Check.part rebuild (Check.inBlock (annotateStatements settings body))).Ends c well badly :=
  .part (.inBlock (hbody.mono
    (fun output c' hok h => hwell output c'.leave (erase_of_annotateStatements body hok) h.leave)
    fun tree c' h => hbadly tree c'.leave h.1 h.2.leave))

theorem ends_annotateCondition {rebuild : Expression → Tree} {input : Expression} {c : Context}
    {well : Expression → Context → Prop} {badly : Tree → Context → Prop}
    (hwell : ∀ output, output.rewrite .erasing = input.rewrite .erasing → well output c)
    (hbadly : ∀ tree, tree.rewrite .erasing = input.rewrite .erasing → badly (rebuild tree) c) :
    (annotateCondition settings rebuild input).Ends c well badly := by
  unfold annotateCondition
  exact .bind (.expression (fun output ty houtput =>
    .bind (.require (fun _ _ => .pure (hwell output houtput)) (hbadly output houtput))) hbadly)

theorem ends_returning {tree : Tree} {received : Ty} {c : Context} {well : Unit → Context → Prop}
    {badly : Tree → Context → Prop} (hwell : ∀ c', c.Keeps c' → well () c')
    (hbadly : badly tree c) : (Check.returning tree received).Ends c well badly := by
  unfold Check.Ends Check.returning
  cases hreturning : c.returning with
  | none => exact hbadly
  | some known =>
      have hinside : c.returning ≠ none := by
        rw [hreturning]
        exact nofun
      cases known with
      | none => exact hwell _ ⟨rfl, fun hnone => absurd hnone hinside⟩
      | some expected => exact Check.Ends.require (fun _ _ => hwell c (.refl c)) hbadly

theorem ends_annotateDeclaration {name : String} {typeName : Option String}
    {value : Option Expression} {old : Option VariableBinding} {c : Context} :
    (annotateDeclaration settings name typeName value old).Ends c (fun _ c' => c.Stays c')
      fun tree c' => tree.rewrite .erasing =
        (Statement.declaration name typeName value old).rewrite .erasing ∧ c.Keeps c' := by
  unfold annotateDeclaration
  refine .bind (.require (fun declared _ => ?_) ⟨rfl, .refl c⟩)
  cases value with
  | none =>
      cases declared with
      | none => exact .require nofun ⟨rfl, .refl c⟩
      | some ty =>
          exact .bind (.define (fun scope hscope => .pure (.of_define hscope)) ⟨rfl, .refl c⟩)
  | some value =>
      refine .bind (.expression (fun value' received hvalue => .bind (.require (fun _ _ => .bind
        (.define (fun scope hscope => .pure (.of_define hscope)) ⟨?_, .refl c⟩)) ⟨?_, .refl c⟩))
        (fun tree hvalue => ⟨?_, .refl c⟩))
      all_goals simp only [Statement.rewrite, Option.map_some, hvalue]

theorem ends_annotateAssignment {receiver value : Expression} {c : Context} :
    (annotateAssignment settings receiver value).Ends c (fun _ c' => c.Stays c')
      fun tree c' => tree.rewrite .erasing =
        (Statement.assignment receiver value).rewrite .erasing ∧ c.Keeps c' := by
  unfold annotateAssignment
  refine .guarded ⟨rfl, .refl c⟩ (.bind (.expression (fun receiver' target hreceiver => .bind
    (.expression (fun value' received hvalue => .bind (.require (fun _ _ => .pure (.refl c))
      ⟨?_, .refl c⟩)) (fun tree hvalue => ⟨?_, .refl c⟩))) (fun tree hreceiver => ⟨?_, .refl c⟩)))
  · simp only [Statement.rewrite, hreceiver, hvalue]
  · simp only [Statement.rewrite, hreceiver, hvalue]
  · simp only [Statement.rewrite, hreceiver]

theorem rewriteCases_cons (r : Rewriting) (first : Case) (cases : List Case) :
    rewriteCases r (first :: cases) = rewriteCases r [first] ++ rewriteCases r cases := by
  obtain ⟨value, body⟩ := first
  rfl

mutual

/-- A fault in a statement carries the statement, with other annotations, and leaves the scope as it
was: what a block around the fault has bound is gone with the block. -/
theorem ends_annotateStatement : ∀ (input : Statement) {c : Context},
    (annotateStatement settings input).Ends c (fun _ c' => c.Stays c')
      fun tree c' => tree.rewrite .erasing = input.rewrite .erasing ∧ c.Keeps c'
  | .expression expression, c => by
      rw [annotateStatement]
      refine .guarded ⟨rfl, .refl c⟩ (.bind (.expression (fun _ _ _ => .pure (.refl c)) ?_))
      intro tree htree
      exact ⟨by simp only [Statement.rewrite, htree], .refl c⟩
  | .declaration name typeName value old, c => by
      rw [annotateStatement]
      exact ends_annotateDeclaration
  | .assignment receiver value, c => by
      rw [annotateStatement]
      exact ends_annotateAssignment
  | .branch test thenBody elseBody, c => by
      rw [annotateStatement]
      refine .bind (ends_annotateCondition (fun test' htest => .bind
        (ends_block (ends_annotateStatements thenBody) (fun thenBody' c₁ hthen hc₁ => .bind
          (ends_block (ends_annotateStatements elseBody) (fun _ c₂ _ hc₂ =>
            .pure (hc₁.trans hc₂).stays) ?_)) ?_)) ?_)
      -- What is left are the faults: in the alternative, in the first block, in the condition.
      · intro tree c₂ helse hc₂
        exact ⟨by simp only [Statement.rewrite, htest, hthen, helse], hc₁.trans hc₂⟩
      · intro tree c₁ hthen hc₁
        exact ⟨by simp only [Statement.rewrite, htest, hthen], hc₁⟩
      · intro tree htest
        exact ⟨by simp only [Statement.rewrite, htest], .refl c⟩
  | .switch test cases, c => by
      rw [annotateStatement]
      refine .bind (.expression (fun test' ty htest => .guarded ?_ (.bind (.part
        ((ends_annotateCases cases).mono (fun _ _ _ hc₁ => .pure hc₁.stays) ?_)))) ?_)
      · exact ⟨by simp only [Statement.rewrite, htest], .refl c⟩
      · rintro tree c₁ ⟨hcases, hc₁⟩
        exact ⟨by simp only [Statement.rewrite, htest, hcases], hc₁⟩
      · intro tree htest
        exact ⟨by simp only [Statement.rewrite, htest], .refl c⟩
  | .loop test body, c => by
      rw [annotateStatement]
      refine .bind (ends_annotateCondition (fun test' htest => .bind
        (ends_block (ends_annotateStatements body) (fun _ _ _ hc₁ => .pure hc₁.stays) ?_)) ?_)
      · intro tree c₁ hbody hc₁
        exact ⟨by simp only [Statement.rewrite, htest, hbody], hc₁⟩
      · intro tree htest
        exact ⟨by simp only [Statement.rewrite, htest], .refl c⟩
  | .result value, c => by
      rw [annotateStatement]
      refine .bind (.expression (fun value' received hvalue => .bind (ends_returning
        (fun _ hc₁ => .pure hc₁.stays) ⟨?_, .refl c⟩)) ?_)
      · simp only [Statement.rewrite, hvalue]
      · intro tree hvalue
        exact ⟨by simp only [Statement.rewrite, hvalue], .refl c⟩

/-- A fault among statements leaves what the statements in front of it have bound. -/
theorem ends_annotateStatements : ∀ (input : List Statement) {c : Context},
    (annotateStatements settings input).Ends c (fun _ c' => c.Stays c') fun tree c' =>
      rewriteStatements .erasing tree = rewriteStatements .erasing input ∧ c.Stays c'
  | [], c => by
      rw [annotateStatements]
      exact .pure (.refl c)
  | statement :: statements, c => by
      rw [annotateStatements]
      refine .bind (.part ((ends_annotateStatement statement).mono
        (fun statement' c₁ hfirst hc₁ => .bind (.part
          ((ends_annotateStatements statements).mono
            (fun _ _ _ hc₂ => .pure (hc₁.trans hc₂)) ?_))) ?_))
      -- A fault behind the first statement keeps what that one has bound; a fault in it, nothing.
      · rintro tree c₂ ⟨hrest, hc₂⟩
        exact ⟨by simp only [rewriteStatements, erase_of_annotateStatement statement hfirst, hrest],
          hc₁.trans hc₂⟩
      · rintro tree c₁ ⟨hfirst, hc₁⟩
        exact ⟨by simp only [rewriteStatements, hfirst], hc₁.stays⟩

/-- Erasing is defined for lists of cases, so one case is taken as a list here. -/
theorem ends_annotateCase : ∀ (input : Case) {ty : Ty} {isLast : Bool} {c : Context},
    (annotateCase settings ty isLast input).Ends c
      (fun output c' => rewriteCases .erasing [output] = rewriteCases .erasing [input] ∧ c.Keeps c')
      fun tree c' => rewriteCases .erasing [tree] = rewriteCases .erasing [input] ∧ c.Keeps c'
  | .mk none body, ty, isLast, c => by
      rw [annotateCase]
      refine .guarded ⟨rfl, .refl c⟩ (.bind (ends_block (ends_annotateStatements body)
        (fun body' c₁ hbody hc₁ => .pure ⟨?_, hc₁⟩) (fun tree c₁ hbody hc₁ => ⟨?_, hc₁⟩)))
      · simp only [rewriteCases, hbody]
      · simp only [rewriteCases, hbody]
  | .mk (some value) body, ty, isLast, c => by
      rw [annotateCase]
      refine .guarded ⟨rfl, .refl c⟩ (.bind (.expression (fun value' received hvalue => .bind
        (.require (fun _ _ => .bind (ends_block (ends_annotateStatements body)
          (fun body' c₁ hbody hc₁ => .pure ⟨?_, hc₁⟩) (fun tree c₁ hbody hc₁ => ⟨?_, hc₁⟩)))
          ⟨?_, .refl c⟩)) (fun tree hvalue => ⟨?_, .refl c⟩)))
      · simp only [rewriteCases, Option.map_some, hvalue, hbody]
      · simp only [rewriteCases, Option.map_some, hvalue, hbody]
      · simp only [rewriteCases, Option.map_some, hvalue]
      · simp only [rewriteCases, Option.map_some, hvalue]

theorem ends_annotateCases : ∀ (input : List Case) {ty : Ty} {c : Context},
    (annotateCases settings ty input).Ends c (fun _ c' => c.Keeps c')
      fun tree c' => rewriteCases .erasing tree = rewriteCases .erasing input ∧ c.Keeps c'
  | [], ty, c => by
      rw [annotateCases]
      exact .pure (.refl c)
  | first :: cases, ty, c => by
      rw [annotateCases]
      refine .bind (.part ((ends_annotateCase first).mono
        (fun first' c₁ _ hfirst => .bind (.part ((ends_annotateCases cases).mono
          (fun _ _ _ hc₂ => .pure (hfirst.2.trans hc₂)) ?_))) ?_))
      · rintro tree c₂ ⟨hrest, hc₂⟩
        exact ⟨by rw [rewriteCases_cons, rewriteCases_cons _ first, hfirst.1, hrest],
          hfirst.2.trans hc₂⟩
      · rintro tree c₁ ⟨hfirst, hc₁⟩
        exact ⟨by rw [rewriteCases_cons, rewriteCases_cons _ first, hfirst], hc₁⟩

end

/-! ## Globals, functions, programs -/

/-- A global is bound last, when its value has been annotated. -/
theorem ends_bound {tree global : Global} {binding : VariableBinding} {notice : Notice}
    {c : Context} {badly : Global → Context → Prop} (hbadly : badly tree c) :
    (do
      Check.define tree binding
      notify notice
      return global : Check Global Global).Ends c (fun _ c' => c'.returning = c.returning) badly :=
  .bind (.define (fun _ _ => .bind (.notify (.pure rfl))) hbadly)

theorem ends_annotateGlobal (global : Global) (c : Context) :
    (annotateGlobal settings global).Ends c (fun _ c' => c'.returning = c.returning)
      fun tree c' => tree.rewrite .erasing = global.rewrite .erasing ∧ c' = c := by
  unfold annotateGlobal
  refine .bind (.require (fun declared _ => ?_) ⟨rfl, rfl⟩)
  cases hvalue : global.value with
  | none =>
      cases declared with
      | none => exact .bind (.require nofun ⟨rfl, rfl⟩)
      | some ty => exact .bind (.pure (ends_bound ⟨by simp only [Global.rewrite, hvalue], rfl⟩))
  | some value =>
      refine .bind (.expression (fun value' received herased => .bind (.require (fun _ _ =>
        .bind (.pure (ends_bound ⟨?_, rfl⟩))) ⟨?_, rfl⟩)) (fun tree herased => ⟨?_, rfl⟩))
      all_goals simp only [Global.rewrite, hvalue, Option.map_some, herased]

theorem ends_registerFunction (function : Function) (c : Context) :
    (registerFunction settings function).Ends c (fun _ c' => c'.returning = c.returning)
      fun tree c' => tree = function ∧ c' = c := by
  unfold registerFunction
  refine .bind (.require (fun signature _ => .bind (.get ?_)) ⟨rfl, rfl⟩)
  split
  · exact .require nofun ⟨rfl, rfl⟩
  · exact .bind (.set (.bind (.notify (.pure rfl))))

theorem ends_defineParameters {tree : Tree} : ∀ (parameters : List Parameter) (types : List Ty)
    (c : Context), (defineParameters tree parameters types).Ends c (fun _ c' => c.Stays c')
      fun left c' => left = tree ∧ c.Stays c'
  | [], _, c => by
      unfold defineParameters
      exact .pure (.refl c)
  | parameter :: parameters, [], c => by
      unfold defineParameters
      exact .pure (.refl c)
  | parameter :: parameters, ty :: types, c => by
      rw [defineParameters]
      refine .bind (.define (fun scope hscope => ?_) ⟨rfl, .refl c⟩)
      have hdefined := Context.Stays.of_define hscope
      exact (ends_defineParameters parameters types _).mono (fun _ _ _ h => hdefined.trans h)
        fun _ _ h => ⟨h.1, hdefined.trans h.2⟩

theorem ends_annotateBody {parameters : List Parameter} {types : List Ty} {body : List Statement}
    {c : Context} : (annotateBody settings parameters types body).Ends c
      (fun _ c' => c'.scope = c.scope)
      fun tree c' => rewriteStatements .erasing tree = rewriteStatements .erasing body ∧
        c'.scope = c.scope := by
  refine .inBlock (.bind ((ends_defineParameters parameters types c.enter).mono ?_ ?_))
  · intro _ start _ hstart
    exact (ends_annotateStatements body).mono (fun _ _ _ h => (hstart.trans h).leave.scope)
      fun _ _ h => ⟨h.1, (hstart.trans h.2).leave.scope⟩
  · rintro _ after ⟨rfl, hafter⟩
    exact ⟨rfl, hafter.leave.scope⟩

theorem ends_insideFunction {returns : Option Ty} {check : Check Tree α} {c : Context}
    {well : α × Option Ty → Context → Prop} {badly : Tree → Context → Prop}
    (h : check.Ends { c with returning := some returns }
      (fun a c' => well (a, c'.returning.getD none) { c' with returning := c.returning })
      fun tree c' => badly tree { c' with returning := c.returning }) :
    (insideFunction returns check).Ends c well badly := by
  unfold Check.Ends at h ⊢
  unfold insideFunction
  cases hcheck : check { c with returning := some returns } <;> rw [hcheck] at h <;> exact h

theorem ends_inferResult {function : Function} {returns : Ty} {c : Context}
    {well : Unit → Context → Prop} {badly : Tree → Context → Prop}
    (h : ∀ scope, well () { c with scope }) : (inferResult function returns).Ends c well badly := by
  unfold Check.Ends inferResult
  split
  · next hresult =>
      split at hresult <;> cases hresult
      · exact h _
      · exact h _
  · next hresult => split at hresult <;> cases hresult

/-- A fault in a function leaves the scope as it was, and what the place around it returns. -/
theorem ends_annotateFunction (function : Function) (c : Context) :
    (annotateFunction settings function).Ends c (fun _ c' => c'.returning = c.returning)
      fun tree c' => tree.rewrite .erasing = function.rewrite .erasing ∧ c'.scope = c.scope ∧
        c'.returning = c.returning := by
  unfold annotateFunction
  split
  · exact .require nofun ⟨rfl, rfl, rfl⟩
  · next signature hsignature =>
      refine .bind (.part (ends_insideFunction (ends_annotateBody.mono ?_ ?_)))
      · intro body after _ _
        dsimp only
        split
        · exact .pure rfl
        · exact .bind (ends_inferResult fun _ => .bind (.notify (.pure rfl)))
      · rintro tree after ⟨herased, hscope⟩
        exact ⟨by simp only [Function.rewrite, herased], hscope, rfl⟩

/-- A pass over trees ends as annotating each of them does. -/
theorem ends_annotateEach {annotate : Tree → Check Tree Tree} {erase : Tree → Tree}
    (hwell : ∀ {input output c c'}, annotate input c = .ok output c' → erase output = erase input)
    (h : ∀ input c, (annotate input).Ends c (fun _ c' => c'.returning = c.returning)
      fun tree c' => erase tree = erase input ∧ c'.returning = c.returning) :
    ∀ inputs c, (annotateEach annotate inputs).Ends c (fun _ c' => c'.returning = c.returning)
      fun trees c' => trees.map erase = inputs.map erase ∧ c'.returning = c.returning := by
  intro inputs
  induction inputs with
  | nil => exact fun c => rfl
  | cons input inputs ih =>
      intro c
      refine .bind (.part ((h input c).mono (fun output c₁ hfirst hc₁ => .bind (.part
        ((ih c₁).mono (fun _ _ _ hc₂ => .pure (hc₂.trans hc₁)) ?_))) ?_))
      · rintro trees c₂ ⟨hrest, hc₂⟩
        exact ⟨by rw [List.map_cons, List.map_cons, hwell hfirst, hrest], hc₂.trans hc₁⟩
      · rintro tree c₁ ⟨hfirst, hc₁⟩
        exact ⟨by rw [List.map_cons, List.map_cons, hfirst], hc₁⟩

/-- A fault in a program carries the program, with other annotations. -/
theorem ends_annotateProgram (program : Program) (c : Context) :
    (annotateProgram settings program).Ends c (fun _ c' => c'.returning = c.returning)
      fun tree c' => tree.rewrite .erasing = program.rewrite .erasing ∧
        c'.returning = c.returning := by
  have hregister := ends_annotateEach erase_of_registerFunction fun function c =>
    (@ends_registerFunction settings function c).mono (fun _ _ _ h => h)
      fun _ _ h => ⟨congrArg _ h.1, congrArg Context.returning h.2⟩
  have hglobal := ends_annotateEach erase_of_annotateGlobal fun global c =>
    (@ends_annotateGlobal settings global c).mono (fun _ _ _ h => h)
      fun _ _ h => ⟨h.1, congrArg Context.returning h.2⟩
  have hfunction := ends_annotateEach erase_of_annotateFunction fun function c =>
    (@ends_annotateFunction settings function c).mono (fun _ _ _ h => h)
      fun _ _ h => ⟨h.1, h.2.2⟩
  unfold annotateProgram
  refine .bind (.part ((hregister program.functions c).mono (fun functions c₁ h₁ hc₁ => .bind
    (.part ((hglobal program.globals c₁).mono (fun globals c₂ h₂ hc₂ => .bind (.part
      ((hfunction functions c₂).mono (fun functions' c₃ h₃ hc₃ => .bind (.get (.bind (.require
        (fun _ _ => .bind (.notify (.pure ?_))) ?_)))) ?_))) ?_))) ?_))
  -- The end of a good program, and then the faults from the last to the first: there is no function
  -- to start with, or a fault in a body, in a global, or at the registration.
  · exact hc₃.trans (hc₂.trans hc₁)
  · refine ⟨?_, hc₃.trans (hc₂.trans hc₁)⟩
    simp only [Program.rewrite, map_of_annotateEach erase_of_annotateGlobal h₂,
      map_of_annotateEach erase_of_annotateFunction h₃,
      map_of_annotateEach erase_of_registerFunction h₁]
  · rintro functions' c₃ ⟨h₃, hc₃⟩
    refine ⟨?_, hc₃.trans (hc₂.trans hc₁)⟩
    simp only [Program.rewrite, map_of_annotateEach erase_of_annotateGlobal h₂, h₃,
      map_of_annotateEach erase_of_registerFunction h₁]
  · rintro globals c₂ ⟨h₂, hc₂⟩
    refine ⟨?_, hc₂.trans hc₁⟩
    simp only [Program.rewrite, h₂, map_of_annotateEach erase_of_registerFunction h₁]
  · rintro functions c₁ ⟨h₁, hc₁⟩
    exact ⟨by simp only [Program.rewrite, h₁], hc₁⟩

end TinyScript.Typing
