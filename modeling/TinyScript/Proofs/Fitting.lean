import TinyScript.Proofs.Agreement
import TinyScript.Proofs.Run.Derivation
import TinyScript.Proofs.Typing.Frame

/-!
# Tasks in machines that fit

`Fitting` says that a task of a run is what the checker has accepted in some context, and that the
machine agrees with that context. `Yields` is what such a task comes to when it finishes: the
machine agrees with the context behind the task, and values are as their static types say.
-/

namespace TinyScript

open Typing Run

/-! ## Tasks and items -/

/-- The transfers in what a task works on. -/
def Run.Task.transfers : Task → List Transfer
  | .expression whole | .receiver whole => whole.transfers
  | .expressions whole => transfersOfExpressions whole
  | .statement whole => whole.transfers
  | .statements whole => transfersOfStatements whole
  | .cases _ whole => transfersOfCases whole

/-- The checker has annotated an item in a context, with a task of a run as the result, in the body
of a function that returns the given type. Behind it the checker was in another context. -/
inductive Checks (settings : Settings) (returns : Ty) : Item → Context → Task → Context → Prop
  | expression {input output ty c} :
      annotateExpression settings c.scope input = .ok (output, ty) →
      Checks settings returns (.expression input) c (.expression output) c
  | receiver {input output ty c} :
      input.isReceiver = true → annotateExpression settings c.scope input = .ok (output, ty) →
      Checks settings returns (.expression input) c (.receiver output) c
  | arguments {inputs parameters outputs c} :
      parameters.length = inputs.length →
      annotateArguments settings c.scope inputs parameters = .ok outputs →
      Checks settings returns (.arguments inputs parameters) c (.expressions outputs) c
  | elements {inputs outputs c} :
      annotateElements settings c.scope inputs = .ok outputs →
      Checks settings returns (.elements inputs) c (.expressions outputs) c
  | statement {input output c c'} :
      0 < c.scope.depth → annotateStatement settings input c = .ok output c' →
      (∀ ty, c'.returning = some (some ty) → ty = returns) →
      Checks settings returns (.statement input) c (.statement output) c'
  | statements {inputs outputs c c'} :
      0 < c.scope.depth → annotateStatements settings inputs c = .ok outputs c' →
      (∀ ty, c'.returning = some (some ty) → ty = returns) →
      Checks settings returns (.statements inputs) c (.statements outputs) c'
  | cases {ty selector inputs outputs c c'} :
      annotateCases settings ty inputs c = .ok outputs c' →
      (∀ ty, c'.returning = some (some ty) → ty = returns) →
      Checks settings returns (.cases ty inputs) c (.cases selector outputs) c'

/-! ## Fitting machines -/

/-- Where lists have element types, the lists moved have the ones that are expected. -/
def Stage.Keeps (stage : Stage) (transfers : List Transfer) : Prop :=
  stage.discipline = .elements → ∀ transfer ∈ transfers, transfer.Kept

namespace Stage.Keeps

variable {stage : Stage} {transfer : Transfer} {front behind : List Transfer}

theorem left (h : stage.Keeps (front ++ behind)) : stage.Keeps front :=
  fun hd transfer hmem => h hd transfer (List.mem_append_left _ hmem)

theorem right (h : stage.Keeps (front ++ behind)) : stage.Keeps behind :=
  fun hd transfer hmem => h hd transfer (List.mem_append_right _ hmem)

theorem head (h : stage.Keeps (transfer :: behind)) (hd : stage.discipline = .elements) :
    transfer.Kept :=
  h hd transfer List.mem_cons_self

theorem tail (h : stage.Keeps (transfer :: behind)) : stage.Keeps behind :=
  fun hd transfer hmem => h hd transfer (List.mem_cons_of_mem _ hmem)

end Stage.Keeps

/-- A machine at a stage of a run: its scope agrees with one of the checker, and lists are as their
element types say. -/
structure Stands (stage : Stage) (elements : Elements) (scope : StaticScope) (m : Machine) :
    Prop where
  agrees : Agrees stage elements scope m.scope
  lists : m.lists.Fit stage.discipline elements

/-- A task is what the checker has accepted, and it is taken up in a machine that agrees with the
context in which the checker has accepted it. -/
structure Fitting (stage : Stage) (elements : Elements) (returns : Ty) (item : Item) (c : Context)
    (task : Task) (after : Context) (m : Machine) : Prop where
  checks : Checks stage.settings returns item c task after
  stands : Stands stage elements c.scope m
  keeps : stage.Keeps task.transfers

/-- The body of a function fits a machine in which it is taken up, in a frame on the root frame. It
returns what a call of the function is taken to return, or the call is taken to return anything. -/
inductive Entered (stage : Stage) (elements : Elements) (function : Function) (returns : Ty)
    (m : Machine) : Prop
  | mk {input start after final frame root} :
      Checked stage.settings stage.source (.function function.name function.arity) []
        (.statements input) start →
      Fitting stage elements final (.statements input) start (.statements function.body) after m →
      start.scope = .child frame (.root root) → returns = final ∨ returns = .any →
      Entered stage elements function returns m

/-- What an assignment to an accepted receiver changes. -/
def Receives (stage : Stage) (elements : Elements) (scope : StaticScope) (receiver : Expression)
    (ty : Ty) : Target → Prop
  | .whole name =>
    ∃ binding, scope.lookupVariable name = some binding ∧ binding.isMutable = true ∧
      ty = binding.ty ∧ receiver.elementOf = binding.itemType
  | .slot _ id position =>
    receiver.elementOf = .any ∧ (stage.discipline = .elements → elements id = some ty) ∧
      (stage.discipline ≠ .names → position.Conforms .integer)

/-- How statements between two contexts end in a machine: behind them the machine agrees with the
context behind them, or at least with the frames around, and a result is as the function says. -/
def Ends (stage : Stage) (elements : Elements) (returns : Ty) (c after : Context) :
    Flow → Machine → Prop
  | .completed, m => Stands stage elements after.scope m
  | .returned v, m =>
    v.Fits stage.discipline elements returns .any ∧
      ∃ change, Stands stage elements (c.scope.modifyCurrent change) m

/-- The value of an annotated expression is as its static type says. -/
def Typed (stage : Stage) (elements : Elements) (expression : Expression) (element : Ty)
    (v : Value) : Prop :=
  ∃ ty, expression.ty = some ty ∧ v.Fits stage.discipline elements ty element

/-- What a task that fits comes to. A new list gets the element type that is expected of it, so
the element types that are expected of values are given beforehand. -/
def Yields (stage : Stage) (elements : Elements) (returns : Ty) (c after : Context) :
    Task → Product → Machine → Prop
  | .expression expression, .value v, m =>
    ∀ element, (stage.discipline = .elements → expression.Holds element) →
      ∃ later, elements.Extends later ∧ Stands stage later c.scope m ∧
        Typed stage later expression element v
  | .expressions expressions, .values vs, m =>
    ∀ element : Expression → Ty,
      (stage.discipline = .elements →
        ∀ expression ∈ expressions, expression.Holds (element expression)) →
      ∃ later, elements.Extends later ∧ Stands stage later c.scope m ∧
        List.Forall₂ (fun expression v => Typed stage later expression (element expression) v)
          expressions vs
  | .receiver receiver, .target target, m =>
    ∃ later, elements.Extends later ∧ Stands stage later c.scope m ∧
      ∃ ty, receiver.ty = some ty ∧ Receives stage later c.scope receiver ty target
  | .statement _, .flow flow, m | .statements _, .flow flow, m | .cases _ _, .flow flow, m =>
    ∃ later, elements.Extends later ∧ Ends stage later returns c after flow m
  | _, _, _ => True

/-- A task that finishes in such a way yields what it should wherever it fits. -/
def Sound (stage : Stage) : Finish := fun task m product m' =>
  ∀ ⦃w R item c after⦄, Fitting stage w R item c task after m →
    Yields stage w R c after task product m'

/-- Whatever finishes in such a way is sound. -/
def FinishSound (stage : Stage) (finish : Finish) : Prop :=
  ∀ {task m product m'}, finish task m product m' → Sound stage task m product m'

section Fitting

variable {stage : Stage} {w w' : Elements} {R : Ty} {c after : Context} {m m' : Machine}

theorem Stands.enter (h : Stands stage w c.scope m) : Stands stage w c.enter.scope m.enter :=
  ⟨h.agrees.enter, h.lists⟩

theorem Stands.leave (h : Stands stage w after.scope m) (hblock : c.enter.Extends after) :
    Stands stage w c.scope m.leave := by
  obtain ⟨change, hchange⟩ := hblock.scope
  have hagrees := h.agrees
  rw [hchange] at hagrees
  exact ⟨hagrees.leave, h.lists⟩

theorem Fitting.of_expression {input output : Expression} {ty : Ty}
    (h : annotateExpression stage.settings c.scope input = .ok (output, ty))
    (hstands : Stands stage w c.scope m) (hkeeps : stage.Keeps output.transfers) :
    Fitting stage w R (.expression input) c (.expression output) c m :=
  ⟨.expression h, hstands, hkeeps⟩

/-- A block is taken up in a frame of its own. -/
theorem Fitting.of_block {inputs outputs : List Statement}
    (h : annotateStatements stage.settings inputs c.enter = .ok outputs after)
    (hstands : Stands stage w c.scope m) (hkeeps : stage.Keeps (transfersOfStatements outputs))
    (hreturns : ∀ ty, after.returning = some (some ty) → ty = R) :
    Fitting stage w R (.statements inputs) c.enter (.statements outputs) after m.enter :=
  ⟨.statements (Nat.succ_pos _) h hreturns, hstands.enter, hkeeps⟩

/-- A value is what its expression yields when nothing is expected of it. -/
theorem Yields.value {expression : Expression} {v : Value}
    (h : Yields stage w R c after (.expression expression) (.value v) m') :
    ∃ later, w.Extends later ∧ Stands stage later c.scope m' ∧
      ∃ element, Typed stage later expression element v := by
  obtain ⟨element, helement⟩ := expression.exists_holds
  obtain ⟨later, hext, hstands, htyped⟩ := h element fun _ => helement
  exact ⟨later, hext, hstands, element, htyped⟩

/-- What a sound expression comes to in a machine that agrees with its context. -/
theorem Sound.value {input output : Expression} {ty : Ty} {v : Value}
    (hsound : Sound stage (.expression output) m (.value v) m')
    (h : annotateExpression stage.settings c.scope input = .ok (output, ty))
    (hstands : Stands stage w c.scope m) (hkeeps : stage.Keeps output.transfers) :
    ∃ later, w.Extends later ∧ Stands stage later c.scope m' ∧
      ∃ element, Typed stage later output element v :=
  (hsound (Fitting.of_expression (R := .any) h hstands hkeeps)).value

/-- Only the scope of the context in front of statements matters for how they end. -/
theorem Ends.of_scope {c₁ : Context} {flow : Flow} (h : Ends stage w R c₁ after flow m)
    (hscope : c₁.scope = c.scope) : Ends stage w R c after flow m := by
  cases flow with
  | completed => exact h
  | returned v =>
      obtain ⟨hfits, change, hstands⟩ := h
      rw [hscope] at hstands
      exact ⟨hfits, change, hstands⟩

/-- How a block ends, for what is around it. -/
theorem Yields.block {inputs outputs : List Statement} {flow : Flow} {c₁ : Context}
    (h : Yields stage w R c.enter c₁ (.statements outputs) (.flow flow) m')
    (hinputs : annotateStatements stage.settings inputs c.enter = .ok outputs c₁)
    (hafter : after.scope = c.scope) :
    ∃ later, w.Extends later ∧ Ends stage later R c after flow m'.leave := by
  obtain ⟨later, hext, hends⟩ := h
  refine ⟨later, hext, ?_⟩
  cases flow with
  | completed =>
      show Stands stage later after.scope m'.leave
      rw [hafter]
      exact Stands.leave hends (extends_of_annotateStatements inputs hinputs)
  | returned v =>
      obtain ⟨hfits, change, hstands⟩ := hends
      refine ⟨hfits, fun frame => frame, ?_⟩
      rw [Scope.modifyCurrent_id]
      exact ⟨hstands.agrees.leave, hstands.lists⟩

end Fitting

end TinyScript
