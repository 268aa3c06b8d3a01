import TinyScript.Proofs.Soundness.Statement

/-!
# What is reached from a task that fits

Whatever a run takes up in the course of a task that fits, fits too, in the context in which the
checker has checked it: `Fitting.step` says so for a step into a part, and `Reached.of_visits` for
everything that is visited.
-/

namespace TinyScript

open Typing Run

section Step

variable {stage : Stage} {settings : RunSettings} {fuel : Nat} {finish : Finish} {w : Elements}
  {R : Ty} {item : Item} {c after : Context} {m m' : Machine} {task' : Task} {number : Nat}

/-- The checker goes on from an item to a part, as a run goes on from a task to a part that fits. -/
def Follows (stage : Stage) (elements : Elements) (returns : Ty) (item : Item) (c : Context)
    (number : Nat) (task : Task) (m : Machine) : Prop :=
  ∃ later part c' after, Typing.Step stage.settings item c number part c' ∧
    elements.Extends later ∧ Fitting stage later returns part c' task after m

theorem Follows.at_once {part : Item} {c' after' : Context}
    (hstep : Typing.Step stage.settings item c number part c')
    (h : Fitting stage w R part c' task' after' m') : Follows stage w R item c number task' m' :=
  ⟨w, part, c', after', hstep, .refl w, h⟩

theorem follows_of_expression {expression : Expression} (hsound : FinishSound stage finish)
    (h : Fitting stage w R item c (.expression expression) after m)
    (hstep : Run.Step fuel finish (.expression expression) m number task' m') :
    Follows stage w R item c number task' m' := by
  cases h.checks with
  | expression hann =>
      cases hstep with
      | group =>
          cases rule_of_annotateExpression hann with
          | group hpart => exact .at_once .group (Fitting.of_expression hpart h.stands h.keeps)
      | left =>
          cases rule_of_annotateExpression hann with
          | binary hl _ _ => exact .at_once .left (Fitting.of_expression hl h.stands h.keeps.left)
      | right hleft _ =>
          cases rule_of_annotateExpression hann with
          | binary hl hr _ =>
              obtain ⟨later, hext, hstands, -⟩ := (hsound hleft).value hl h.stands h.keeps.left
              exact ⟨later, _, _, _, .right, hext,
                Fitting.of_expression hr hstands h.keeps.right⟩
      | index =>
          cases rule_of_annotateExpression hann with
          | element _ hpart _ =>
              exact .at_once .index (Fitting.of_expression hpart h.stands h.keeps)
      | arguments =>
          cases rule_of_annotateExpression hann with
          | call hstatic hpart =>
              obtain ⟨-, hfitting⟩ := Fitting.arguments (R := R) hstatic hpart h.stands h.keeps
              exact .at_once (.arguments hstatic) hfitting
      | elements =>
          cases rule_of_annotateExpression hann with
          | list hpart =>
              exact .at_once .elements ⟨.elements hpart, h.stands, Stage.Keeps.right h.keeps⟩

theorem follows_of_expressions {expressions : List Expression} (hsound : FinishSound stage finish)
    (h : Fitting stage w R item c (.expressions expressions) after m)
    (hstep : Run.Step fuel finish (.expressions expressions) m number task' m') :
    Follows stage w R item c number task' m' := by
  cases hstep with
  | head =>
      obtain ⟨input, ty, others, hann, hfirst, -, -⟩ := h.checks.cons
      exact .at_once hfirst (Fitting.of_expression hann h.stands h.keeps.left)
  | tail hhead =>
      obtain ⟨input, ty, others, hann, -, hrest, hothers⟩ := h.checks.cons
      obtain ⟨later, hext, hstands, -⟩ := (hsound hhead).value hann h.stands h.keeps.left
      exact ⟨later, others, c, c, hrest, hext, hothers, hstands, h.keeps.right⟩

theorem follows_of_receiver {receiver : Expression}
    (h : Fitting stage w R item c (.receiver receiver) after m)
    (hstep : Run.Step fuel finish (.receiver receiver) m number task' m') :
    Follows stage w R item c number task' m' := by
  cases h.checks with
  | receiver _ hann =>
      cases hstep with
      | receiverIndex =>
          cases rule_of_annotateExpression hann with
          | element _ hpart _ =>
              exact .at_once .index (Fitting.of_expression hpart h.stands h.keeps)

/-- A loop fits again after the rounds that it has gone through. -/
theorem Fitting.rounds {test : Expression} {body : List Statement} {rounds : Nat} {m₁ : Machine}
    (hsound : FinishSound stage finish)
    (h : Fitting stage w R item c (.statement (.loop test body)) after m)
    (hrounds : Rounds finish test body m rounds m₁) :
    ∃ later, w.Extends later ∧
      Fitting stage later R item c (.statement (.loop test body)) after m₁ := by
  induction hrounds with
  | none => exact ⟨w, .refl w, h⟩
  | more _ htest _ hbody ih =>
      obtain ⟨w₁, hext₁, h₁⟩ := ih
      obtain ⟨w₂, hext₂, hends⟩ := Sound.round (hsound htest) (hsound hbody) h₁
      obtain ⟨_, _, _, -, -, -, hafter, -⟩ := h.loop
      have hstands : Stands stage w₂ after.scope _ := hends
      rw [hafter] at hstands
      exact ⟨w₂, hext₁.trans hext₂, h.checks, hstands, h.keeps⟩

theorem follows_of_statement {statement : Statement} (hsound : FinishSound stage finish)
    (h : Fitting stage w R item c (.statement statement) after m)
    (hstep : Run.Step fuel finish (.statement statement) m number task' m') :
    Follows stage w R item c number task' m' := by
  cases hstep with
  | effect =>
      cases h.checks with
      | statement _ hann _ =>
          cases rule_of_annotateStatement hann with
          | expression he => exact .at_once .effect (Fitting.of_expression he h.stands h.keeps)
  | initial =>
      cases h.checks with
      | statement _ hann _ =>
          cases rule_of_annotateStatement hann with
          | initialised hv _ _ =>
              exact .at_once .initial (Fitting.of_expression hv h.stands h.keeps.tail)
  | receiver =>
      cases h.checks with
      | statement _ hann _ =>
          cases rule_of_annotateStatement hann with
          | assignment hname hr _ _ =>
              exact .at_once .receiver ⟨.receiver hname hr, h.stands, h.keeps.tail.left⟩
  | assigned hreceiver =>
      cases h.checks with
      | statement _ hann _ =>
          cases rule_of_annotateStatement hann with
          | assignment hname hr hv _ =>
              obtain ⟨later, hext, hstands, -⟩ :=
                hsound hreceiver (R := R) ⟨.receiver hname hr, h.stands, h.keeps.tail.left⟩
              exact ⟨later, _, _, _, .assigned, hext,
                Fitting.of_expression hv hstands h.keeps.tail.right⟩
  | branchTest =>
      obtain ⟨_, _, _, _, _, rfl, ht, -, -, -, -, -, -, -, hkeeps⟩ := h.branch
      exact .at_once .branchTest (Fitting.of_expression ht h.stands hkeeps.left)
  | thenBody htest _ =>
      obtain ⟨_, _, _, _, _, rfl, ht, hthen, -, -, -, -, hreturns, -, hkeeps⟩ := h.branch
      obtain ⟨later, hext, hstands, -⟩ := (hsound htest).value ht h.stands hkeeps.left
      exact ⟨later, _, _, _, .thenBody, hext,
        Fitting.of_block hthen hstands hkeeps.right.left hreturns⟩
  | elseBody htest _ =>
      -- The checker has come by the other block, which left the scope as it was.
      obtain ⟨_, _, _, _, _, rfl, ht, hthen, helse, hscope, -, -, -, hreturns, hkeeps⟩ := h.branch
      obtain ⟨later, hext, hstands, -⟩ := (hsound htest).value ht h.stands hkeeps.left
      rw [← hscope] at hstands
      exact ⟨later, _, _, _, .elseBody hthen, hext,
        Fitting.of_block helse hstands hkeeps.right.right hreturns⟩
  | switchTest =>
      obtain ⟨_, _, _, rfl, ht, -, -, hkeeps⟩ := h.switch
      exact .at_once .switchTest (Fitting.of_expression ht h.stands hkeeps.left)
  | switchCases htest =>
      obtain ⟨_, _, _, rfl, ht, hcases, hreturns, hkeeps⟩ := h.switch
      obtain ⟨later, hext, hstands, -⟩ := (hsound htest).value ht h.stands hkeeps.left
      exact ⟨later, _, _, _, .switchCases ht, hext, .cases hcases hreturns, hstands,
        hkeeps.right⟩
  | loopTest hrounds _ =>
      obtain ⟨later, hext, h'⟩ := h.rounds hsound hrounds
      obtain ⟨_, _, _, rfl, ht, -, -, -, hkeeps⟩ := h'.loop
      exact ⟨later, _, _, _, .loopTest, hext, Fitting.of_expression ht h'.stands hkeeps.left⟩
  | loopBody hrounds _ htest _ =>
      -- Every round starts where the first did, as far as the checker can see.
      obtain ⟨w₁, hext₁, h'⟩ := h.rounds hsound hrounds
      obtain ⟨_, _, _, rfl, ht, hbody, -, hreturns, hkeeps⟩ := h'.loop
      obtain ⟨w₂, hext₂, hstands, -⟩ := (hsound htest).value ht h'.stands hkeeps.left
      exact ⟨w₂, _, _, _, .loopBody, hext₁.trans hext₂,
        Fitting.of_block hbody hstands hkeeps.right hreturns⟩
  | result =>
      cases h.checks with
      | statement _ hann _ =>
          cases rule_of_annotateStatement hann with
          | result hv _ => exact .at_once .result (Fitting.of_expression hv h.stands h.keeps.tail)

theorem follows_of_statements {statements : List Statement} (hsound : FinishSound stage finish)
    (h : Fitting stage w R item c (.statements statements) after m)
    (hstep : Run.Step fuel finish (.statements statements) m number task' m') :
    Follows stage w R item c number task' m' := by
  cases hstep with
  | first =>
      obtain ⟨_, _, _, rfl, -, hstatement, -⟩ := h.others
      exact .at_once .first hstatement
  | rest hfirst =>
      obtain ⟨_, _, _, rfl, hann, hstatement, hothers⟩ := h.others
      obtain ⟨later, hext, hstands⟩ := hsound hfirst hstatement
      exact ⟨later, _, _, _, .rest hann, hext, hothers hstands⟩

theorem follows_of_cases {selector : Value} {cases : List Case} (hsound : FinishSound stage finish)
    (h : Fitting stage w R item c (.cases selector cases) after m)
    (hstep : Run.Step fuel finish (.cases selector cases) m number task' m') :
    Follows stage w R item c number task' m' := by
  cases hstep with
  | defaultBody =>
      cases h.checks with
      | cases hann hreturns =>
          cases rule_of_annotateCases hann with
          | default hbody =>
              exact .at_once .caseBody
                (Fitting.of_block hbody h.stands (Stage.Keeps.left h.keeps) hreturns)
  | caseValue =>
      obtain ⟨_, _, _, _, _, _, rfl, hv, -, -, -, -, -, -, hkeeps⟩ := h.valued
      exact .at_once .caseValue (Fitting.of_expression hv h.stands hkeeps.left)
  | caseBody hvalue _ =>
      obtain ⟨_, _, _, _, _, _, rfl, hv, hbody, -, -, -, hreturns, -, hkeeps⟩ := h.valued
      obtain ⟨later, hext, hstands, -⟩ := (hsound hvalue).value hv h.stands hkeeps.left
      exact ⟨later, _, _, _, .caseBody, hext,
        Fitting.of_block hbody hstands hkeeps.right.left hreturns⟩
  | otherCases hvalue _ _ =>
      obtain ⟨_, _, _, _, _, _, rfl, hv, hbody, hrest, hscope, -, -, hreturns, hkeeps⟩ := h.valued
      obtain ⟨later, hext, hstands, -⟩ := (hsound hvalue).value hv h.stands hkeeps.left
      rw [← hscope] at hstands
      exact ⟨later, _, _, _, .otherCases hbody, hext, .cases hrest hreturns, hstands,
        hkeeps.right.right⟩

/-- A part that a task which fits goes on to fits too. -/
theorem Fitting.step {task : Task} (hsound : FinishSound stage finish)
    (h : Fitting stage w R item c task after m)
    (hstep : Run.Step fuel finish task m number task' m') :
    Follows stage w R item c number task' m' := by
  cases task with
  | expression expression => exact follows_of_expression hsound h hstep
  | expressions expressions => exact follows_of_expressions hsound h hstep
  | receiver receiver => exact follows_of_receiver h hstep
  | statement statement => exact follows_of_statement hsound h hstep
  | statements statements => exact follows_of_statements hsound h hstep
  | cases selector cases => exact follows_of_cases hsound h hstep

end Step

/-! ## Visits -/

/-- A visit of a run at a stage: its task fits, in the context in which the checker has taken up
the item at its site. -/
inductive Reached (stage : Stage) (settings : RunSettings) (fuel : Nat) (visit : Visit) : Prop
  | mk {elements returns item c after} :
      Ordinary settings fuel visit.calls →
      Checked stage.settings stage.source visit.site.owner visit.site.place item c →
      Fitting stage elements returns item c visit.task after visit.machine →
      Reached stage settings fuel visit

section Visits

variable {stage : Stage} {settings : RunSettings} {fuel : Nat}

theorem sound_of_performs {calls : Calls} (ordinary : Ordinary settings fuel calls) {task : Task}
    {m m' : Machine} {product : Product} (h : performs settings fuel calls task m product m') :
    Sound stage task m product m' :=
  sound_of_finishes (finishes_of_perform ordinary h)

theorem sound_of_evaluate {calls : Calls} (ordinary : Ordinary settings fuel calls)
    {expression : Expression} {m m' : Machine} {v : Value}
    (h : evaluate settings calls expression m = .ok v m') :
    Sound stage (.expression expression) m (.value v) m' :=
  sound_of_performs ordinary (performs_expression.mpr h)

theorem sound_of_evaluateAll {calls : Calls} (ordinary : Ordinary settings fuel calls)
    {expressions : List Expression} {m m' : Machine} {vs : List Value}
    (h : evaluateAll settings calls expressions m = .ok vs m') :
    Sound stage (.expressions expressions) m (.values vs) m' :=
  sound_of_performs ordinary (performs_expressions.mpr h)

/-- Everything that is visited in the course of a task that fits, fits. -/
theorem Reached.of_visits {start visit : Visit} (h : Reached stage settings fuel start)
    (hvisits : Visits settings fuel start visit) : Reached stage settings fuel visit := by
  induction hvisits with
  | here => exact h
  | part _ hstep ih =>
      obtain ⟨ordinary, hchecked, hfitting⟩ := ih
      obtain ⟨_, _, _, _, hpart, -, hfitting'⟩ :=
        hfitting.step (sound_of_performs ordinary) hstep
      exact ⟨ordinary, .part hchecked hpart, hfitting'⟩
  | body _ hvalues henters ih =>
      -- The site of the body is that of the function, wherever the call stands.
      obtain ⟨ordinary, -, hfitting⟩ := ih
      obtain ⟨hfound, hdeeper, hbound⟩ := henters
      have harguments : Sound stage (.expressions _) _ (.values _) _ :=
        sound_of_evaluateAll ordinary hvalues
      obtain ⟨_, _, -, -, -, m₂, hbound', hentered⟩ := hfitting.enterBody harguments hfound
      rw [hbound] at hbound'
      cases hbound'
      obtain ⟨hchecked, hbody, -, -⟩ := hentered
      exact ⟨Ordinary.deeper hdeeper, hchecked, hbody⟩

end Visits

end TinyScript
