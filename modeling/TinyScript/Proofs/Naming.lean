import TinyScript.Proofs.Initialisation

/-!
# Names in runs of accepted programs

A task of a run that the checker has accepted finds every name that it uses and binds every name
that it declares, but for one exception: a name that the checker has found among the globals may not
have been evaluated yet (`Fitting.undeclared_of_raises`).
-/

namespace TinyScript

open Typing Run

/-- A failure to find what a name stands for, or to bind a variable. -/
def RuntimeError.ConcernsNames : RuntimeError → Prop
  | undeclared _ | undefinedFunction _ _ | variableRedefined _ | receiverWithoutName => True
  | _ => False

/-! ## Annotated names -/

section Annotated

variable {settings : Settings} {scope : StaticScope} {input output : Expression} {ty : Ty}

theorem lookup_of_annotate {name : String}
    (h : annotateExpression settings scope input = .ok (output, ty))
    (hname : output.variable? = some name) :
    ∃ binding, scope.lookupVariable name = some binding := by
  cases rule_of_annotateExpression h with
  | access hfound | element hfound _ _ =>
      cases hname
      exact ⟨_, hfound⟩
  | _ => cases hname

theorem variable?_of_isReceiver (h : annotateExpression settings scope input = .ok (output, ty))
    (hreceiver : input.isReceiver = true) : ∃ name, output.variable? = some name := by
  cases rule_of_annotateExpression h with
  | access _ | element _ _ _ => exact ⟨_, rfl⟩
  | _ => cases hreceiver

end Annotated

/-! ## Failures of tasks that fit -/

section Raises

variable {stage : Stage} {settings : RunSettings} {fuel : Nat} {finish : Finish} {w : Elements}
  {R : Ty} {item : Item} {c after : Context} {m m₁ m' : Machine} {task : Task}

/-- The checker has found the variable that a task which fits looks up. -/
theorem Fitting.lookup (h : Fitting stage w R item c task after m) {name : String}
    (hname : task.variable? = some name) :
    ∃ binding, c.scope.lookupVariable name = some binding := by
  cases h.checks with
  | expression hann | receiver _ hann => exact lookup_of_annotate hann hname
  | _ => cases hname

/-- A name that the checker binds in a block can be bound there. -/
theorem Stands.defines {σ σ' : StaticScope} {name : String} {binding : VariableBinding}
    {found : Variable} (hstands : Stands stage w σ m) (hblock : 0 < σ.depth)
    (hdefine : σ.defineVariable? name binding = some σ') :
    m.scope.defineVariable? name found ≠ none := by
  intro hnone
  obtain ⟨old, hold⟩ := Scope.defineVariable?_eq_none.mp hnone
  obtain ⟨hfree, -⟩ := Scope.defineVariable?_eq_some.mp hdefine
  rw [hstands.agrees.free hblock hfree] at hold
  cases hold

/-- An accepted call finds its function and can bind the parameters. -/
theorem Fitting.not_concernsNames_of_call {name : String} {arguments : List Expression}
    {binding : Option Signature} {ty : Option Ty} {values : List Value} {error : RuntimeError}
    (h : Fitting stage w R item c (.expression (.call name arguments binding ty)) after m)
    (harguments : Sound stage (.expressions arguments) m (.values values) m₁)
    (hraises : CallRaises settings name values m₁ (.failed error)) :
    ¬ error.ConcernsNames := by
  cases hraises with
  | undefined hnone =>
      obtain ⟨_, _, _, -, hstands, -, -, hcalled⟩ := h.called harguments
      obtain ⟨_, _, hfound, -⟩ := hstands.agrees.lookupFunction hcalled
      rw [hnone] at hfound
      cases hfound
  | parameters hfound hfails =>
      obtain ⟨_, _, -, -, -, _, hbound, -⟩ := h.enterBody harguments hfound
      rw [hbound] at hfails
      cases hfails
  | tooDeep | refused => exact id

/-- A task that fits fails to resolve a name only when it looks up a global that is missing. -/
theorem Fitting.undeclared_of_raises (hsound : FinishSound stage finish)
    (h : Fitting stage w R item c task after m) {error : RuntimeError}
    (hraises : Raises settings fuel finish task m (.failed error)) (hnames : error.ConcernsNames) :
    ∃ name binding, error = .undeclared name ∧ task.variable? = some name ∧
      stage.missing.lookup name = some binding ∧
      c.scope.variableDepth? name = some c.scope.depth := by
  have missing : ∀ {name}, task.variable? = some name → m.scope.lookupVariable name = none →
      ∃ binding, stage.missing.lookup name = some binding ∧
        c.scope.variableDepth? name = some c.scope.depth := by
    intro name hname hnone
    obtain ⟨binding, hfound⟩ := h.lookup hname
    rcases h.stands.agrees.lookupVariable hfound with ⟨_, hrun, -⟩ | ⟨-, hmissing, hdepth⟩
    · rw [hnone] at hrun
      cases hrun
    · exact ⟨binding, hmissing, hdepth⟩
  -- Only lookups of variables are left: the other tasks fail in other ways, or for a name that the
  -- checker has found or bound.
  cases hraises with
  | undeclared hname hnone | receiverUndeclared hname hnone =>
      obtain ⟨binding, hmissing, hdepth⟩ := missing hname hnone
      exact ⟨_, binding, rfl, hname, hmissing, hdepth⟩
  | leftTruth _ _ htruth | rightTruth _ _ _ _ _ htruth | branchTruth _ htruth
  | loopTruth _ _ _ htruth =>
      rw [Value.truth_eq_error htruth] at hnames
      cases hnames
  | operation _ _ _ _ hresult =>
      rcases Operator.apply_eq_error hresult with ⟨_, rfl⟩ | ⟨_, _, _, rfl⟩ | ⟨_, _, rfl⟩ <;>
        cases hnames
  | notList _ hlist | receiverNotList _ hlist =>
      rw [Value.listOf_eq_error hlist] at hnames
      cases hnames
  | slot _ _ _ hslot | store _ _ hslot =>
      rcases Value.slot_eq_error hslot with ⟨_, rfl⟩ | ⟨-, rfl⟩ <;> cases hnames
  | call harguments hcall =>
      exact absurd hnames (h.not_concernsNames_of_call (hsound harguments) hcall)
  | immutable _ => cases hnames
  | receiverWithoutName hnone =>
      cases h.checks with
      | receiver hreceiver hann =>
          obtain ⟨name, hname⟩ := variable?_of_isReceiver hann hreceiver
          rw [hnone] at hname
          cases hname
  | redeclared hnone =>
      cases h.checks with
      | statement hblock hann _ =>
          cases rule_of_annotateStatement hann with
          | declaration hdefine => exact absurd hnone (h.stands.defines hblock hdefine)
  | redeclaredInitialised hvalue hnone =>
      cases h.checks with
      | statement hblock hann _ =>
          cases rule_of_annotateStatement hann with
          | initialised hv _ hdefine =>
              obtain ⟨later, -, hstands, -⟩ := (hsound hvalue).value hv h.stands h.keeps.tail
              exact absurd hnone (hstands.defines hblock hdefine)
  | order _ horder =>
      rw [Value.order_eq_error horder] at hnames
      cases hnames

end Raises

/-- `main` is found behind all globals, and has no parameters. -/
theorem Accepts.not_concernsNames_of_main {settings : Settings} {source annotated : Program}
    {functions : List Function} {c₀ c₁ c₂ : Context} {rules : RunSettings} {fuel : Nat}
    {machine m : Machine} {error : RuntimeError}
    (h : Accepts settings source annotated functions c₀ c₁ c₂)
    (hinitialises : annotated.Initialises rules fuel machine annotated.globals m)
    (hraises : CallRaises rules "main" [] (annotated.ready m) (.failed error)) :
    ¬ error.ConcernsNames := by
  obtain ⟨w, hstands⟩ := h.stands_ready annotated.admits_names hinitialises
  cases hraises with
  | undefined hnone =>
      obtain ⟨signature, outer, hstatic, -⟩ := h.main_signature
      obtain ⟨_, _, hfound, -⟩ := hstands.agrees.lookupFunction hstatic
      rw [show ([] : List Value).length = 0 from rfl, hfound] at hnone
      cases hnone
  | parameters hfound hfails =>
      obtain ⟨_, hbound, -⟩ := h.main_entered annotated.admits_names hstands hfound
      rw [show ([] : List Value).length = 0 from rfl, hbound] at hfails
      cases hfails
  | tooDeep | refused => exact id

end TinyScript
