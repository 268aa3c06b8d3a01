import TinyScript.Proofs.Soundness.Expression
import TinyScript.Proofs.Typing.Plain

/-!
# Finished tasks are as the checker says

Whatever the evaluator finishes with in a machine that fits is what the checker has foretold
(`sound_of_finishes`): the scope agrees with the checker's behind the task, values are as their
static types say, and lists hold what their element types say. The proof is one induction on how
tasks finish, with the lemmas for expressions and those for statements, which are here.
-/

namespace TinyScript

open Typing Run

section Sound

variable {stage : Stage} {w : Elements} {R : Ty} {c after : Context} {m m₁ m' : Machine}

/-! ## Assignments -/

theorem sound_whole {name : String} {binding : Option VariableBinding} {ty : Option Ty}
    {found : Variable} (hfound : m.scope.lookupVariable name = some found)
    (hmutable : found.isMutable = true) :
    Sound stage (.receiver (.access name binding ty)) m (.target (.whole name)) m := by
  intro w R item c after h
  cases h.checks with
  | receiver _ hann =>
      cases rule_of_annotateExpression hann with
      | @access _ _ _ binding hstatic =>
          have hbinds := h.stands.agrees.binds_of_lookup hstatic hfound
          refine ⟨w, .refl w, h.stands, binding.ty, rfl, binding, hstatic, ?_, rfl, rfl⟩
          rw [← hbinds.isMutable, hmutable]

theorem sound_slot {name : String} {index : Expression} {binding : Option VariableBinding}
    {ty : Option Ty} {found : Variable} {id : ListId} {position : Value}
    (hfound : m.scope.lookupVariable name = some found) (hid : found.value = .list id)
    (hindex : Sound stage (.expression index) m (.value position) m') :
    Sound stage (.receiver (.element name index binding ty)) m
      (.target (.slot name id position)) m' := by
  intro w R item c after h
  cases h.checks with
  | receiver _ hann =>
      cases rule_of_annotateExpression hann with
      | @element _ _ _ _ _ _ binding ty hstatic hpart hty =>
          obtain ⟨rfl, rfl⟩ := elementType_eq_ok hty
          obtain ⟨later, hext, hstands, _, hposition⟩ := hindex.value hpart h.stands h.keeps
          have hbinds := h.stands.agrees.binds_of_lookup hstatic hfound
          refine ⟨later, hext, hstands, binding.itemType, rfl, rfl, fun hd => ?_,
            (hposition.fits hpart).1⟩
          exact hext id _ (hbinds.fits.2 hd id hid)

theorem Receives.mono {receiver : Expression} {ty : Ty} {target : Target} {w' : Elements}
    {σ : StaticScope} (h : Receives stage w σ receiver ty target) (hext : w.Extends w') :
    Receives stage w' σ receiver ty target := by
  cases target with
  | whole name => exact h
  | slot name id position =>
      obtain ⟨helement, hlist, hposition⟩ := h
      exact ⟨helement, fun hd => hext id ty (hlist hd), hposition⟩

/-- Storing a value that fits keeps the machine in agreement. -/
theorem Receives.store {receiver : Expression} {ty : Ty} {target : Target} {v : Value}
    {σ : StaticScope} {u : Unit} (h : Receives stage w σ receiver ty target)
    (hstands : Stands stage w σ m) (hfits : v.Fits stage.discipline w ty receiver.elementOf)
    (hstore : store target v m = .ok u m') : Stands stage w σ m' := by
  cases target with
  | whole name =>
      obtain ⟨binding, hstatic, hmutable, rfl, helement⟩ := h
      rw [helement] at hfits
      cases hstore
      exact ⟨hstands.agrees.setVariable hstatic hmutable hfits, hstands.lists⟩
  | slot name id position =>
      obtain ⟨helement, hlist, -⟩ := h
      simp only [Run.store, bind_eq_ok, itemsOf, ofExcept_eq_ok, put] at hstore
      obtain ⟨_, _, hitems, slot, _, ⟨-, rfl⟩, hput⟩ := hstore
      cases hitems
      cases hput
      refine ⟨hstands.agrees, hstands.lists.put fun hd ty' hty' => ?_⟩
      obtain rfl : ty = ty' := Option.some.inj ((hlist hd).symm.trans hty')
      rwa [helement] at hfits

theorem sound_assignment {receiver value : Expression} {target : Target} {v : Value}
    {m₂ : Machine} (hreceiver : Sound stage (.receiver receiver) m (.target target) m₁)
    (hvalue : Sound stage (.expression value) m₁ (.value v) m₂)
    (hstore : store target v m₂ = .ok () m') :
    Sound stage (.statement (.assignment receiver value)) m (.flow .completed) m' := by
  intro w R item c after h
  cases h.checks with
  | statement _ hann _ =>
      cases rule_of_annotateStatement hann with
      | @assignment _ _ ty _ _ _ hname hr hv hassignable =>
          have hkeeps : stage.Keeps (⟨receiver.elementOf, value⟩ ::
            (receiver.transfers ++ value.transfers)) := h.keeps
          obtain ⟨w₁, hext₁, hstands₁, ty', hty', hreceives⟩ :=
            hreceiver (R := R) ⟨.receiver hname hr, h.stands, hkeeps.tail.left⟩
          rw [ty_of_annotateExpression hr] at hty'
          cases hty'
          obtain ⟨w₂, hext₂, hstands₂, htyped⟩ :=
            hvalue (Fitting.of_expression (R := R) hv hstands₁ hkeeps.tail.right)
              receiver.elementOf hkeeps.head
          have hfits := (htyped.fits hv).of_isAssignable hassignable
          exact ⟨w₂, hext₁.trans hext₂, (hreceives.mono hext₂).store hstands₂ hfits hstore⟩

/-! ## Declarations and results -/

theorem sound_effect {expression : Expression} {v : Value}
    (hexpression : Sound stage (.expression expression) m (.value v) m') :
    Sound stage (.statement (.expression expression)) m (.flow .completed) m' := by
  intro w R item c after h
  cases h.checks with
  | statement _ hann _ =>
      cases rule_of_annotateStatement hann with
      | expression he =>
          obtain ⟨later, hext, hstands, -⟩ := hexpression.value he h.stands h.keeps
          exact ⟨later, hext, hstands⟩

theorem Stands.define {σ σ' : StaticScope} {name : String} {binding : VariableBinding} {v : Value}
    {scope : RunScope} (hstands : Stands stage w σ m) (hblock : 0 < σ.depth)
    (hdefine : σ.defineVariable? name binding = some σ')
    (hbinds : Binds stage.discipline w binding ⟨true, v⟩)
    (hrun : m.scope.defineVariable? name ⟨true, v⟩ = some scope) :
    Stands stage w σ' { m with scope } := by
  obtain ⟨scope', hscope', hagrees⟩ := hstands.agrees.define hblock hdefine hbinds
  rw [hrun] at hscope'
  cases hscope'
  exact ⟨hagrees, hstands.lists⟩

theorem sound_declaration {name : String} {typeName : Option String}
    {binding : Option VariableBinding} {scope : RunScope}
    (hscope : m.scope.defineVariable? name ⟨true, .nil⟩ = some scope) :
    Sound stage (.statement (.declaration name typeName none binding)) m (.flow .completed)
      { m with scope } := by
  intro w R item c after h
  cases h.checks with
  | statement hblock hann _ =>
      cases rule_of_annotateStatement hann with
      | declaration hstatic =>
          exact ⟨w, .refl w,
            h.stands.define hblock hstatic (binds_plain Value.fits_nil) hscope⟩

theorem sound_initialised {name : String} {typeName : Option String} {value : Expression}
    {binding : Option VariableBinding} {v : Value} {scope : RunScope}
    (hvalue : Sound stage (.expression value) m (.value v) m')
    (hscope : m'.scope.defineVariable? name ⟨true, v⟩ = some scope) :
    Sound stage (.statement (.declaration name typeName (some value) binding)) m
      (.flow .completed) { m' with scope } := by
  intro w R item c after h
  cases h.checks with
  | statement hblock hann _ =>
      cases rule_of_annotateStatement hann with
      | @initialised _ _ _ _ received ty _ _ _ hv hassignable hstatic =>
          have hkeeps : stage.Keeps
            (⟨VariableBinding.itemType ⟨name, ty, copiedElement value, true⟩, value⟩ ::
              value.transfers) := h.keeps
          obtain ⟨later, hext, hstands, htyped⟩ :=
            hvalue (Fitting.of_expression (R := R) hv h.stands hkeeps.tail) _ hkeeps.head
          exact ⟨later, hext, hstands.define hblock hstatic
            ⟨rfl, (htyped.fits hv).of_isAssignable hassignable,
              fun hd => itemType_of_copied hv hassignable fun _ _ hfound =>
                h.stands.agrees.plain hfound hd⟩ hscope⟩

theorem sound_result {value : Expression} {v : Value}
    (hvalue : Sound stage (.expression value) m (.value v) m') :
    Sound stage (.statement (.result value)) m (.flow (.returned v)) m' := by
  intro w R item c after h
  cases h.checks with
  | statement _ hann hreturns =>
      cases rule_of_annotateStatement hann with
      | result hv hreturning =>
          have hkeeps : stage.Keeps (⟨.any, value⟩ :: value.transfers) := h.keeps
          obtain ⟨later, hext, hstands, htyped⟩ :=
            hvalue (Fitting.of_expression (R := R) hv h.stands hkeeps.tail) .any hkeeps.head
          refine ⟨later, hext, ?_, fun frame => frame, ?_⟩
          · exact (htyped.fits hv).of_isAssignable (assignable_of_returning hreturning hreturns)
          · rwa [Scope.modifyCurrent_id]

/-! ## Blocks -/

theorem sound_noStatement : Sound stage (.statements []) m (.flow .completed) m := by
  intro w R item c after h
  cases h.checks with
  | statements _ hann _ =>
      cases rule_of_annotateStatements hann
      exact ⟨w, .refl w, h.stands⟩

/-- Behind the first of some statements the others fit. -/
theorem Fitting.others {statement : Statement} {statements : List Statement} {item : Item}
    (h : Fitting stage w R item c (.statements (statement :: statements)) after m) :
    ∃ input inputs c₁, item = .statements (input :: inputs) ∧
      annotateStatement stage.settings input c = .ok statement c₁ ∧
      Fitting stage w R (.statement input) c (.statement statement) c₁ m ∧
      ∀ {later : Elements} {m₁ : Machine}, Stands stage later c₁.scope m₁ →
        Fitting stage later R (.statements inputs) c₁ (.statements statements) after m₁ := by
  cases h.checks with
  | statements hblock hann hreturns =>
      cases rule_of_annotateStatements hann with
      | @more input _ c₁ inputs _ _ hfirst hrest =>
          have hext := extends_of_annotateStatement input hfirst
          have hreturns₁ : ∀ ty, c₁.returning = some (some ty) → ty = R := fun ty hty =>
            hreturns ty ((extends_of_annotateStatements inputs hrest).returning ty hty)
          have hblock₁ : 0 < c₁.scope.depth := by
            obtain ⟨change, hchange⟩ := hext.scope
            rwa [hchange, Scope.depth_modifyCurrent]
          exact ⟨input, inputs, c₁, rfl, hfirst,
            ⟨.statement hblock hfirst hreturns₁, h.stands, h.keeps.left⟩,
            fun hstands => ⟨.statements hblock₁ hrest hreturns, hstands, h.keeps.right⟩⟩

theorem sound_statements {statement : Statement} {statements : List Statement} {flow : Flow}
    (hfirst : Sound stage (.statement statement) m (.flow .completed) m₁)
    (hrest : Sound stage (.statements statements) m₁ (.flow flow) m') :
    Sound stage (.statements (statement :: statements)) m (.flow flow) m' := by
  intro w R item c after h
  obtain ⟨input, inputs, c₁, -, hann, hstatement, hothers⟩ := h.others
  obtain ⟨w₁, hext₁, hstands₁⟩ := hfirst hstatement
  obtain ⟨w₂, hext₂, hends⟩ := hrest (hothers hstands₁)
  refine ⟨w₂, hext₁.trans hext₂, ?_⟩
  cases flow with
  | completed => exact hends
  | returned v =>
      -- A result leaves the block at once: seen from its start, both changes are one change.
      obtain ⟨hfits, second, hstands⟩ := hends
      obtain ⟨first, hchange⟩ := (extends_of_annotateStatement input hann).scope
      rw [hchange, Scope.modifyCurrent_modifyCurrent] at hstands
      exact ⟨hfits, _, hstands⟩

theorem sound_returned {statement : Statement} {statements : List Statement} {v : Value}
    (hfirst : Sound stage (.statement statement) m (.flow (.returned v)) m') :
    Sound stage (.statements (statement :: statements)) m (.flow (.returned v)) m' := by
  intro w R item c after h
  obtain ⟨input, inputs, c₁, -, -, hstatement, -⟩ := h.others
  obtain ⟨later, hext, hends⟩ := hfirst hstatement
  exact ⟨later, hext, hends⟩

/-! ## Branches and loops -/

/-- The parts of an accepted branch. Both blocks leave the scope as it was. -/
theorem Fitting.branch {test : Expression} {thenBody elseBody : List Statement} {item : Item}
    (h : Fitting stage w R item c (.statement (.branch test thenBody elseBody)) after m) :
    ∃ inputTest inputThen inputElse c₁ c₂,
      item = .statement (.branch inputTest inputThen inputElse) ∧
      annotateExpression stage.settings c.scope inputTest = .ok (test, .boolean) ∧
      annotateStatements stage.settings inputThen c.enter = .ok thenBody c₁ ∧
      annotateStatements stage.settings inputElse c₁.leave.enter = .ok elseBody c₂ ∧
      c₁.leave.scope = c.scope ∧ after = c₂.leave ∧ after.scope = c.scope ∧
      (∀ ty, c₁.returning = some (some ty) → ty = R) ∧
      (∀ ty, c₂.returning = some (some ty) → ty = R) ∧
      stage.Keeps (test.transfers ++
        (transfersOfStatements thenBody ++ transfersOfStatements elseBody)) := by
  cases h.checks with
  | statement _ hann hreturns =>
      cases rule_of_annotateStatement hann with
      | branch ht hthen helse =>
          have hblock₁ := extends_of_annotateStatements _ hthen
          have hblock₂ := extends_of_annotateStatements _ helse
          exact ⟨_, _, _, _, _, rfl, ht, hthen, helse, hblock₁.scope_leave, rfl,
            hblock₂.scope_leave.trans hblock₁.scope_leave,
            fun ty hty => hreturns ty (hblock₂.returning ty hty), hreturns, h.keeps⟩

theorem sound_branchThen {test : Expression} {thenBody elseBody : List Statement} {a : Value}
    {flow : Flow} (htest : Sound stage (.expression test) m (.value a) m₁)
    (hbody : Sound stage (.statements thenBody) m₁.enter (.flow flow) m') :
    Sound stage (.statement (.branch test thenBody elseBody)) m (.flow flow) m'.leave := by
  intro w R item c after h
  obtain ⟨_, _, _, c₁, c₂, -, ht, hthen, -, -, -, hafter, hreturns, -, hkeeps⟩ := h.branch
  obtain ⟨w₁, hext₁, hstands₁, -⟩ := htest.value ht h.stands hkeeps.left
  obtain ⟨w₂, hext₂, hends⟩ :=
    (hbody (Fitting.of_block hthen hstands₁ hkeeps.right.left hreturns)).block hthen hafter
  exact ⟨w₂, hext₁.trans hext₂, hends⟩

theorem sound_branchElse {test : Expression} {thenBody elseBody : List Statement} {a : Value}
    {flow : Flow} (htest : Sound stage (.expression test) m (.value a) m₁)
    (hbody : Sound stage (.statements elseBody) m₁.enter (.flow flow) m') :
    Sound stage (.statement (.branch test thenBody elseBody)) m (.flow flow) m'.leave := by
  intro w R item c after h
  obtain ⟨_, _, _, c₁, c₂, -, ht, -, helse, hscope, -, hafter, -, hreturns, hkeeps⟩ := h.branch
  obtain ⟨w₁, hext₁, hstands₁, -⟩ := htest.value ht h.stands hkeeps.left
  rw [← hscope] at hstands₁
  obtain ⟨w₂, hext₂, hends⟩ :=
    (hbody (Fitting.of_block helse hstands₁ hkeeps.right.right hreturns)).block helse
      (hafter.trans hscope.symm)
  exact ⟨w₂, hext₁.trans hext₂, hends.of_scope hscope⟩

/-- The parts of an accepted loop. -/
theorem Fitting.loop {test : Expression} {body : List Statement} {item : Item}
    (h : Fitting stage w R item c (.statement (.loop test body)) after m) :
    ∃ inputTest inputBody c₁, item = .statement (.loop inputTest inputBody) ∧
      annotateExpression stage.settings c.scope inputTest = .ok (test, .boolean) ∧
      annotateStatements stage.settings inputBody c.enter = .ok body c₁ ∧
      after.scope = c.scope ∧ (∀ ty, c₁.returning = some (some ty) → ty = R) ∧
      stage.Keeps (test.transfers ++ transfersOfStatements body) := by
  cases h.checks with
  | statement _ hann hreturns =>
      cases rule_of_annotateStatement hann with
      | loop ht hbody =>
          exact ⟨_, _, _, rfl, ht, hbody, (extends_of_annotateStatements _ hbody).scope_leave,
            hreturns, h.keeps⟩

theorem sound_loopEnd {test : Expression} {body : List Statement} {a : Value}
    (htest : Sound stage (.expression test) m (.value a) m') :
    Sound stage (.statement (.loop test body)) m (.flow .completed) m' := by
  intro w R item c after h
  obtain ⟨_, _, c₁, -, ht, -, hafter, -, hkeeps⟩ := h.loop
  obtain ⟨later, hext, hstands, -⟩ := htest.value ht h.stands hkeeps.left
  rw [← hafter] at hstands
  exact ⟨later, hext, hstands⟩

/-- One round of a loop. -/
theorem Sound.round {test : Expression} {body : List Statement} {a : Value} {flow : Flow}
    {item : Item} (htest : Sound stage (.expression test) m (.value a) m₁)
    (hbody : Sound stage (.statements body) m₁.enter (.flow flow) m')
    (h : Fitting stage w R item c (.statement (.loop test body)) after m) :
    ∃ later, w.Extends later ∧ Ends stage later R c after flow m'.leave := by
  obtain ⟨_, _, c₁, -, ht, hb, hafter, hreturns, hkeeps⟩ := h.loop
  obtain ⟨w₁, hext₁, hstands₁, -⟩ := htest.value ht h.stands hkeeps.left
  obtain ⟨w₂, hext₂, hends⟩ :=
    (hbody (Fitting.of_block hb hstands₁ hkeeps.right hreturns)).block hb hafter
  exact ⟨w₂, hext₁.trans hext₂, hends⟩

theorem sound_loopReturn {test : Expression} {body : List Statement} {a v : Value}
    (htest : Sound stage (.expression test) m (.value a) m₁)
    (hbody : Sound stage (.statements body) m₁.enter (.flow (.returned v)) m') :
    Sound stage (.statement (.loop test body)) m (.flow (.returned v)) m'.leave := by
  intro w R item c after h
  exact htest.round hbody h

theorem sound_loopAgain {test : Expression} {body : List Statement} {a : Value} {flow : Flow}
    {m₂ : Machine} (htest : Sound stage (.expression test) m (.value a) m₁)
    (hbody : Sound stage (.statements body) m₁.enter (.flow .completed) m₂)
    (hagain : Sound stage (.statement (.loop test body)) m₂.leave (.flow flow) m') :
    Sound stage (.statement (.loop test body)) m (.flow flow) m' := by
  intro w R item c after h
  -- A round leaves the scope as it was, so what is left of the loop fits again.
  obtain ⟨w₁, hext₁, hstands₁⟩ := htest.round hbody h
  obtain ⟨_, _, c₁, -, -, -, hafter, -⟩ := h.loop
  have hstands : Stands stage w₁ c.scope m₂.leave := by
    rw [← hafter]
    exact hstands₁
  obtain ⟨w₂, hext₂, hends⟩ := hagain ⟨h.checks, hstands, h.keeps⟩
  exact ⟨w₂, hext₁.trans hext₂, hends⟩

/-! ## Switches -/

/-- The parts of an accepted switch. -/
theorem Fitting.switch {test : Expression} {cases : List Case} {item : Item}
    (h : Fitting stage w R item c (.statement (.switch test cases)) after m) :
    ∃ inputTest inputCases ty, item = .statement (.switch inputTest inputCases) ∧
      annotateExpression stage.settings c.scope inputTest = .ok (test, ty) ∧
      annotateCases stage.settings ty inputCases c = .ok cases after ∧
      (∀ ty, after.returning = some (some ty) → ty = R) ∧
      stage.Keeps (test.transfers ++ transfersOfCases cases) := by
  cases h.checks with
  | statement _ hann hreturns =>
      cases rule_of_annotateStatement hann with
      | switch ht hcases => exact ⟨_, _, _, rfl, ht, hcases, hreturns, h.keeps⟩

theorem sound_switch {test : Expression} {cases : List Case} {selector : Value} {flow : Flow}
    (htest : Sound stage (.expression test) m (.value selector) m₁)
    (hcases : Sound stage (.cases selector cases) m₁ (.flow flow) m') :
    Sound stage (.statement (.switch test cases)) m (.flow flow) m' := by
  intro w R item c after h
  obtain ⟨_, _, _, -, ht, hc, hreturns, hkeeps⟩ := h.switch
  obtain ⟨w₁, hext₁, hstands₁, -⟩ := htest.value ht h.stands hkeeps.left
  obtain ⟨w₂, hext₂, hends⟩ := hcases ⟨.cases hc hreturns, hstands₁, hkeeps.right⟩
  exact ⟨w₂, hext₁.trans hext₂, hends⟩

theorem sound_noCase {selector : Value} :
    Sound stage (.cases selector []) m (.flow .completed) m := by
  intro w R item c after h
  cases h.checks with
  | cases hann _ =>
      cases rule_of_annotateCases hann
      exact ⟨w, .refl w, h.stands⟩

theorem sound_defaultCase {selector : Value} {body : List Statement} {cases : List Case}
    {flow : Flow} (hbody : Sound stage (.statements body) m.enter (.flow flow) m') :
    Sound stage (.cases selector (.mk none body :: cases)) m (.flow flow) m'.leave := by
  intro w R item c after h
  cases h.checks with
  | cases hann hreturns =>
      cases rule_of_annotateCases hann with
      | default hb =>
          have hkeeps : stage.Keeps (transfersOfStatements body ++ transfersOfCases []) := h.keeps
          exact (hbody (Fitting.of_block hb h.stands hkeeps.left hreturns)).block hb
            (extends_of_annotateStatements _ hb).scope_leave

/-- The first of some accepted cases that has a value, and the others. -/
theorem Fitting.valued {selector : Value} {value : Expression} {body : List Statement}
    {cases : List Case} {item : Item}
    (h : Fitting stage w R item c (.cases selector (.mk (some value) body :: cases)) after m) :
    ∃ ty inputValue received inputBody inputCases c₁,
      item = .cases ty (.mk (some inputValue) inputBody :: inputCases) ∧
      annotateExpression stage.settings c.scope inputValue = .ok (value, received) ∧
      annotateStatements stage.settings inputBody c.enter = .ok body c₁ ∧
      annotateCases stage.settings ty inputCases c₁.leave = .ok cases after ∧
      c₁.leave.scope = c.scope ∧ after.scope = c.scope ∧
      (∀ ty, c₁.returning = some (some ty) → ty = R) ∧
      (∀ ty, after.returning = some (some ty) → ty = R) ∧
      stage.Keeps (value.transfers ++ (transfersOfStatements body ++ transfersOfCases cases)) := by
  cases h.checks with
  | cases hann hreturns =>
      cases rule_of_annotateCases hann with
      | more hv hb hrest =>
          have hblock := extends_of_annotateStatements _ hb
          obtain ⟨hext, hscope⟩ := extends_of_annotateCases _ hrest
          exact ⟨_, _, _, _, _, _, rfl, hv, hb, hrest, hblock.scope_leave,
            hscope.trans hblock.scope_leave,
            fun ty hty => hreturns ty (hext.returning ty hty), hreturns, h.keeps⟩

theorem sound_equalCase {selector a : Value} {value : Expression} {body : List Statement}
    {cases : List Case} {flow : Flow} (hvalue : Sound stage (.expression value) m (.value a) m₁)
    (hbody : Sound stage (.statements body) m₁.enter (.flow flow) m') :
    Sound stage (.cases selector (.mk (some value) body :: cases)) m (.flow flow) m'.leave := by
  intro w R item c after h
  obtain ⟨_, _, _, _, _, c₁, -, hv, hb, -, -, hafter, hreturns, -, hkeeps⟩ := h.valued
  obtain ⟨w₁, hext₁, hstands₁, -⟩ := hvalue.value hv h.stands hkeeps.left
  obtain ⟨w₂, hext₂, hends⟩ :=
    (hbody (Fitting.of_block hb hstands₁ hkeeps.right.left hreturns)).block hb hafter
  exact ⟨w₂, hext₁.trans hext₂, hends⟩

theorem sound_otherCase {selector a : Value} {value : Expression} {body : List Statement}
    {cases : List Case} {flow : Flow} (hvalue : Sound stage (.expression value) m (.value a) m₁)
    (hcases : Sound stage (.cases selector cases) m₁ (.flow flow) m') :
    Sound stage (.cases selector (.mk (some value) body :: cases)) m (.flow flow) m' := by
  intro w R item c after h
  obtain ⟨_, _, _, _, _, c₁, -, hv, -, hc, hscope, -, -, hreturns, hkeeps⟩ := h.valued
  obtain ⟨w₁, hext₁, hstands₁, -⟩ := hvalue.value hv h.stands hkeeps.left
  rw [← hscope] at hstands₁
  obtain ⟨w₂, hext₂, hends⟩ := hcases ⟨.cases hc hreturns, hstands₁, hkeeps.right.right⟩
  exact ⟨w₂, hext₁.trans hext₂, hends.of_scope hscope⟩

end Sound

/-! ## Finished tasks -/

/-- A task that fits and finishes yields what the checker has foretold. -/
theorem sound_of_finishes {stage : Stage} {settings : RunSettings} {task : Task} {m m' : Machine}
    {product : Product} (h : Finishes settings task m product m') :
    Sound stage task m product m' := by
  induction h with
  | literal => exact sound_literal
  | group _ hinner => exact sound_group hinner
  | decided hlogical _ _ _ hleft => exact sound_decided hlogical hleft
  | undecided hlogical _ _ _ _ _ hleft hright => exact sound_undecided hlogical hleft hright
  | operation hlogical _ _ _ hv hleft hright => exact sound_operation hlogical hleft hright hv
  | access hfound => exact sound_access hfound
  | element hfound hid _ _ hindex => exact sound_element hfound hid hindex
  | print _ _ hafter harguments => exact sound_print harguments hafter
  | call _ hfound hbound _ harguments hbody => exact sound_call harguments hfound hbound hbody
  | list _ helements => exact sound_list helements
  | noExpression => exact sound_noExpression
  | expressions _ _ hfirst hrest => exact sound_expressions hfirst hrest
  | whole hfound hmutable => exact sound_whole hfound hmutable
  | slot hfound _ hid _ hindex => exact sound_slot hfound hid hindex
  | effect _ hexpression => exact sound_effect hexpression
  | declaration hscope => exact sound_declaration hscope
  | initialised _ hscope hvalue => exact sound_initialised hvalue hscope
  | assignment _ _ hstore hreceiver hvalue => exact sound_assignment hreceiver hvalue hstore
  | branchThen _ _ _ htest hbody => exact sound_branchThen htest hbody
  | branchElse _ _ _ htest hbody => exact sound_branchElse htest hbody
  | switch _ _ htest hcases => exact sound_switch htest hcases
  | loopEnd _ _ htest => exact sound_loopEnd htest
  | loopReturn _ _ _ htest hbody => exact sound_loopReturn htest hbody
  | loopAgain _ _ _ _ htest hbody hagain => exact sound_loopAgain htest hbody hagain
  | result _ hvalue => exact sound_result hvalue
  | noStatement => exact sound_noStatement
  | statements _ _ hfirst hrest => exact sound_statements hfirst hrest
  | returned _ hfirst => exact sound_returned hfirst
  | noCase => exact sound_noCase
  | defaultCase _ hbody => exact sound_defaultCase hbody
  | equalCase _ _ _ hvalue hbody => exact sound_equalCase hvalue hbody
  | otherCase _ _ _ _ hvalue hcases => exact sound_otherCase hvalue hcases

end TinyScript
