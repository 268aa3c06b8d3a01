import TinyScript.Proofs.Typing.Endings
import TinyScript.Proofs.Typing.Notices

/-!
# A fault leaves the checker as it was

A host asks the checker for one thing after another, each in a scope that it keeps: to register a
function, to check a global, a statement, an expression, the body of a function, or a whole program.
Main statement (`perform_steady`): outside of a function, a request that ends in a fault leaves the
scope as it was and the checker outside of a function, so that all later requests are answered as by
a fresh checker; and a request that ends well leaves in the scope the one binding it is about
(`Request.Effect`), and nothing else. Asking for a whole program is `Program.check`
(`perform_program`).
-/

namespace TinyScript.Typing

/-! ## Requests -/

/-- What a host can ask the checker for. -/
inductive Request where
  | register (function : Function)
  | global (global : Global)
  | statement (statement : Statement)
  | expression (expression : Expression)
  | function (function : Function)
  | program (program : Program)

namespace Request

/-- The request with other leaves. -/
def rewrite (r : Rewriting) : Request → Request
  | .register tree => .register (tree.rewrite r)
  | .global tree => .global (tree.rewrite r)
  | .statement tree => .statement (tree.rewrite r)
  | .expression tree => .expression (tree.rewrite r)
  | .function tree => .function (tree.rewrite r)
  | .program tree => .program (tree.rewrite r)

/-- Checks in the scope that holds only what every program can call. The scope in front is there
again behind it. -/
def inRootScope {Tree α : Type} (check : Check Tree α) : Check Tree α := fun context =>
  match check { context with scope := rootScope } with
  | .ok value after => .ok value { after with scope := context.scope }
  | .error fault after => .error fault { after with scope := context.scope }

/-- Does what is asked for, and gives the tree back with its annotations. The type of an expression
is one of them. -/
def perform (settings : Settings) : Request → Check Request Request
  | .register tree => do
    let tree ← Check.part .register (registerFunction settings tree)
    return .register tree
  | .global tree => do
    let tree ← Check.part .global (annotateGlobal settings tree)
    return .global tree
  | .statement tree => do
    let tree ← Check.part .statement (annotateStatement settings tree)
    return .statement tree
  | .expression tree => do
    let (tree, _) ← Check.expression settings .expression tree
    return .expression tree
  | .function tree => do
    let tree ← Check.part .function (annotateFunction settings tree)
    return .function tree
  | .program tree => do
    let tree ← Check.part .program (inRootScope (annotateProgram settings tree))
    return .program tree

/-- What a request that has been met changes of the scope: registering a function and checking a
global add one binding, and so does a declaration; checking the body of a function replaces at most
what the function returns, if that is not declared; nothing else changes anything. -/
inductive Effect (before : StaticScope) : Request → Request → StaticScope → Prop
  | register {tree signature after} :
      before.defineFunction? tree.name tree.arity signature = some after →
      Effect before (.register tree) (.register { tree with signature := some signature }) after
  | global {tree value binding after} :
      before.defineVariable? tree.name binding = some after →
      Effect before (.global tree) (.global { tree with value, binding := some binding }) after
  | declaration {name typeName value value' old binding after} :
      before.defineVariable? name binding = some after →
      Effect before (.statement (.declaration name typeName value old))
        (.statement (.declaration name typeName value' (some binding))) after
  | statement {tree tree'} :
      (∀ name typeName value old, tree ≠ .declaration name typeName value old) →
      Effect before (.statement tree) (.statement tree') before
  | expression {tree tree'} : Effect before (.expression tree) (.expression tree') before
  | declared {tree tree'} :
      tree.returnTypeName.isSome = true → Effect before (.function tree) (.function tree') before
  | elsewhere {tree tree'} :
      tree.returnTypeName = none → before.current.lookupFunction tree.name tree.arity = none →
      Effect before (.function tree) (.function tree') before
  | inferred {tree tree' signature returns} :
      tree.returnTypeName = none →
      before.current.lookupFunction tree.name tree.arity = some signature →
      Effect before (.function tree) (.function tree')
        (before.setFunction tree.name tree.arity { signature with returns })
  | program {tree tree'} : Effect before (.program tree) (.program tree') before

end Request

variable {settings : Settings}

/-! ## Faults -/

theorem ends_inRootScope {Tree α : Type} {check : Check Tree α} {c : Context}
    {well : α → Context → Prop} {badly : Tree → Context → Prop}
    (h : check.Ends { c with scope := rootScope } (fun a c' => well a { c' with scope := c.scope })
      fun tree c' => badly tree { c' with scope := c.scope }) :
    (Request.inRootScope check).Ends c well badly := by
  unfold Check.Ends at h ⊢
  unfold Request.inRootScope
  cases hcheck : check { c with scope := rootScope } <;> rw [hcheck] at h <;> exact h

/-- A fault carries the tree of the request, with other annotations, and leaves the scope as it
was. -/
theorem ends_perform (request : Request) (c : Context) :
    (request.perform settings).Ends c
      (fun _ c' => c.returning = none → c'.returning = none)
      fun tree c' => tree.rewrite .erasing = request.rewrite .erasing ∧ c.Keeps c' := by
  cases request with
  | register tree =>
      refine .bind (.part ((ends_registerFunction tree c).mono
        (fun _ _ _ hreturning => .pure hreturning.trans) ?_))
      rintro _ c' ⟨rfl, rfl⟩
      exact ⟨rfl, .refl _⟩
  | global tree =>
      refine .bind (.part ((ends_annotateGlobal tree c).mono
        (fun _ _ _ hreturning => .pure hreturning.trans) ?_))
      rintro tree' c' ⟨herased, rfl⟩
      exact ⟨congrArg Request.global herased, .refl _⟩
  | statement tree =>
      refine .bind (.part ((ends_annotateStatement tree).mono
        (fun _ _ _ hstays => .pure hstays.outside) ?_))
      rintro tree' c' ⟨herased, hkeeps⟩
      exact ⟨congrArg Request.statement herased, hkeeps⟩
  | expression tree =>
      refine .bind (.expression (fun _ _ _ => .pure fun hnone => hnone) ?_)
      intro tree' herased
      exact ⟨congrArg Request.expression herased, .refl _⟩
  | function tree =>
      refine .bind (.part ((ends_annotateFunction tree c).mono
        (fun _ _ _ hreturning => .pure hreturning.trans) ?_))
      rintro tree' c' ⟨herased, hscope, hreturning⟩
      exact ⟨congrArg Request.function herased, hscope, hreturning.trans⟩
  | program tree =>
      refine .bind (.part (ends_inRootScope ((ends_annotateProgram tree _).mono
        (fun _ _ _ hreturning => .pure hreturning.trans) ?_)))
      rintro tree' c' ⟨herased, hreturning⟩
      exact ⟨congrArg Request.program herased, rfl, hreturning.trans⟩

/-! ## Requests that are met -/

theorem scope_of_annotateStatement {input output : Statement} {c c' : Context}
    (h : annotateStatement settings input c = .ok output c')
    (hother : ∀ name typeName value old, input ≠ .declaration name typeName value old) :
    c'.scope = c.scope := by
  cases rule_of_annotateStatement h with
  | expression => rfl
  | declaration => exact absurd rfl (hother _ _ _ _)
  | initialised => exact absurd rfl (hother _ _ _ _)
  | assignment => rfl
  | branch _ hthen helse =>
      exact (extends_of_annotateStatements _ helse).scope_leave.trans
        (extends_of_annotateStatements _ hthen).scope_leave
  | switch _ hcases => exact (extends_of_annotateCases _ hcases).2
  | loop _ hbody => exact (extends_of_annotateStatements _ hbody).scope_leave
  | result _ hreturning => exact scope_of_returning hreturning

theorem effect_of_annotateStatement {input output : Statement} {c c' : Context}
    (h : annotateStatement settings input c = .ok output c') :
    Request.Effect c.scope (.statement input) (.statement output) c'.scope := by
  -- What a block in a statement binds is gone behind it, so only a declaration binds a name here.
  by_cases hother : ∀ name typeName value old, input ≠ .declaration name typeName value old
  · rw [scope_of_annotateStatement h hother]
    exact .statement hother
  · simp only [not_forall, not_not] at hother
    obtain ⟨name, typeName, value, old, rfl⟩ := hother
    cases rule_of_annotateStatement h with
    | declaration hscope => exact .declaration hscope
    | initialised _ _ hscope => exact .declaration hscope

theorem effect_of_annotateGlobal {input output : Global} {c c' : Context}
    (h : annotateGlobal settings input c = .ok output c') :
    Request.Effect c.scope (.global input) (.global output) c'.scope := by
  obtain ⟨binding, scope, hrule, hscope, rfl⟩ := rule_of_annotateGlobal h
  cases hrule <;> exact .global hscope

theorem effect_of_registerFunction {input output : Function} {c c' : Context}
    (h : registerFunction settings input c = .ok output c') :
    Request.Effect c.scope (.register input) (.register output) c'.scope := by
  obtain ⟨signature, scope, -, rfl, hscope, rfl⟩ := registerFunction_eq_ok h
  exact .register hscope

theorem effect_of_annotateFunction {input output : Function} {c c' : Context}
    (h : annotateFunction settings input c = .ok output c') :
    Request.Effect c.scope (.function input) (.function output) c'.scope := by
  obtain ⟨after, hrule⟩ := rule_of_annotateFunction h
  cases hrule with
  | declared _ hdeclared _ _ hscope =>
      rw [hscope]
      exact .declared hdeclared
  | inferred _ hnone _ _ _ hscope =>
      rcases hscope with ⟨hfree, hscope⟩ | ⟨found, hfound, hscope⟩
      · rw [hscope]
        exact .elsewhere hnone hfree
      · rw [hscope]
        exact .inferred hnone hfound

theorem inRootScope_eq_ok {Tree α : Type} {check : Check Tree α} {c c' : Context} {a : α}
    (h : Request.inRootScope check c = .ok a c') :
    ∃ after, check { c with scope := rootScope } = .ok a after ∧
      c' = { after with scope := c.scope } := by
  unfold Request.inRootScope at h
  split at h
  · next after hcheck =>
      cases h
      exact ⟨after, hcheck, rfl⟩
  · cases h

theorem effect_of_perform {request done : Request} {c c' : Context}
    (h : request.perform settings c = .ok done c') :
    request.Effect c.scope done c'.scope := by
  cases request <;>
    simp only [Request.perform, bind_eq_ok, Check.part_eq_ok, Check.expression_eq_ok, pure_eq_ok,
      Prod.exists] at h
  case register tree =>
    obtain ⟨_, _, h, rfl, rfl⟩ := h
    exact effect_of_registerFunction h
  case global tree =>
    obtain ⟨_, _, h, rfl, rfl⟩ := h
    exact effect_of_annotateGlobal h
  case statement tree =>
    obtain ⟨_, _, h, rfl, rfl⟩ := h
    exact effect_of_annotateStatement h
  case expression tree =>
    obtain ⟨_, _, _, ⟨-, rfl⟩, rfl, rfl⟩ := h
    exact .expression
  case function tree =>
    obtain ⟨_, _, h, rfl, rfl⟩ := h
    exact effect_of_annotateFunction h
  case program tree =>
    obtain ⟨_, _, h, rfl, rfl⟩ := h
    obtain ⟨_, -, rfl⟩ := inRootScope_eq_ok h
    exact .program

theorem erase_of_annotateProgram {program annotated : Program} {c c' : Context}
    (h : annotateProgram settings program c = .ok annotated c') :
    annotated.rewrite .erasing = program.rewrite .erasing := by
  simp only [annotateProgram, bind_eq_ok, Check.part_eq_ok, Check.require_eq_ok, pure_eq_ok] at h
  obtain ⟨functions, _, hregistered, globals, _, hglobals, functions', _, hbodies, _, _, -, _, _, -,
    _, _, -, rfl, -⟩ := h
  simp only [Program.rewrite, map_of_annotateEach erase_of_annotateGlobal hglobals,
    map_of_annotateEach erase_of_annotateFunction hbodies,
    map_of_annotateEach erase_of_registerFunction hregistered]

theorem erase_of_perform {request done : Request} {c c' : Context}
    (h : request.perform settings c = .ok done c') :
    done.rewrite .erasing = request.rewrite .erasing := by
  cases request <;>
    simp only [Request.perform, bind_eq_ok, Check.part_eq_ok, Check.expression_eq_ok, pure_eq_ok,
      Prod.exists] at h
  case register tree =>
    obtain ⟨_, _, h, rfl, -⟩ := h
    exact congrArg Request.register (erase_of_registerFunction h)
  case global tree =>
    obtain ⟨_, _, h, rfl, -⟩ := h
    exact congrArg Request.global (erase_of_annotateGlobal h)
  case statement tree =>
    obtain ⟨_, _, h, rfl, -⟩ := h
    exact congrArg Request.statement (erase_of_annotateStatement tree h)
  case expression tree =>
    obtain ⟨_, _, _, ⟨h, -⟩, rfl, -⟩ := h
    exact congrArg Request.expression (erase_of_annotateExpression tree h)
  case function tree =>
    obtain ⟨_, _, h, rfl, -⟩ := h
    exact congrArg Request.function (erase_of_annotateFunction h)
  case program tree =>
    obtain ⟨_, _, h, rfl, -⟩ := h
    obtain ⟨_, h, -⟩ := inRootScope_eq_ok h
    exact congrArg Request.program (erase_of_annotateProgram h)

/-! ## Later requests -/

theorem blind_inRootScope {Tree α : Type} {check : Check Tree α} (h : check.Blind) :
    (Request.inRootScope check).Blind := by
  intro c notices
  exact outcome_match (h { c with scope := rootScope } notices) (fun _ _ _ => rfl)
    fun _ _ _ => rfl

theorem blind_perform (request : Request) : (request.perform settings).Blind := by
  cases request with
  | register tree => exact .bind (.part (blind_registerFunction tree)) fun _ => .pure _
  | global tree => exact .bind (.part (blind_annotateGlobal tree)) fun _ => .pure _
  | statement tree => exact .bind (.part (blind_annotateStatement tree)) fun _ => .pure _
  | expression tree => exact .bind (.expression _ tree) fun _ => .pure _
  | function tree => exact .bind (.part (blind_annotateFunction tree)) fun _ => .pure _
  | program tree =>
      exact .bind (.part (blind_inRootScope (blind_annotateProgram tree))) fun _ => .pure _

/-- Asking for a program outside of a function is checking it, in whatever scope it is asked. -/
theorem perform_program (program : Program) {context : Context}
    (houtside : context.returning = none) :
    (outcome ((Request.program program).perform settings context)).1.mapError Fault.reason =
      (program.check settings).map .program := by
  obtain ⟨scope, returning, notices⟩ := context
  obtain rfl : returning = none := houtside
  have hblind := @blind_perform settings (.program program) ⟨scope, none, []⟩ notices
  dsimp only at hblind
  rw [hblind, Program.check]
  cases hran : annotateProgram settings program .initial with
  | ok annotated after =>
      have hroot : Request.inRootScope (annotateProgram settings program) ⟨scope, none, []⟩ =
          .ok annotated { after with scope } := by
        unfold Request.inRootScope
        rw [show annotateProgram settings program ⟨rootScope, none, []⟩ = _ from hran]
      have hdone : (Request.program program).perform settings ⟨scope, none, []⟩ =
          .ok (.program annotated) { after with scope } :=
        bind_eq_ok.mpr ⟨annotated, _, Check.part_eq_ok.mpr hroot, rfl⟩
      rw [hdone]
      rfl
  | error fault after =>
      have hroot : Request.inRootScope (annotateProgram settings program) ⟨scope, none, []⟩ =
          .error fault { after with scope } := by
        unfold Request.inRootScope
        rw [show annotateProgram settings program ⟨rootScope, none, []⟩ = _ from hran]
      have hfailed : (Request.program program).perform settings ⟨scope, none, []⟩ =
          .error (fault.within .program) { after with scope } := by
        refine bind_eq_error.mpr (.inl ?_)
        unfold Check.part
        rw [hroot]
      rw [hfailed]
      rfl

/-- Outside of a function, a request that ends in a fault leaves the scope as it was and the checker
outside of a function, and changes annotations only; so whatever is asked next, in whatever scope,
is answered as by a fresh checker with the same settings. A request that is met leaves the checker
outside of a function too, changes annotations only, and has no effect on the scope but its own. -/
theorem perform_steady (settings : Settings) (request : Request) (context : Context)
    (houtside : context.returning = none) :
    (∀ fault after, request.perform settings context = .error fault after →
        after.scope = context.scope ∧ after.returning = none ∧
          fault.tree.rewrite .erasing = request.rewrite .erasing ∧
          ∀ (next : Request) (scope : StaticScope),
            outcome (next.perform settings { after with scope }) =
              outcome (next.perform settings ⟨scope, none, []⟩)) ∧
      ∀ done after, request.perform settings context = .ok done after →
        after.returning = none ∧ done.rewrite .erasing = request.rewrite .erasing ∧
          request.Effect context.scope done after.scope := by
  have hends := @ends_perform settings request context
  constructor
  · intro fault after h
    obtain ⟨herased, hkeeps⟩ := hends.of_error h
    have hreturning := hkeeps.outside houtside
    refine ⟨hkeeps.scope, hreturning, herased, fun next scope => ?_⟩
    -- Outside of a function all that the fault has left are its notices.
    rw [hreturning]
    exact blind_perform next ⟨scope, none, []⟩ after.notices
  · intro done after h
    exact ⟨hends.of_ok h houtside, erase_of_perform h, effect_of_perform h⟩

/-- A function that binds a name a second time in a block, when the first result has already fixed
what the function returns. -/
def redefining : Function :=
  ⟨"twice", [], none,
    [.branch (.literal (.boolean true) none)
      [.declaration "x" none (some (.literal (.integer 1) none)) none,
        .result (.access "x" none none),
        .declaration "x" none (some (.literal (.integer 2) none)) none] []],
    some ⟨"twice", [], .any⟩⟩

/-- The body of the function cannot be checked, which leaves no trace; a declaration that comes next
binds its name. -/
theorem perform_steady_redefining :
    (∃ fault after, (Request.function redefining).perform default .initial = .error fault after ∧
        fault.reason = .variableRedefined "x" ∧ after.scope = rootScope ∧
        after.returning = none ∧
        fault.tree.rewrite .erasing = (Request.function redefining).rewrite .erasing ∧
        ∀ (next : Request) (scope : StaticScope),
          outcome (next.perform default { after with scope }) =
            outcome (next.perform default ⟨scope, none, []⟩)) ∧
      ∃ done after,
        (Request.statement (.declaration "x" (some "Integer") none none)).perform default .initial =
            .ok done after ∧
          after.returning = none ∧
          (Request.statement (.declaration "x" (some "Integer") none none)).Effect rootScope done
            after.scope := by
  have hfault : ∃ fault after,
      (Request.function redefining).perform default .initial = .error fault after ∧
        fault.reason = .variableRedefined "x" := ⟨_, _, rfl, rfl⟩
  have hdone : ∃ done after,
      (Request.statement (.declaration "x" (some "Integer") none none)).perform default .initial =
        .ok done after := ⟨_, _, rfl⟩
  obtain ⟨fault, after, h, hreason⟩ := hfault
  obtain ⟨done, after', h'⟩ := hdone
  obtain ⟨hfailed, -⟩ := perform_steady default (.function redefining) .initial rfl
  obtain ⟨-, hmet⟩ := perform_steady default
    (.statement (.declaration "x" (some "Integer") none none)) .initial rfl
  obtain ⟨hreturning, -, heffect⟩ := hmet done after' h'
  exact ⟨⟨fault, after, h, hreason, hfailed fault after h⟩, done, after', h', hreturning, heffect⟩

end TinyScript.Typing
