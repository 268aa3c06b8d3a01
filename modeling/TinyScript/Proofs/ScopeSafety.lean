import TinyScript.Proofs.Naming
import TinyScript.Proofs.Run.Outcome

/-!
# Scopes of a run mirror those of the checker

From the call of `main` on, whatever a run takes up is taken up in a scope that has the same frames
as the one in which the checker has taken it up: the same variables, of the same mutability, in the
same order. So every name is found at the depth at which the checker has found it, and a run that
has come to `main` does not fail for a name.
-/

namespace TinyScript

open Typing Run

/-! ## Mirrors -/

/-- A frame of a run binds the names that a frame of the checker binds, variables with the same
mutability. -/
structure FrameMirrors (static : Frame VariableBinding Signature)
    (frame : Frame Variable Callable) : Prop where
  vars : static.vars.map (fun entry => (entry.1, entry.2.isMutable)) =
    frame.vars.map fun entry => (entry.1, entry.2.isMutable)
  funs : static.funs.map Prod.fst = frame.funs.map Prod.fst

/-- The frames of a run mirror those of the checker, one by one. -/
def Mirrors (static : StaticScope) (scope : RunScope) : Prop :=
  List.Forall₂ FrameMirrors static.frames scope.frames

theorem Entrywise.mutability {d : Discipline} {w : Elements}
    {static : List (String × VariableBinding)} {vars : List (String × Variable)}
    (h : Entrywise (Binds d w) static vars) :
    static.map (fun entry => (entry.1, entry.2.isMutable)) =
      vars.map fun entry => (entry.1, entry.2.isMutable) := by
  induction h with
  | nil => rfl
  | cons hentry _ ih => simp [hentry.1, hentry.2.isMutable, ih]

/-- Where no global is missing, scopes that agree mirror each other. -/
theorem Agrees.mirrors {stage : Stage} {w : Elements} {σ : StaticScope} {ρ : RunScope}
    (h : Agrees stage w σ ρ) (hmissing : stage.missing = []) : Mirrors σ ρ := by
  induction h with
  | @root frame frame' hvars hfuns hroot =>
      have hpresent : frame.vars = stage.present := by
        rcases hvars with hvars | hvars
        · exact hvars
        · rw [hvars, hmissing, List.nil_append]
      refine .cons ⟨?_, ?_⟩ .nil
      · rw [hpresent]
        exact Entrywise.mutability hroot.vars
      · rw [hroot.funs]
        exact hfuns.keys
  | child hfuns hfuns' hvars _ ih =>
      refine .cons ⟨Entrywise.mutability hvars, ?_⟩ ih
      rw [hfuns, hfuns']
      rfl

namespace Mirrors

variable {static : StaticScope} {scope : RunScope}

theorem depth (h : Mirrors static scope) : scope.depth = static.depth := by
  have hlength := List.Forall₂.length_eq h
  rw [Scope.length_frames, Scope.length_frames] at hlength
  exact (Nat.succ.inj hlength).symm

theorem variableDepth? (h : Mirrors static scope) (name : String) :
    scope.variableDepth? name = static.variableDepth? name := by
  refine (Scope.findIdx?_of_forall₂ (List.Forall₂.imp (fun frame frame' hframe => ?_) h)).symm
  refine isSome_lookup_of_keys ?_
  simpa [List.map_map, Function.comp_def] using congrArg (List.map Prod.fst) hframe.vars

theorem functionDepth? (h : Mirrors static scope) (name : String) (arity : Nat) :
    scope.functionDepth? name arity = static.functionDepth? name arity :=
  (Scope.findIdx?_of_forall₂ (List.Forall₂.imp
    (fun _ _ hframe => isSome_lookup_of_keys hframe.funs) h)).symm

end Mirrors

/-! ## Visits -/

/-- A visit of a run mirrors what the checker has done in a context: the scopes have the same
frames, and what the task looks up is found at the same depth. -/
structure VisitMirrors (rules : RunSettings) (visit : Visit) (c : Context) : Prop where
  depth : visit.machine.scope.depth = c.scope.depth
  frames : Mirrors c.scope visit.machine.scope
  access : ∀ name, visit.task.variable? = some name →
    ∃ depth, c.scope.variableDepth? name = some depth ∧
      visit.machine.scope.variableDepth? name = some depth
  call : ∀ name arguments binding ty values m',
    visit.task = .expression (.call name arguments binding ty) →
      evaluateAll rules visit.calls arguments visit.machine = .ok values m' →
        ∃ depth, c.scope.functionDepth? name arguments.length = some depth ∧
          m'.scope.functionDepth? name values.length = some depth

theorem Reached.visitMirrors {stage : Stage} {rules : RunSettings} {fuel : Nat} {visit : Visit}
    (h : Reached stage rules fuel visit) (hmissing : stage.missing = []) :
    ∃ item c, Checked stage.settings stage.source visit.site.owner visit.site.place item c ∧
      VisitMirrors rules visit c := by
  obtain ⟨calls, site, task, m⟩ := visit
  obtain ⟨ordinary, hchecked, hfitting⟩ := h
  have hmirrors := hfitting.stands.agrees.mirrors hmissing
  refine ⟨_, _, hchecked, hmirrors.depth, hmirrors, ?_, ?_⟩
  · intro name hname
    obtain ⟨binding, hfound⟩ := hfitting.lookup hname
    obtain ⟨depth, hdepth⟩ := Scope.variableDepth?_of_lookup hfound
    exact ⟨depth, hdepth, (hmirrors.variableDepth? name).trans hdepth⟩
  · rintro name arguments binding ty values m' rfl harguments
    obtain ⟨later, _, _, -, hstands, -, hcount, hcalled⟩ := hfitting.called
      (sound_of_evaluateAll ordinary harguments)
    obtain ⟨depth, hdepth⟩ := Scope.functionDepth?_of_lookup hcalled
    refine ⟨depth, hcount ▸ hdepth, ?_⟩
    exact ((hstands.agrees.mirrors hmissing).functionDepth? name _).trans hdepth

/-! ## Runs of accepted programs -/

/-- In a run of an accepted program, whatever is taken up from the call of `main` on is taken up in
a scope that mirrors the one of the checker, and once all globals have been evaluated the run does
not fail for a name. -/
theorem mirrors_of_check {settings : Settings} {rules : RunSettings} {fuel : Nat}
    {machine : Machine} {source annotated : Program}
    (hcheck : source.check settings = .ok annotated) :
    (∀ start visit, annotated.Main rules fuel machine start →
      Run.Visits rules fuel start visit →
        (∃ item c, Checked settings source visit.site.owner visit.site.place item c) ∧
          ∀ item c, Checked settings source visit.site.owner visit.site.place item c →
            VisitMirrors rules visit c) ∧
      ∀ m error m', annotated.Initialises rules fuel machine annotated.globals m →
        annotated.run rules fuel machine = .error (.failed error) m' →
          ¬ error.ConcernsNames := by
  obtain ⟨functions, c₀, c₁, c₂, h⟩ := accepts_of_check hcheck
  have reached : ∀ {start visit}, annotated.Main rules fuel machine start →
      Run.Visits rules fuel start visit →
        Reached (h.last annotated.admits_names) rules fuel visit :=
    fun hmain hvisits => (h.reached_main annotated.admits_names hmain).of_visits hvisits
  constructor
  · intro start visit hmain hvisits
    obtain ⟨item, c, hchecked, hmirrors⟩ := (reached hmain hvisits).visitMirrors rfl
    refine ⟨⟨item, c, hchecked⟩, fun item' c' hchecked' => ?_⟩
    obtain ⟨rfl, rfl⟩ := h.unique hchecked hchecked'
    exact hmirrors
  · intro m error m' hinitialises hrun hnames
    obtain ⟨linked, hlinked, hglobals⟩ := hinitialises
    -- The functions are bound and the globals evaluated, so what is left is `main` and its result.
    rcases Program.run_eq_error hrun with ⟨after, hfails⟩ | ⟨_, after, hlinked', hfails⟩ |
      ⟨_, hinitialises, ⟨after, hmain⟩ | ⟨v, after, _, -, hresult, herror⟩⟩
    · rw [hlinked] at hfails
      cases hfails
    · rw [hlinked] at hlinked'
      cases hlinked'
      rw [hglobals] at hfails
      cases hfails
    · rcases Program.origin_of_main hinitialises hmain with hraises |
        ⟨start, visit, hstart, hvisits, hraises⟩
      · exact h.not_concernsNames_of_main hinitialises hraises hnames
      · obtain ⟨ordinary, -, hfitting⟩ := reached hstart hvisits
        obtain ⟨_, _, -, -, hmissing, -⟩ :=
          hfitting.undeclared_of_raises (sound_of_performs ordinary) hraises hnames
        cases hmissing
    · cases herror
      rw [mainResult_eq_error hresult] at hnames
      cases hnames

/-- A program that returns, from inside a block of `main`, a global that has never got a value. -/
def unsetResult : Program where
  globals := [⟨"n", some "Integer", true, none, none⟩]
  functions :=
    [⟨"main", [], some "Integer",
      [.branch (.literal (.boolean true) none) [.result (.access "n" none none)] []], none⟩]

/-- The use of the global, with its annotations. -/
def unsetUse : Expression := .access "n" (some ⟨"n", .integer, none, true⟩) (some .integer)

/-- The body of `main` with its annotations. -/
def unsetBody : List Statement :=
  [.branch (.literal (.boolean true) (some .boolean)) [.result unsetUse] []]

/-- The same program with its annotations. -/
def unsetResultChecked : Program where
  globals := [⟨"n", some "Integer", true, none, some ⟨"n", .integer, none, true⟩⟩]
  functions := [⟨"main", [], some "Integer", unsetBody, some ⟨"main", [], .integer⟩⟩]

/-- The machine in which the program is when its global has been evaluated. -/
def unsetMachine : Machine :=
  { Machine.initial .unlimited with
    scope := .root ⟨[("n", ⟨true, .nil⟩)], unsetResultChecked.linked⟩ }

/-- The machine in which the program enters `main`. -/
def unsetEntered : Machine :=
  (unsetResultChecked.ready unsetMachine).callee unsetMachine.scope "main" 0

/-- The visit of the use of the global: two frames inside the root frame. -/
def unsetVisit : Visit :=
  ⟨callWithin default 1 9999, ((((Site.body "main" 0).part 0).part 1).part 0).part 0,
    .expression unsetUse, unsetEntered.enter⟩

/-- The use of the global mirrors the checker, and the run fails, but not for a name. -/
theorem mirrors_of_check_unsetResult :
    unsetResult.check default = .ok unsetResultChecked ∧
      (∃ item c, Checked default unsetResult unsetVisit.site.owner unsetVisit.site.place item c ∧
        VisitMirrors default unsetVisit c) ∧
      ∃ m', unsetResultChecked.run default 1 (.initial .unlimited) =
          .error (.failed (.mainNotInteger .nil)) m' ∧
        ¬ (RuntimeError.mainNotInteger .nil).ConcernsNames := by
  have hcheck : unsetResult.check default = .ok unsetResultChecked := rfl
  have hinitialises : unsetResultChecked.Initialises default 1 (.initial .unlimited)
      unsetResultChecked.globals unsetMachine := ⟨_, rfl, rfl⟩
  have hmain : unsetResultChecked.Main default 1 (.initial .unlimited) _ :=
    .mk hinitialises (.mk rfl (.outermost rfl) rfl)
  have hvisits : Run.Visits default 1
      ⟨callWithin default 1 9999, .body "main" 0, .statements unsetBody, unsetEntered⟩ unsetVisit :=
    .part (.part (.part (.part .here .first)
      (.thenBody (a := .boolean true) (performs_expression.mpr rfl) rfl)) .first) .result
  have hexecute : (unsetResultChecked.execute default 1 (.initial .unlimited)).1 =
      .failed (.runtimeError (.mainNotInteger .nil)) := by decide +kernel
  obtain ⟨m', hrun⟩ := Program.run_of_execute hexecute
  obtain ⟨hmirrors, hfails⟩ := mirrors_of_check hcheck
  obtain ⟨⟨item, c, hchecked⟩, hall⟩ := hmirrors _ unsetVisit hmain hvisits
  exact ⟨hcheck, ⟨item, c, hchecked, hall item c hchecked⟩, m', hrun,
    hfails _ _ _ hinitialises hrun⟩

end TinyScript
