import TinyScript.Proofs.Initialisation
import TinyScript.Proofs.Run.Outcome

/-!
# Static types hold up to nil

In a run of an accepted program every value that an expression comes to conforms to the type that
the checker has given to the expression, and every variable to the type of its binding. Lists do not
keep the element types that their variables declare, so element types other than any are left out
here. What is left for failures for want of a kind is nil.
-/

namespace TinyScript

open Typing Run

/-! ## Variables -/

/-- Every variable of a frame of a run has a binding in a frame of the checker and conforms to its
type. -/
def FrameConforms (static : Frame VariableBinding Signature) (frame : Frame Variable Callable) :
    Prop :=
  ∀ name found, frame.lookupVariable name = some found →
    ∃ binding, static.lookupVariable name = some binding ∧ found.value.Conforms binding.ty

/-- The variables in the frames of a run conform to their bindings, frame by frame. -/
def VariablesConform (static : StaticScope) (scope : RunScope) : Prop :=
  List.Forall₂ FrameConforms static.frames scope.frames

section Variables

variable {stage : Stage} {w : Elements} {σ : StaticScope} {ρ : RunScope}

/-- A global that is present has the binding that the checker has in the root frame. -/
theorem Stage.Root.lookup_left {frame : Frame VariableBinding Signature}
    {frame' : Frame Variable Callable} {name : String} {found : Variable}
    (hroot : stage.Root w frame')
    (hvars : frame.vars = stage.present ∨ frame.vars = stage.missing ++ stage.present)
    (hfound : frame'.lookupVariable name = some found) :
    ∃ binding, frame.lookupVariable name = some binding ∧
      Binds stage.discipline w binding found := by
  obtain ⟨binding, hbinding, hbinds⟩ := hroot.vars.lookup_right hfound
  exact ⟨binding, Stage.lookup_of_present hvars hbinding, hbinds⟩

theorem Agrees.variablesConform (h : Agrees stage w σ ρ) (hd : stage.discipline ≠ .names) :
    VariablesConform σ ρ := by
  induction h with
  | @root frame frame' hvars _ hroot =>
      refine .cons (fun name found hfound => ?_) .nil
      obtain ⟨binding, hbinding, hbinds⟩ := hroot.lookup_left hvars hfound
      exact ⟨binding, hbinding, hbinds.fits.1 hd⟩
  | @child frame frame' _ _ _ _ hvars _ ih =>
      refine .cons (fun name found hfound => ?_) ih
      obtain ⟨binding, hbinding, hbinds⟩ := hvars.lookup_right hfound
      exact ⟨binding, hbinding, hbinds.fits.1 hd⟩

end Variables

/-! ## Failures for want of a kind -/

/-- A failure for want of a kind is met by nil. -/
def RuntimeError.MeetsNil : RuntimeError → Prop
  | notBoolean kind | indexNotInteger kind | mainNotInteger kind => kind = .nil
  | noResult _ left right => left = .nil ∨ right = .nil
  | _ => True

theorem Value.Conforms.meetsNil_of_truth {v : Value} (h : v.Conforms .boolean)
    {error : RuntimeError} (hfails : v.truth = .error error) : error.MeetsNil := by
  rw [Value.truth_eq_error hfails]
  rcases h.boolean with rfl | ⟨truth, rfl⟩
  · rfl
  · cases hfails

theorem Value.Conforms.meetsNil_of_slot {v : Value} (h : v.Conforms .integer) {name : String}
    {length : Nat} {error : RuntimeError} (hfails : v.slot name length = .error error) :
    error.MeetsNil := by
  rcases Value.slot_eq_error hfails with ⟨index, rfl⟩ | ⟨hkind, rfl⟩
  · trivial
  rcases h.integer with rfl | ⟨n, rfl⟩
  · rfl
  · exact absurd rfl (hkind n)

theorem Operator.Computes.meetsNil {ty : Ty} {error : RuntimeError}
    (h : Operator.Computes ty (.error error)) : error.MeetsNil := by
  cases h with
  | arithmetic => trivial
  | nil hnil => exact hnil

theorem Run.CallRaises.meetsNil {settings : RunSettings} {name : String} {values : List Value}
    {m : Machine} {error : RuntimeError} (h : CallRaises settings name values m (.failed error)) :
    error.MeetsNil := by
  cases h with
  | parameters _ hbound =>
      obtain ⟨_, herror⟩ := bindParameters_eq_error hbound
      cases herror
      trivial
  | _ => trivial

section Raises

variable {stage : Stage} {settings : RunSettings} {fuel : Nat} {finish : Finish} {w : Elements}
  {R : Ty} {item : Item} {c after : Context} {m m' : Machine} {task : Task}

/-- What an accepted expression comes to. -/
theorem Stands.conforms {input output : Expression} {ty : Ty} {v : Value}
    (hstands : Stands stage w c.scope m) (hd : stage.discipline ≠ .names)
    (hann : annotateExpression stage.settings c.scope input = .ok (output, ty))
    (hkeeps : stage.Keeps output.transfers)
    (hsound : Sound stage (.expression output) m (.value v) m') :
    v.Conforms ty ∧ ∃ later, Stands stage later c.scope m' := by
  obtain ⟨later, _, hstands', _, htyped⟩ := hsound.value hann hstands hkeeps
  exact ⟨(htyped.fits hann).1 hd, later, hstands'⟩

/-- A task that fits raises failures for want of a kind for nil only. -/
theorem Fitting.meetsNil (hsound : FinishSound stage finish)
    (hd : stage.discipline ≠ .names) (h : Fitting stage w R item c task after m)
    {error : RuntimeError} (hraises : Raises settings fuel finish task m (.failed error)) :
    error.MeetsNil := by
  cases hraises with
  | leftTruth hlogical hleft htruth =>
      cases h.checks with
      | expression hann =>
          cases rule_of_annotateExpression hann with
          | binary hl _ hty =>
              obtain ⟨rfl, -, -⟩ := Operator.operatorType_of_isLogical hlogical hty
              obtain ⟨ha, -⟩ := h.stands.conforms hd hl h.keeps.left (hsound hleft)
              exact ha.meetsNil_of_truth htruth
  | rightTruth hlogical hleft _ _ hright htruth =>
      cases h.checks with
      | expression hann =>
          cases rule_of_annotateExpression hann with
          | binary hl hr hty =>
              obtain ⟨-, rfl, -⟩ := Operator.operatorType_of_isLogical hlogical hty
              obtain ⟨_, -, -, hoperands⟩ :=
                (hsound hleft).operands (hsound hright) hl hr h.stands h.keeps
              exact (hoperands hd).2.meetsNil_of_truth htruth
  | operation hlogical hleft hright _ hresult =>
      cases h.checks with
      | expression hann =>
          cases rule_of_annotateExpression hann with
          | binary hl hr hty =>
              obtain ⟨_, -, -, hoperands⟩ :=
                (hsound hleft).operands (hsound hright) hl hr h.stands h.keeps
              obtain ⟨ha, hb⟩ := hoperands hd
              rcases Operator.computes_of_operatorType _ _ hty hlogical ha hb with
                hcomputes | hincomparable
              · rw [hresult] at hcomputes
                exact hcomputes.meetsNil
              · rw [hresult] at hincomparable
                cases hincomparable
                trivial
  | notList _ hlist | receiverNotList _ hlist =>
      rw [Value.listOf_eq_error hlist]
      trivial
  | slot _ _ hindex hslot =>
      cases h.checks with
      | expression hann =>
          cases rule_of_annotateExpression hann with
          | element _ hpart hty =>
              obtain ⟨rfl, -⟩ := elementType_eq_ok hty
              obtain ⟨hposition, -⟩ := h.stands.conforms hd hpart h.keeps (hsound hindex)
              exact hposition.meetsNil_of_slot hslot
  | call _ hcall => exact hcall.meetsNil
  | store hreceiver hvalue hslot =>
      cases h.checks with
      | statement _ hann _ =>
          cases rule_of_annotateStatement hann with
          | assignment hname hr _ _ =>
              obtain ⟨_, -, -, _, -, -, -, hposition⟩ :=
                hsound hreceiver (R := R) ⟨.receiver hname hr, h.stands, h.keeps.tail.left⟩
              exact (hposition hd).meetsNil_of_slot hslot
  | branchTruth htest htruth =>
      obtain ⟨_, _, _, _, _, -, ht, -, -, -, -, -, -, -, hkeeps⟩ := h.branch
      exact (h.stands.conforms hd ht hkeeps.left (hsound htest)).1.meetsNil_of_truth htruth
  | loopTruth hrounds _ htest htruth =>
      obtain ⟨later, -, h'⟩ := h.rounds hsound hrounds
      obtain ⟨_, _, _, -, ht, -, -, -, hkeeps⟩ := h'.loop
      exact (h'.stands.conforms hd ht hkeeps.left (hsound htest)).1.meetsNil_of_truth htruth
  | order _ horder =>
      rw [Value.order_eq_error horder]
      trivial
  | _ => trivial

end Raises

/-! ## Runs of accepted programs -/

/-- What `main` returns is an integer or nil. -/
theorem Accepts.main_conforms {settings : Settings} {source annotated : Program}
    {functions : List Function} {c₀ c₁ c₂ : Context} {rules : RunSettings} {fuel : Nat}
    {machine m m' : Machine} {v : Value}
    (h : Accepts settings source annotated functions c₀ c₁ c₂)
    (hadmits : annotated.Admits .types)
    (hinitialises : annotated.Initialises rules fuel machine annotated.globals m)
    (hmain : call rules fuel "main" [] (annotated.ready m) = .ok v m') : v.Conforms .integer := by
  obtain ⟨w, hstands⟩ := h.stands_ready hadmits hinitialises
  obtain ⟨signature, outer, hstatic, hreturns⟩ := h.main_signature
  -- The call is what the expression that calls `main` comes to behind all globals.
  have hann : annotateExpression settings c₂.scope (.call "main" [] none none) =
      .ok (.call "main" [] (some signature) (some .integer), .integer) := by
    simp only [annotateExpression, List.length_nil, hstatic, hreturns]
    rfl
  have hvalue : evaluate rules (call rules fuel)
      (.call "main" [] (some signature) (some .integer)) (annotated.ready m) = .ok v m' :=
    bind_eq_ok.mpr ⟨[], annotated.ready m, rfl, hmain⟩
  have hd : Discipline.types ≠ .names := by decide
  have hkeeps : (h.last hadmits).Keeps (Expression.transfers
      (.call "main" [] (some signature) (some .integer))) :=
    fun (hd : Discipline.types = .elements) => absurd hd (by decide)
  exact (hstands.conforms hd hann hkeeps
    (sound_of_evaluate (.outermost : Ordinary rules fuel _) hvalue)).1

/-- In a visit of a run, in a context of the checker, variables conform to their bindings before
the task and behind it, and what an expression comes to conforms to its type. -/
structure VisitConforms (settings : Settings) (rules : RunSettings) (fuel : Nat) (visit : Visit)
    (item : Item) (c : Context) : Prop where
  before : VariablesConform c.scope visit.machine.scope
  value : ∀ expression v m', visit.task = .expression expression →
    evaluate rules visit.calls expression visit.machine = .ok v m' →
      (∃ ty, expression.ty = some ty ∧ v.Conforms ty) ∧ VariablesConform c.scope m'.scope
  behind : ∀ input statement output c' m', item = .statement input →
    visit.task = .statement statement → annotateStatement settings input c = .ok output c' →
      execute rules fuel visit.calls statement visit.machine = .ok .completed m' →
        VariablesConform c'.scope m'.scope

theorem Reached.visitConforms {stage : Stage} {rules : RunSettings} {fuel : Nat} {visit : Visit}
    (h : Reached stage rules fuel visit) (hd : stage.discipline ≠ .names) :
    ∃ item c, Checked stage.settings stage.source visit.site.owner visit.site.place item c ∧
      VisitConforms stage.settings rules fuel visit item c := by
  obtain ⟨calls, site, task, m⟩ := visit
  obtain ⟨ordinary, hchecked, hfitting⟩ := h
  refine ⟨_, _, hchecked, hfitting.stands.agrees.variablesConform hd, ?_, ?_⟩
  · rintro expression v m' rfl hvalue
    obtain ⟨later, -, hstands, element, ty, hty, hfits⟩ :=
      (sound_of_evaluate ordinary hvalue hfitting).value
    exact ⟨⟨ty, hty, hfits.1 hd⟩, hstands.agrees.variablesConform hd⟩
  · rintro input statement output c' m' rfl rfl hann hcompleted
    obtain ⟨later, -, hends⟩ :=
      sound_of_performs ordinary (performs_statement.mpr hcompleted) hfitting
    cases hfitting.checks with
    | statement _ hann' _ =>
        rw [hann] at hann'
        cases hann'
        exact hends.agrees.variablesConform hd

/-- In every run of an accepted program whose list literals declare no element types, values conform
to static types and variables to their bindings, and failures for want of a kind are for nil. -/
theorem conforms_of_check {settings : Settings} {rules : RunSettings} {fuel : Nat}
    {machine : Machine} {source annotated : Program}
    (hcheck : source.check settings = .ok annotated) (hlists : source.HasPlainLists settings) :
    (∀ visit, annotated.Visits rules fuel machine visit →
      (∃ item c, Checked settings source visit.site.owner visit.site.place item c) ∧
        ∀ item c, Checked settings source visit.site.owner visit.site.place item c →
          VisitConforms settings rules fuel visit item c) ∧
      ∀ error m', annotated.run rules fuel machine = .error (.failed error) m' →
        error.MeetsNil := by
  obtain ⟨functions, c₀, c₁, c₂, h⟩ := accepts_of_check hcheck
  have hadmits := h.admits_types hlists
  have hd : Discipline.types ≠ .names := by decide
  constructor
  · intro visit hvisits
    obtain ⟨_, _, _, hreached⟩ := h.reached hadmits hvisits
    obtain ⟨item, c, hchecked, hconforms⟩ := hreached.visitConforms hd
    refine ⟨⟨item, c, hchecked⟩, fun item' c' hchecked' => ?_⟩
    obtain ⟨rfl, rfl⟩ := h.unique hchecked hchecked'
    exact hconforms
  · intro error m' hrun
    cases Program.breaks_of_run hrun with
    | visit hvisits hraises =>
        obtain ⟨_, _, _, ordinary, -, hfitting⟩ :=
          h.reached hadmits hvisits
        exact hfitting.meetsNil (sound_of_performs ordinary) hd hraises
    | main _ hraises => exact hraises.meetsNil
    | result hinitialises hmain hresult =>
        have hconforms := h.main_conforms hadmits hinitialises hmain
        rcases hconforms.integer with rfl | ⟨n, rfl⟩
        · cases hresult
          rfl
        · cases hresult
    | _ => trivial

/-- A program that adds a number to a variable that has never got one. -/
def unsetSum : Program where
  globals :=
    [⟨"xs", some "Any", true, some (.list [.literal (.integer 1) none] none), none⟩,
      ⟨"n", some "Integer", true, none, none⟩]
  functions :=
    [⟨"main", [], some "Integer",
      [.result (.binary .add (.access "n" none none) (.literal (.integer 1) none) none)], none⟩]

/-- The same program with its annotations. -/
def unsetSumChecked : Program where
  globals :=
    [⟨"xs", some "Any", true, some (.list [.literal (.integer 1) (some .integer)] (some .list)),
        some ⟨"xs", .list, some .any, true⟩⟩,
      ⟨"n", some "Integer", true, none, some ⟨"n", .integer, none, true⟩⟩]
  functions :=
    [⟨"main", [], some "Integer",
      [.result (.binary .add (.access "n" (some ⟨"n", .integer, none, true⟩) (some .integer))
        (.literal (.integer 1) (some .integer)) (some .integer))],
      some ⟨"main", [], .integer⟩⟩]

theorem hasPlainLists_unsetSum : unsetSum.HasPlainLists default := by
  intro global hmem elements ty typeName hvalue hname
  rcases List.mem_cons.mp hmem with rfl | hmem
  · cases hname
    rfl
  · rw [List.mem_singleton.mp hmem] at hvalue
    cases hvalue

/-- The program fails for want of a number, and what it meets is nil. -/
theorem conforms_of_check_unsetSum :
    unsetSum.check default = .ok unsetSumChecked ∧ unsetSum.HasPlainLists default ∧
      (∀ visit, unsetSumChecked.Visits default 1 (.initial .unlimited) visit → ∀ item c,
        Checked default unsetSum visit.site.owner visit.site.place item c →
          VisitConforms default default 1 visit item c) ∧
      ∃ m', unsetSumChecked.run default 1 (.initial .unlimited) =
          .error (.failed (.noResult "add" .nil .integer)) m' ∧
        RuntimeError.MeetsNil (.noResult "add" .nil .integer) := by
  have hcheck : unsetSum.check default = .ok unsetSumChecked := rfl
  have hexecute : (unsetSumChecked.execute default 1 (.initial .unlimited)).1 =
      .failed (.runtimeError (.noResult "add" .nil .integer)) := by decide +kernel
  obtain ⟨m', hrun⟩ := Program.run_of_execute hexecute
  obtain ⟨hvisits, hfails⟩ := conforms_of_check hcheck hasPlainLists_unsetSum
  exact ⟨hcheck, hasPlainLists_unsetSum, fun visit hvisit => (hvisits visit hvisit).2, m', hrun,
    hfails _ _ hrun⟩

end TinyScript
