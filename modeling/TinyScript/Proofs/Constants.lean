import TinyScript.Proofs.Run.Timeline

/-!
# Immutable globals are constants

Neither the checker nor the assignment itself looks at whether a variable is mutable: the evaluator
does, at the variable that the name of a receiver stands for, before it evaluates anything else. So
an immutable global has the value with which it is bound at every later moment of the run, at its
end too, however it ends, and an assignment to it fails on the spot.
-/

namespace TinyScript

open Run

/-- The variable of a name in the outermost frame is immutable and has a value. -/
def Machine.HoldsConstant (m : Machine) (name : String) (value : Value) : Prop :=
  m.scope.outermost.lookupVariable name = some ⟨false, value⟩

theorem Machine.Precedes.holdsConstant {m m' : Machine} (h : m.Precedes m') {name : String}
    {value : Value} (hconstant : m.HoldsConstant name value) : m'.HoldsConstant name value :=
  h.outermost.constant hconstant

namespace Run

variable {settings : RunSettings} {fuel : Nat} {calls : Calls} {m : Machine}

theorem locate_of_immutable {receiver : Expression} {name : String} {found : Variable}
    (hname : receiver.variable? = some name) (hfound : m.scope.lookupVariable name = some found)
    (himmutable : found.isMutable = false) :
    locate settings calls receiver m = .error (.failed (.immutableReceiver name)) m := by
  have hreceiver : Run.receiver name m = .error (.failed (.immutableReceiver name)) m :=
    receiver_eq_error.mpr (.inr ⟨found, hfound, himmutable, rfl, rfl⟩)
  cases receiver with
  | access | element =>
      cases hname
      exact bind_eq_error.mpr (.inl hreceiver)
  | _ => cases hname

/-- An assignment to an immutable variable fails and leaves everything as it was. -/
theorem execute_assignment_of_immutable {receiver value : Expression} {name : String}
    {found : Variable} (hname : receiver.variable? = some name)
    (hfound : m.scope.lookupVariable name = some found) (himmutable : found.isMutable = false) :
    execute settings fuel calls (.assignment receiver value) m =
      .error (.failed (.immutableReceiver name)) m := by
  rw [execute, assignTo]
  exact bind_eq_error.mpr (.inl (bind_eq_error.mpr
    (.inl (locate_of_immutable hname hfound himmutable))))

/-- Such an assignment goes on to its receiver, and nowhere from there: neither its index nor its
value is evaluated. -/
theorem visits_assignment_of_immutable {site : Site} {receiver value : Expression} {name : String}
    {found : Variable} (hname : receiver.variable? = some name)
    (hfound : m.scope.lookupVariable name = some found) (himmutable : found.isMutable = false)
    {visit : Visit}
    (hvisits : Visits settings fuel ⟨calls, site, .statement (.assignment receiver value), m⟩
      visit) :
    visit = ⟨calls, site, .statement (.assignment receiver value), m⟩ ∨
      visit = ⟨calls, site.part 0, .receiver receiver, m⟩ := by
  refine visits_assignment_of_stuck (fun target m' => ?_) (fun number task m' hstep => ?_) hvisits
  · rw [locate_of_immutable hname hfound himmutable]
    exact nofun
  · cases hstep with
    | receiverIndex hlookup hmutable _ =>
        cases hname
        rw [hfound] at hlookup
        cases hlookup
        rw [himmutable] at hmutable
        cases hmutable

end Run

namespace Program

variable {settings : RunSettings} {fuel : Nat} {program : Program} {machine m : Machine}
  {earlier later : List Global} {global : Global} {value : Value}

/-- A run that has bound some globals evaluates one more of them to a value and binds it. -/
inductive Binds (settings : RunSettings) (fuel : Nat) (program : Program) (machine : Machine)
    (earlier : List Global) (global : Global) (value : Value) : Machine → Prop
  | mk {m m₁ m₂} :
      program.Initialises settings fuel machine earlier m →
      initialValue settings fuel global m = .ok value m₁ →
      define global.name global.isMutable value m₁ = .ok () m₂ →
      Binds settings fuel program machine earlier global value m₂

theorem Binds.initialises (h : program.Binds settings fuel machine earlier global value m) :
    program.Initialises settings fuel machine (earlier ++ [global]) m := by
  obtain @⟨m₀, m₁, _, ⟨linked, hlinked, hearlier⟩, hvalue, hdefine⟩ := h
  refine ⟨linked, hlinked, ?_⟩
  rw [bindGlobals_of_front hearlier, bindGlobals_cons, bind_of_ok hvalue, bind_of_ok hdefine]
  rfl

theorem Binds.holdsConstant (h : program.Binds settings fuel machine earlier global value m)
    (himmutable : global.isMutable = false) : m.HoldsConstant global.name value := by
  have hdepth := depth_of_initialises h.initialises
  obtain @⟨m₀, m₁, _, -, -, hdefine⟩ := h
  obtain ⟨scope, hscope, rfl⟩ := define_eq_ok.mp hdefine
  obtain ⟨-, rfl⟩ := Scope.defineVariable?_eq_some.mp hscope
  unfold Machine.HoldsConstant
  cases hm : m₁.scope with
  | root frame => simp [Scope.modifyCurrent, Scope.outermost, himmutable]
  | child frame parent =>
      simp only [hm] at hdepth
      cases hdepth

/-- From some moment of a run on, the one behind the given globals, a name stands for a constant in
the outermost frame. -/
structure KeepsConstant (settings : RunSettings) (fuel : Nat) (program : Program)
    (machine : Machine) (globals : List Global) (name : String) (value : Value) : Prop where
  /-- It does so when more globals are bound. -/
  bound : ∀ more m, program.Initialises settings fuel machine (globals ++ more) m →
    m.HoldsConstant name value
  /-- It does so when a task is taken up, and when the task has ended, well or badly. -/
  visited : ∀ visit, program.BoundBefore settings fuel machine globals visit →
    visit.machine.HoldsConstant name value ∧
      ((perform settings fuel visit.calls visit.task).behind visit.machine).HoldsConstant name value
  /-- It does so when the run has ended, well or badly. -/
  ended : ((program.inside settings fuel).behind { machine with scope := .initial }).HoldsConstant
    name value
  /-- An assignment whose receiver is the constant fails, changes nothing, and takes up nothing but
  its receiver. -/
  refused : ∀ calls site receiver new m,
    program.BoundBefore settings fuel machine globals
      ⟨calls, site, .statement (.assignment receiver new), m⟩ →
    receiver.variable? = some name → (∀ frame ∈ m.scope.locals, frame.lookupVariable name = none) →
      Run.execute settings fuel calls (.assignment receiver new) m =
        .error (.failed (.immutableReceiver name)) m ∧
      ∀ visit, Run.Visits settings fuel
          ⟨calls, site, .statement (.assignment receiver new), m⟩ visit →
        visit = ⟨calls, site, .statement (.assignment receiver new), m⟩ ∨
          visit = ⟨calls, site.part 0, .receiver receiver, m⟩

/-- Once an immutable global is bound, it is a constant to the end of the run. -/
theorem keepsConstant_of_binds (hglobals : program.globals = earlier ++ global :: later)
    (himmutable : global.isMutable = false)
    (hbinds : program.Binds settings fuel machine earlier global value m) :
    program.KeepsConstant settings fuel machine (earlier ++ [global]) global.name value := by
  have hinitialises := hbinds.initialises
  have hconstant := hbinds.holdsConstant himmutable
  have hvisited : ∀ visit, program.BoundBefore settings fuel machine (earlier ++ [global]) visit →
      visit.machine.HoldsConstant global.name value :=
    fun visit hbefore => (hbefore.reaches.2.2 m hinitialises).holdsConstant hconstant
  constructor
  · intro more m' hmore
    exact (precedes_of_initialises (List.prefix_append _ more) hinitialises hmore).holdsConstant
      hconstant
  · intro visit hbefore
    obtain ⟨hordinary, hplain, -⟩ := hbefore.reaches
    have hstart := hvisited visit hbefore
    exact ⟨hstart, (works_perform hordinary visit.task _ hplain).precedes.holdsConstant hstart⟩
  · have hprefix : earlier ++ [global] <+: program.globals := ⟨later, by simp [hglobals]⟩
    exact Machine.Precedes.holdsConstant (ahead_inside_of_initialises hprefix hinitialises)
      hconstant
  · intro calls site receiver new m' hbefore hname hfree
    have hfound : m'.scope.lookupVariable global.name = some ⟨false, value⟩ :=
      (Scope.lookupVariable_of_locals hfree).trans (hvisited _ hbefore)
    exact ⟨execute_assignment_of_immutable hname hfound rfl,
      fun visit hvisits => visits_assignment_of_immutable hname hfound rfl hvisits⟩

/-- A constant list of one item. -/
def sealedGlobal : Global :=
  ⟨"xs", none, false, some (.list [.literal (.integer 1) none] none), none⟩

/-- The item of the list that is to be changed: working out which one would print a line. -/
def sealedReceiver : Expression := .element "xs" (.call "loud" [] none none) none none

/-- A program that changes the item of its constant list under another name, and then assigns to
the list under its own. -/
def sealedList : Program where
  globals := [sealedGlobal]
  functions :=
    [⟨"loud", [], some "Integer",
        [.expression (.call "print" [.literal (.string "loud") none] none none),
          .result (.literal (.integer 0) none)], none⟩,
      ⟨"main", [], some "Integer",
        [.declaration "ys" none (some (.access "xs" none none)) none,
          .assignment (.element "ys" (.literal (.integer 0) none) none none)
            (.literal (.integer 2) none),
          .assignment sealedReceiver (.literal (.integer 3) none)], none⟩]

/-- The machine in which the program is when its constant is bound, the list holding an item. -/
def sealedMachine (item : Int) : Machine :=
  { Machine.initial .unlimited with
    scope := .root ⟨[("xs", ⟨false, .list 0⟩)], sealedList.linked⟩
    lists := ⟨#[#[.integer item]]⟩ }

/-- The machine in which `main` is, with some variables of its own. -/
def sealedInside (item : Int) (vars : List (String × Variable)) : Machine :=
  { (sealedList.ready (sealedMachine item)).callee (sealedMachine item).scope "main" 0 with
    scope := .child ⟨vars, []⟩ (sealedMachine item).scope }

/-- The machine in which the program comes to the assignment to its constant. -/
def sealedRefused : Machine := sealedInside 2 [("ys", ⟨true, .list 0⟩)]

/-- The assignment fails without a line printed, and the constant holds the same list, whose item
has changed. -/
theorem keepsConstant_of_binds_sealedList :
    sealedList.globals = [] ++ sealedGlobal :: [] ∧ sealedGlobal.isMutable = false ∧
      sealedList.Binds default 1 (.initial .unlimited) [] sealedGlobal (.list 0)
        (sealedMachine 1) ∧
      sealedList.KeepsConstant default 1 (.initial .unlimited) [sealedGlobal] "xs" (.list 0) ∧
      Run.execute default 1 (callWithin default 1 9999)
          (.assignment sealedReceiver (.literal (.integer 3) none)) sealedRefused =
        .error (.failed (.immutableReceiver "xs")) sealedRefused ∧
      sealedRefused.sink.text = "" := by
  have hbinds : sealedList.Binds default 1 (.initial .unlimited) [] sealedGlobal (.list 0)
      (sealedMachine 1) := .mk ⟨_, rfl, rfl⟩ rfl rfl
  have hglobals : sealedList.globals = [] ++ sealedGlobal :: [] := rfl
  have hkeeps := keepsConstant_of_binds hglobals rfl hbinds
  have hmain : sealedList.Main default 1 (.initial .unlimited)
      ⟨callWithin default 1 9999, .body "main" 0, .statements _, sealedInside 1 []⟩ :=
    .mk hbinds.initialises (.mk rfl (.outermost rfl) rfl)
  have hdeclared : performs default 1 (callWithin default 1 9999)
      (.statement (.declaration "ys" none (some (.access "xs" none none)) none))
      (sealedInside 1 []) (.flow .completed) (sealedInside 1 [("ys", ⟨true, .list 0⟩)]) :=
    performs_statement.mpr rfl
  have hassigned : performs default 1 (callWithin default 1 9999)
      (.statement (.assignment (.element "ys" (.literal (.integer 0) none) none none)
        (.literal (.integer 2) none)))
      (sealedInside 1 [("ys", ⟨true, .list 0⟩)]) (.flow .completed) sealedRefused :=
    performs_statement.mpr rfl
  have hbefore : sealedList.BoundBefore default 1 (.initial .unlimited) [sealedGlobal]
      ⟨callWithin default 1 9999, ((((Site.body "main" 0).part 1).part 1).part 0),
        .statement (.assignment sealedReceiver (.literal (.integer 3) none)), sealedRefused⟩ :=
    .main hmain List.prefix_rfl
      (.part (.part (.part .here (.rest hdeclared)) (.rest hassigned)) .first)
  obtain ⟨hrefused, -⟩ := hkeeps.refused _ _ _ _ _ hbefore rfl (by decide)
  exact ⟨hglobals, rfl, hbinds, hkeeps, hrefused, rfl⟩

end Program

end TinyScript
