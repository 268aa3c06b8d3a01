import TinyScript.Proofs.Run.Timeline

/-!
# Calls are lexically scoped

A function is found in the outermost frame, and its body is executed in a fresh frame inside that
one. So what a call does can neither touch nor see the frames of its caller: evaluating an
expression leaves the frames inside the outermost one exactly as they are, and a call from other
frames inside the same outermost one comes to the same, in those frames.
-/

namespace TinyScript

open Run

/-- The machine in the scope of some frames, innermost first, inside its outermost one. -/
def Machine.inFrames (locals : List (Frame Variable Callable)) (m : Machine) : Machine :=
  { m with scope := .nested locals m.scope.outermost }

namespace Machine

variable {locals locals' : List (Frame Variable Callable)} {m : Machine}

@[simp] theorem outermost_inFrames : (m.inFrames locals).scope.outermost = m.scope.outermost :=
  Scope.outermost_nested locals m.scope.outermost

@[simp] theorem locals_inFrames : (m.inFrames locals).scope.locals = locals :=
  Scope.locals_nested locals m.scope.outermost

@[simp] theorem inFrames_inFrames : (m.inFrames locals).inFrames locals' = m.inFrames locals' := by
  unfold inFrames
  simp

theorem plainLocals_inFrames (hplain : ∀ frame ∈ locals, frame.funs = []) :
    (m.inFrames locals).scope.PlainLocals := by
  unfold Scope.PlainLocals
  rwa [locals_inFrames]

end Machine

/-- A frame around which nothing is left is put back around the frames that were inside it. -/
theorem Scope.regrow_of_depth {V F : Type} {scope outer : Scope V F} (h : outer.depth = 0) :
    scope.regrow outer = .nested scope.locals outer.outermost := by
  cases outer with
  | root frame => exact regrow_root scope frame
  | child frame parent => cases h

namespace Run

variable {α β : Type} {settings : RunSettings} {fuel : Nat} {calls : Calls} {m : Machine}
  {locals locals' : List (Frame Variable Callable)}

/-- The same end, in the scope of other frames. -/
def inFrames (locals : List (Frame Variable Callable)) :
    EStateM.Result Halt Machine α → EStateM.Result Halt Machine α
  | .ok a after => .ok a (after.inFrames locals)
  | .error halt after => .error halt (after.inFrames locals)

/-! ## Actions that do not look at scopes -/

/-- An action neither sees nor changes the frames inside the outermost one. -/
def Framed (x : Run α) : Prop :=
  ∀ m locals, x (m.inFrames locals) = inFrames locals (x m)

namespace Framed

variable {x : Run α}

theorem pure (a : α) : Framed (Pure.pure a) := fun _ _ => rfl

theorem bind {f : α → Run β} (h : Framed x) (hrest : ∀ a, Framed (f a)) : Framed (x >>= f) := by
  intro m locals
  show EStateM.bind x f (m.inFrames locals) = inFrames locals (EStateM.bind x f m)
  unfold EStateM.bind
  rw [h m locals]
  cases x m with
  | ok a after => exact hrest a after locals
  | error halt after => rfl

theorem notify (notice : RunNotice) : Framed (Run.notify notice) := fun _ _ => rfl

theorem piecesOf (value : Value) : Framed (Run.piecesOf value) := fun _ _ => rfl

theorem print (text : String) : Framed (Run.print text) := by
  intro m locals
  have hsink : (m.inFrames locals).sink = m.sink := rfl
  simp only [Run.print, hsink]
  split <;> rfl

end Framed

theorem framed_printEach : ∀ texts : List String, Framed (printEach texts)
  | [] => .pure _
  | text :: texts => .bind (.print text) fun _ => framed_printEach texts

theorem framed_printAll : ∀ values : List Value, Framed (printAll values)
  | [] => .pure _
  | value :: values =>
      .bind (.piecesOf value) fun pieces =>
        .bind (.bind (framed_printEach pieces) fun _ => .print "\n") fun _ =>
          framed_printAll values

/-! ## Calls from other frames -/

theorem counted_inFrames {x : Run α}
    (h : x ({ m with active := m.active + 1 }.inFrames locals) =
      inFrames locals (x { m with active := m.active + 1 })) :
    counted x (m.inFrames locals) = inFrames locals (counted x m) := by
  have hactive : { m.inFrames locals with active := (m.inFrames locals).active + 1 } =
      { m with active := m.active + 1 }.inFrames locals := rfl
  unfold counted
  rw [hactive, h]
  cases x { m with active := m.active + 1 } <;> rfl

/-- What is done inside a call is done from the outermost frame, whatever frames the caller has. -/
theorem inCallee_inFrames {x : Run α} (h : Works x) :
    inCallee (.root m.scope.outermost) x (m.inFrames locals) =
      inFrames locals (inCallee (.root m.scope.outermost) x m) := by
  have hworks := h { m with scope := (Scope.root m.scope.outermost).enter }
    (Scope.PlainLocals.enter nofun)
  have hdepth : ∀ after, x.behind { m with scope := (Scope.root m.scope.outermost).enter } = after →
      after.scope.leave.depth = 0 := by
    rintro after rfl
    exact hworks.scope.block.depth
  have hcallee : { m.inFrames locals with scope := (Scope.root m.scope.outermost).enter } =
      { m with scope := (Scope.root m.scope.outermost).enter } := rfl
  have hresume : ∀ after : Machine, after.scope.leave.depth = 0 →
      { after with scope := (m.inFrames locals).scope.regrow after.scope.leave } =
        { after with scope := m.scope.regrow after.scope.leave }.inFrames locals := by
    intro after hdepth
    unfold Machine.inFrames
    simp only [Scope.regrow_of_depth hdepth, Scope.locals_nested, Scope.outermost_nested]
  unfold inCallee
  rw [hcallee]
  unfold behind at hdepth
  cases hx : x { m with scope := (Scope.root m.scope.outermost).enter } with
  | ok a after =>
      rw [hx] at hdepth
      exact congrArg _ (hresume after (hdepth after rfl))
  | error halt after =>
      rw [hx] at hdepth
      exact congrArg _ (hresume after (hdepth after rfl))

theorem dispatch_inFrames {invokes : RunScope → Function → List Value → Run Value}
    (hinvokes : ∀ function values, ∀ m : Machine,
      invokes (.root m.scope.outermost) function values (m.inFrames locals) =
        inFrames locals (invokes (.root m.scope.outermost) function values m))
    (hplain : m.scope.PlainLocals) (hlocals : ∀ frame ∈ locals, frame.funs = [])
    (name : String) (values : List Value) :
    dispatch invokes name values (m.inFrames locals) =
      inFrames locals (dispatch invokes name values m) := by
  unfold dispatch
  rw [(Machine.plainLocals_inFrames hlocals).lookupFunction, hplain.lookupFunction,
    Machine.outermost_inFrames]
  cases m.scope.outermost.lookupFunction name values.length with
  | none => rfl
  | some callable =>
      cases callable with
      | print =>
          have hprint : Framed (do
              notify (.call name values.length)
              printAll values
              return Value.nil) :=
            .bind (.notify _) fun _ => .bind (framed_printAll values) fun _ => .pure _
          exact hprint m locals
      | function function =>
          exact hinvokes function values
            { m with notices := .call name values.length :: m.notices }

theorem callWithin_inFrames (room : Nat) (hplain : m.scope.PlainLocals)
    (hlocals : ∀ frame ∈ locals, frame.funs = []) (name : String) (values : List Value) :
    callWithin settings fuel room name values (m.inFrames locals) =
      inFrames locals (callWithin settings fuel room name values m) := by
  cases room with
  | zero =>
      unfold callWithin
      refine dispatch_inFrames ?_ hplain hlocals name values
      exact fun _ _ _ => rfl
  | succ room =>
      refine dispatch_inFrames (fun function values m => ?_) hplain hlocals name values
      exact counted_inFrames (inCallee_inFrames (m := { m with active := m.active + 1 })
        (works_called (spares_callWithin room) function values))

/-- A call comes to the same from other frames inside the same outermost one. -/
theorem Ordinary.inFrames (h : Ordinary settings fuel calls) (hplain : m.scope.PlainLocals)
    (hlocals : ∀ frame ∈ locals, frame.funs = []) (name : String) (values : List Value) :
    calls name values (m.inFrames locals) = Run.inFrames locals (calls name values m) := by
  cases h with
  | outermost => exact callWithin_inFrames (room settings m) hplain hlocals name values
  | within room => exact callWithin_inFrames room hplain hlocals name values

end Run

namespace Program

variable {settings : RunSettings} {fuel : Nat} {program : Program} {machine : Machine}

/-- In a machine that a run comes to, when it takes a task up or when the task has ended, well or
badly, only the outermost frame binds functions. From there, whatever frames without functions are
inside the outermost one, evaluating an expression leaves these frames as they are, and a call with
given values comes to the same from other frames. -/
theorem calls_lexically_scoped {visit : Visit} {m : Machine}
    (hvisit : program.Visits settings fuel machine visit)
    (hm : m = visit.machine ∨
      m = (perform settings fuel visit.calls visit.task).behind visit.machine) :
    m.scope.PlainLocals ∧
      ∀ locals, (∀ frame ∈ locals, frame.funs = []) →
        (∀ expression, (m.inFrames locals).Spares
          ((evaluate settings visit.calls expression).behind (m.inFrames locals))) ∧
        ∀ locals', (∀ frame ∈ locals', frame.funs = []) → ∀ name values,
          visit.calls name values (m.inFrames locals') =
            Run.inFrames locals' (visit.calls name values (m.inFrames locals)) := by
  obtain ⟨hordinary, hplain, -⟩ := (boundBefore_of_visits hvisit).reaches
  refine ⟨?_, fun locals hlocals => ⟨fun expression => ?_, fun locals' hlocals' name values => ?_⟩⟩
  · rcases hm with rfl | rfl
    · exact hplain
    · exact (works_perform hordinary visit.task _ hplain).scope.plainLocals hplain
  · exact spares_evaluate hordinary.spares expression _ (Machine.plainLocals_inFrames hlocals)
  · have hcall := hordinary.inFrames (Machine.plainLocals_inFrames hlocals) hlocals' name values
      (m := m.inFrames locals)
    rwa [Machine.inFrames_inFrames] at hcall

/-- A call of a function that changes a global. -/
def changingCall : Expression := .call "change" [] none none

/-- A program that calls, where a variable of its own hides a global, a function that changes the
global. -/
def hidingCaller : Program where
  globals := [⟨"n", none, true, some (.literal (.integer 1) none), none⟩]
  functions :=
    [⟨"change", [], some "Integer",
        [.assignment (.access "n" none none) (.literal (.integer 2) none),
          .result (.access "n" none none)], none⟩,
      ⟨"main", [], some "Integer",
        [.declaration "n" none (some (.literal (.integer 10) none)) none, .result changingCall],
        none⟩]

/-- The machine in which the program is when its global is bound and has a value. -/
def hidingMachine (global : Int) : Machine :=
  { Machine.initial .unlimited with
    scope := .root ⟨[("n", ⟨true, .integer global⟩)], hidingCaller.linked⟩ }

/-- The frame of `main` with a variable that hides the global. -/
def hidingFrame : Frame Variable Callable := ⟨[("n", ⟨true, .integer 10⟩)], []⟩

/-- The machine in which `main` is, with some frames of its own. -/
def hidingInside (locals : List (Frame Variable Callable)) : Machine :=
  ((hidingCaller.ready (hidingMachine 1)).callee (hidingMachine 1).scope "main" 0).inFrames locals

/-- The call changes the global and not the variable that hides it, and comes to the same from no
frames at all. -/
theorem calls_lexically_scoped_hidingCaller :
    ∃ visit, hidingCaller.Visits default 1 (.initial .unlimited) visit ∧
      visit.machine = hidingInside [hidingFrame] ∧
      ∃ after, evaluate default visit.calls changingCall (hidingInside [hidingFrame]) =
          .ok (.integer 2) after ∧
        after.scope.locals = [hidingFrame] ∧
        after.scope.outermost.lookupVariable "n" = some ⟨true, .integer 2⟩ ∧
        visit.calls "change" [] (hidingInside []) =
          Run.inFrames [] (visit.calls "change" [] (hidingInside [hidingFrame])) := by
  have hinitialises : hidingCaller.Initialises default 1 (.initial .unlimited)
      hidingCaller.globals (hidingMachine 1) := ⟨_, rfl, rfl⟩
  have hmain : hidingCaller.Main default 1 (.initial .unlimited)
      ⟨callWithin default 1 9999, .body "main" 0, .statements _, hidingInside [.empty]⟩ :=
    .mk hinitialises (.mk rfl (.outermost rfl) rfl)
  have hdeclared : performs default 1 (callWithin default 1 9999)
      (.statement (.declaration "n" none (some (.literal (.integer 10) none)) none))
      (hidingInside [.empty]) (.flow .completed) (hidingInside [hidingFrame]) :=
    performs_statement.mpr rfl
  have hvisit : hidingCaller.Visits default 1 (.initial .unlimited)
      ⟨callWithin default 1 9999, (((Site.body "main" 0).part 1).part 0).part 0,
        .expression changingCall, hidingInside [hidingFrame]⟩ :=
    ⟨_, .inr hmain, .part (.part (.part .here (.rest hdeclared)) .first) .result⟩
  obtain ⟨-, hscoped⟩ := calls_lexically_scoped hvisit (.inl rfl)
  obtain ⟨hspares, hcalls⟩ := hscoped [hidingFrame] (by decide)
  have hevaluate : ∃ after, evaluate default (callWithin default 1 9999) changingCall
      (hidingInside [hidingFrame]) = .ok (.integer 2) after ∧
        after.scope.outermost.lookupVariable "n" = some ⟨true, .integer 2⟩ := ⟨_, rfl, rfl⟩
  obtain ⟨after, hafter, hglobal⟩ := hevaluate
  refine ⟨_, hvisit, rfl, after, hafter, ?_, hglobal, hcalls [] nofun "change" []⟩
  exact behind_of_ok hafter ▸ (hspares changingCall).scope.locals

end Program

end TinyScript
