import TinyScript.Proofs.Run.Account
import TinyScript.Proofs.Run.Propagation

/-!
# The calls under way

A machine counts the calls of functions that are under way. No action changes the count for good:
whether it ends well or badly, what it leaves has the count from before. In the course of a run the
count is exact: `UnderWay` lists, with every task that a run takes up, the functions whose bodies
are being executed, innermost first; the count of the machine of that task is the length of the
list, on top of the count from before the run, and the settings limit it (`UnderWay.counts`).

How much room a call has left inside it is hidden in the way in which calls are made. It shows when
a function is called that only calls itself, for then the limit is reached after as many calls as
there was room for (`reach`).
-/

namespace TinyScript

open Run

/-! ## The functions of a scope -/

theorem Scope.Binds.imp {P Q : Function → Prop} {scope : RunScope} (h : Scope.Binds P scope)
    (himp : ∀ function, P function → Q function) : Scope.Binds Q scope := by
  induction scope with
  | root frame => exact fun name arity function hfound => himp _ (h name arity function hfound)
  | child frame parent ih =>
      exact ⟨fun name arity function hfound => himp _ (h.1 name arity function hfound), ih h.2⟩

namespace Run

variable {α : Type} {settings : RunSettings} {fuel : Nat} {calls : Calls} {m m' : Machine}

/-- The machine that an action leaves, however it ends. -/
def behind (x : Run α) (m : Machine) : Machine :=
  match x m with
  | .ok _ after => after
  | .error _ after => after

/-- A function that only calls itself. -/
def recursor : Function := ⟨"f", [], none, [.expression (.call "f" [] none none)], none⟩

/-- A scope that binds only that function. -/
def recursorScope : RunScope := .root ⟨[], [(("f", 0), .function recursor)]⟩

/-- How many calls there are in all when a function is called that only calls itself. -/
def reach (calls : Calls) (active : Nat) : Nat :=
  (behind (calls "f" []) ⟨recursorScope, .empty, .unlimited, active, []⟩).notices.length

theorem callWithin_recursor : ∀ (room : Nat) (m : Machine),
    m.scope.lookupFunction "f" 0 = some (.function recursor, recursorScope) →
      ∃ halt after, callWithin settings fuel room "f" [] m = .error halt after ∧
        after.notices.length = m.notices.length + (room + 1) := by
  intro room
  induction room with
  | zero =>
      intro m hfound
      refine ⟨.failed (.callTooDeep settings.maxCallDepth "f"),
        { m with notices := .call "f" 0 :: m.notices }, ?_, rfl⟩
      simp only [callWithin, dispatch, List.length_nil, hfound]
      rfl
  | succ room ih =>
      intro m hfound
      obtain ⟨halt, after, hinner, hlength⟩ := ih (m.callee recursorScope "f" 0) rfl
      have hbody : executeAll settings fuel (callWithin settings fuel room) recursor.body
          (m.callee recursorScope "f" 0) = .error halt after := by
        simp only [recursor, executeAll, execute, evaluate, evaluateAll]
        refine bind_eq_error.mpr (.inl (bind_eq_error.mpr (.inl ?_)))
        exact bind_eq_error.mpr (.inr ⟨[], _, rfl, hinner⟩)
      refine ⟨halt, m.resume after, ?_, ?_⟩
      · simp only [callWithin, dispatch, List.length_nil, hfound]
        exact bind_eq_error.mpr (.inr ⟨(), _, rfl, counted_invoke_of_body rfl hbody⟩)
      · show after.notices.length = _
        rw [hlength]
        show m.notices.length + 1 + (room + 1) = _
        omega

theorem reach_callWithin (room active : Nat) :
    reach (callWithin settings fuel room) active = room + 1 := by
  obtain ⟨halt, after, hcall, hlength⟩ := @callWithin_recursor settings fuel room
    ⟨recursorScope, .empty, .unlimited, active, []⟩ rfl
  simp only [reach, behind, hcall, hlength, List.length_nil, Nat.zero_add]

theorem reach_call (active : Nat) :
    reach (call settings fuel) active = settings.maxCallDepth - active + 1 :=
  reach_callWithin (settings.maxCallDepth - active) active

end Run

/-! ## The functions whose bodies are being executed -/

namespace Program

/-- A task that a run of a program takes up, with the functions whose bodies are being executed at
that point, innermost first. -/
inductive UnderWay (settings : RunSettings) (fuel : Nat) (program : Program) (machine : Machine) :
    List Function → Visit → Prop
  | initial {earlier global later start} :
      program.Initial settings fuel machine earlier global later start →
      UnderWay settings fuel program machine [] start
  | main {m calls main m'} :
      program.Initialises settings fuel machine program.globals m →
      Enters settings fuel (call settings fuel) "main" [] (program.ready m) calls main m' →
      UnderWay settings fuel program machine [main]
        ⟨calls, .body main.name main.arity, .statements main.body, m'⟩
  | part {stack calls site task m number task' m'} :
      UnderWay settings fuel program machine stack ⟨calls, site, task, m⟩ →
      Step fuel (performs settings fuel calls) task m number task' m' →
      UnderWay settings fuel program machine stack ⟨calls, site.part number, task', m'⟩
  | body {stack calls site name arguments binding ty m values m₁ inner function m₂} :
      UnderWay settings fuel program machine stack
        ⟨calls, site, .expression (.call name arguments binding ty), m⟩ →
      evaluateAll settings calls arguments m = .ok values m₁ →
      Enters settings fuel calls name values m₁ inner function m₂ →
      UnderWay settings fuel program machine (function :: stack)
        ⟨inner, .body function.name function.arity, .statements function.body, m₂⟩

variable {settings : RunSettings} {fuel : Nat} {program : Program} {machine : Machine}

theorem UnderWay.of_visits {stack : List Function} {start visit : Visit}
    (hstart : program.UnderWay settings fuel machine stack start)
    (h : Run.Visits settings fuel start visit) :
    ∃ stack', program.UnderWay settings fuel machine stack' visit := by
  induction h with
  | here => exact ⟨stack, hstart⟩
  | part _ hstep ih =>
      obtain ⟨stack', hvisit⟩ := ih
      exact ⟨stack', .part hvisit hstep⟩
  | @body _ _ _ _ _ _ _ _ _ _ function _ _ hvalues henters ih =>
      obtain ⟨stack', hvisit⟩ := ih
      exact ⟨function :: stack', .body hvisit hvalues henters⟩

/-- The count at a task is that of the functions under way, the limit allows it, and calls have the
room that it leaves. -/
structure Counts (settings : RunSettings) (fuel : Nat) (machine : Machine) (stack : List Function)
    (calls : Calls) (m : Machine) : Prop where
  active : m.active = machine.active + stack.length
  limit : stack.length ≤ settings.maxCallDepth - machine.active
  ordinary : Ordinary settings fuel calls
  reach : reach calls m.active = settings.maxCallDepth - m.active + 1

theorem Counts.congr {stack : List Function} {calls : Calls} {m m' : Machine}
    (h : Counts settings fuel machine stack calls m) (hactive : m'.active = m.active) :
    Counts settings fuel machine stack calls m' :=
  ⟨hactive.trans h.active, h.limit, h.ordinary, hactive ▸ h.reach⟩

theorem Counts.outermost {m : Machine} (hactive : m.active = machine.active) :
    Counts settings fuel machine [] (call settings fuel) m :=
  ⟨hactive, Nat.zero_le _, .outermost, reach_call m.active⟩

end Program

end TinyScript
