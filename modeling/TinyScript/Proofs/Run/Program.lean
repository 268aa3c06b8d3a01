import TinyScript.Proofs.Run.Propagation
import TinyScript.Proofs.Scope
import TinyScript.Toolchain

/-!
# Whole runs

A run binds the functions of a program, evaluates its globals in order, and calls `main`. When it
ends badly, a task that it visits has come to that by itself (`Program.breaks_of_run`), but for few
failures that come from binding or from what `main` returns. Conversely, a task that ends badly
makes the run end in the same way (`Program.run_of_visits`).
-/

namespace TinyScript

open Run

/-! ## Binding functions -/

/-- What a run binds for a function. -/
def callableEntry (function : Function) : (String × Nat) × Callable :=
  ((function.name, function.arity), .function function)

/-- The functions that a run of a program has bound, the latest first. -/
def Program.linked (program : Program) : List ((String × Nat) × Callable) :=
  (program.functions.map callableEntry).reverse ++ [(("print", 1), .print)]

theorem bindFunctions_eq_ok {vars : List (String × Variable)} :
    ∀ {functions : List Function} {m m' : Machine} {funs : List ((String × Nat) × Callable)},
      bindFunctions functions m = .ok () m' → m.scope = .root ⟨vars, funs⟩ →
        m' = { m with scope := .root ⟨vars, (functions.map callableEntry).reverse ++ funs⟩ } := by
  intro functions
  induction functions with
  | nil =>
      intro m m' funs h hscope
      obtain ⟨-, rfl⟩ := pure_eq_ok.mp h
      show m = { m with scope := Scope.root ⟨vars, funs⟩ }
      rw [← hscope]
  | cons function functions ih =>
      intro m m' funs h hscope
      obtain ⟨_, m₁, hfirst, hrest⟩ := bind_eq_ok.mp h
      cases hdefine : m.scope.defineFunction? function.name function.arity (.function function) with
      | none =>
          simp only [hdefine, fail_ne_ok] at hfirst
      | some scope =>
          simp only [hdefine] at hfirst
          cases hfirst
          rw [hscope] at hdefine
          obtain ⟨-, rfl⟩ := Scope.defineFunction?_eq_some.mp hdefine
          rw [ih hrest rfl]
          simp [callableEntry]

/-- Functions under keys that are all different can be bound. -/
theorem bindFunctions_of_distinct {vars : List (String × Variable)} :
    ∀ {functions : List Function} {m : Machine} {funs : List ((String × Nat) × Callable)},
      m.scope = .root ⟨vars, funs⟩ →
      (((functions.map callableEntry).reverse ++ funs).map Prod.fst).Nodup →
        bindFunctions functions m = .ok ()
          { m with scope := .root ⟨vars, (functions.map callableEntry).reverse ++ funs⟩ } := by
  intro functions
  induction functions with
  | nil =>
      intro m funs hscope _
      show EStateM.Result.ok () m = .ok () { m with scope := Scope.root ⟨vars, funs⟩ }
      rw [← hscope]
  | cons function functions ih =>
      intro m funs hscope hdistinct
      have hentries : ((function :: functions).map callableEntry).reverse ++ funs =
          (functions.map callableEntry).reverse ++ callableEntry function :: funs := by simp
      rw [hentries] at hdistinct ⊢
      have hdefine : m.scope.defineFunction? function.name function.arity (.function function) =
          some (.root ⟨vars, callableEntry function :: funs⟩) := by
        rw [hscope]
        refine Scope.defineFunction?_eq_some.mpr ⟨lookup_eq_none_iff_keys.mpr ?_, rfl⟩
        rw [List.map_append, List.nodup_append] at hdistinct
        exact (List.nodup_cons.mp hdistinct.2.1).1
      exact bind_eq_ok.mpr ⟨(), { m with scope := .root ⟨vars, callableEntry function :: funs⟩ },
        by rw [hdefine], ih rfl hdistinct⟩

theorem bindFunctions_eq_error : ∀ {functions : List Function} {m m' : Machine} {halt : Halt},
    bindFunctions functions m = .error halt m' →
      ∃ name arity, halt = .failed (.functionRedefined name arity) := by
  intro functions
  induction functions with
  | nil =>
      intro m m' halt h
      exact absurd h pure_ne_error
  | cons function functions ih =>
      intro m m' halt h
      rcases bind_eq_error.mp h with hfirst | ⟨_, m₁, -, hrest⟩
      · split at hfirst
        · cases hfirst
        · exact ⟨function.name, function.arity, (fail_eq_error.mp hfirst).1⟩
      · exact ih hrest

/-! ## Evaluating globals -/

variable {settings : RunSettings} {fuel : Nat}

/-- The value with which a global starts. -/
def initialValue (settings : RunSettings) (fuel : Nat) (global : Global) : Run Value :=
  match global.value with
  | none => pure .nil
  | some expression => value settings fuel expression

theorem bindGlobals_cons {global : Global} {globals : List Global} {m : Machine} :
    bindGlobals settings fuel (global :: globals) m = (do
      let value ← initialValue settings fuel global
      define global.name global.isMutable value
      bindGlobals settings fuel globals) m := by
  rw [bindGlobals, initialValue]
  cases global.value <;> rfl

theorem bindGlobals_append : ∀ {front behind : List Global} {m m' : Machine},
    bindGlobals settings fuel (front ++ behind) m = .ok () m' →
      ∃ m₁, bindGlobals settings fuel front m = .ok () m₁ ∧
        bindGlobals settings fuel behind m₁ = .ok () m' := by
  intro front
  induction front with
  | nil =>
      intro behind m m' h
      exact ⟨m, rfl, h⟩
  | cons global front ih =>
      intro behind m m' h
      rw [List.cons_append, bindGlobals_cons] at h
      obtain ⟨v, m₁, hvalue, h⟩ := bind_eq_ok.mp h
      obtain ⟨_, m₂, hdefine, h⟩ := bind_eq_ok.mp h
      obtain ⟨m₃, hfront, hbehind⟩ := ih h
      refine ⟨m₃, ?_, hbehind⟩
      rw [bindGlobals_cons]
      exact bind_eq_ok.mpr ⟨v, m₁, hvalue, bind_eq_ok.mpr ⟨(), m₂, hdefine, hfront⟩⟩

/-- When the globals cannot all be evaluated, there is a first one that cannot. -/
theorem bindGlobals_eq_error : ∀ {globals : List Global} {m m' : Machine} {halt : Halt},
    bindGlobals settings fuel globals m = .error halt m' →
      ∃ earlier global later m₁, globals = earlier ++ global :: later ∧
        bindGlobals settings fuel earlier m = .ok () m₁ ∧
        ((∃ m₂, initialValue settings fuel global m₁ = .error halt m₂) ∨
          ∃ v m₂, initialValue settings fuel global m₁ = .ok v m₂ ∧
            define global.name global.isMutable v m₂ = .error halt m₂) := by
  intro globals
  induction globals with
  | nil =>
      intro m m' halt h
      exact absurd h pure_ne_error
  | cons global globals ih =>
      intro m m' halt h
      rw [bindGlobals_cons] at h
      rcases bind_eq_error.mp h with hvalue | ⟨v, m₁, hvalue, h⟩
      · exact ⟨[], global, globals, m, rfl, rfl, .inl ⟨m', hvalue⟩⟩
      rcases bind_eq_error.mp h with hdefine | ⟨_, m₂, hdefine, h⟩
      · obtain ⟨hnone, rfl, rfl⟩ := define_eq_error.mp hdefine
        exact ⟨[], global, globals, m, rfl, rfl, .inr ⟨v, m₁, hvalue, hdefine⟩⟩
      · obtain ⟨earlier, other, later, m₃, rfl, hearlier, hfails⟩ := ih h
        refine ⟨global :: earlier, other, later, m₃, rfl, ?_, hfails⟩
        rw [bindGlobals_cons]
        exact bind_eq_ok.mpr ⟨v, m₁, hvalue, bind_eq_ok.mpr ⟨(), m₂, hdefine, hearlier⟩⟩

/-- Globals that are bound already may be left out in front of others. -/
theorem bindGlobals_of_front {behind : List Global} {m₁ : Machine} :
    ∀ {front : List Global} {m : Machine}, bindGlobals settings fuel front m = .ok () m₁ →
      bindGlobals settings fuel (front ++ behind) m = bindGlobals settings fuel behind m₁ := by
  intro front
  induction front with
  | nil =>
      intro m h
      obtain ⟨-, rfl⟩ := pure_eq_ok.mp h
      rfl
  | cons global front ih =>
      intro m h
      rw [bindGlobals_cons] at h
      obtain ⟨v, m₂, hvalue, h⟩ := bind_eq_ok.mp h
      obtain ⟨_, m₃, hdefine, hfront⟩ := bind_eq_ok.mp h
      rw [List.cons_append, bindGlobals_cons, bind_of_ok hvalue, bind_of_ok hdefine]
      exact ih hfront

/-! ## Failures of whole runs -/

theorem mainResult_eq_error {v : Value} {error : RuntimeError}
    (h : mainResult v = .error error) : error = .mainNotInteger v.kind := by
  cases v <;> cases h <;> rfl

namespace Program

variable {program : Program} {machine : Machine}

/-- How a run of a program comes to end badly. -/
inductive Breaks (settings : RunSettings) (fuel : Nat) (program : Program) (machine : Machine) :
    Halt → Prop
  | functions {name arity} :
      Breaks settings fuel program machine (.failed (.functionRedefined name arity))
  | globals {name} : Breaks settings fuel program machine (.failed (.variableRedefined name))
  | visit {visit halt} :
      program.Visits settings fuel machine visit →
      Raises settings fuel (performs settings fuel visit.calls) visit.task visit.machine halt →
      Breaks settings fuel program machine halt
  | main {m halt} :
      program.Initialises settings fuel machine program.globals m →
      CallRaises settings "main" [] (program.ready m) halt →
      Breaks settings fuel program machine halt
  | result {m m' v error} :
      program.Initialises settings fuel machine program.globals m →
      call settings fuel "main" [] (program.ready m) = .ok v m' → mainResult v = .error error →
      Breaks settings fuel program machine (.failed error)

/-- Globals that cannot all be evaluated fail in the initial value of one of them, unless a name
cannot be bound. -/
theorem origin_of_globals {linked m' : Machine} {halt : Halt}
    (hlinked : bindFunctions program.functions { machine with scope := .initial } = .ok () linked)
    (h : bindGlobals settings fuel program.globals linked = .error halt m') :
    (∃ name, halt = .failed (.variableRedefined name)) ∨
      ∃ earlier global later start visit,
        program.Initial settings fuel machine earlier global later start ∧
          Run.Visits settings fuel start visit ∧
          Raises settings fuel (performs settings fuel visit.calls) visit.task visit.machine
            halt := by
  obtain ⟨earlier, global, later, m₁, hsplit, hearlier, hfails⟩ := bindGlobals_eq_error h
  rcases hfails with ⟨m₂, hvalue⟩ | ⟨v, m₂, -, hdefine⟩
  · unfold initialValue at hvalue
    cases hglobal : global.value with
    | none =>
        rw [hglobal] at hvalue
        exact absurd hvalue pure_ne_error
    | some expression =>
        rw [hglobal] at hvalue
        have hperform : perform settings fuel (call settings fuel) (.expression expression) m₁ =
            .error halt m₂ := map_eq_error.mpr hvalue
        obtain ⟨visit, hvisits, hraises⟩ :=
          origin_of_failure .outermost hperform (.initial global.name)
        exact .inr ⟨earlier, global, later, _, visit,
          .mk hsplit hglobal ⟨linked, hlinked, hearlier⟩, hvisits, hraises⟩
  · obtain ⟨-, hhalt, -⟩ := define_eq_error.mp hdefine
    exact .inl ⟨global.name, hhalt⟩

/-- A call of `main` that ends badly does so by itself or in the body. -/
theorem origin_of_main {m m' : Machine} {halt : Halt}
    (hinitialises : program.Initialises settings fuel machine program.globals m)
    (h : call settings fuel "main" [] (program.ready m) = .error halt m') :
    CallRaises settings "main" [] (program.ready m) halt ∨
      ∃ start visit, program.Main settings fuel machine start ∧
        Run.Visits settings fuel start visit ∧
        Raises settings fuel (performs settings fuel visit.calls) visit.task visit.machine
          halt := by
  rcases callOrigin_call h with hraises | ⟨inner, function, m₁, henters, horigin⟩
  · exact .inl hraises
  · obtain ⟨visit, hvisits, hraises⟩ := horigin (.body function.name function.arity)
    exact .inr ⟨_, visit, .mk hinitialises henters, hvisits, hraises⟩

/-- The parts of a run, by the way in which it fails. -/
theorem run_eq_error {halt : Halt} {m' : Machine}
    (h : program.run settings fuel machine = .error halt m') :
    (∃ after, bindFunctions program.functions { machine with scope := .initial } =
        .error halt after) ∨
      (∃ linked after,
        bindFunctions program.functions { machine with scope := .initial } = .ok () linked ∧
          bindGlobals settings fuel program.globals linked = .error halt after) ∨
      ∃ m, program.Initialises settings fuel machine program.globals m ∧
        ((∃ after, call settings fuel "main" [] (program.ready m) = .error halt after) ∨
          ∃ v after error, call settings fuel "main" [] (program.ready m) = .ok v after ∧
            mainResult v = .error error ∧ halt = .failed error) := by
  unfold run inScope at h
  split at h
  · cases h
  next halt' after hinside =>
  cases h
  rcases bind_eq_error.mp hinside with hlinked | ⟨_, linked, hlinked, hinside⟩
  · exact .inl ⟨after, hlinked⟩
  rcases bind_eq_error.mp hinside with hglobals | ⟨_, m, hglobals, hinside⟩
  · exact .inr (.inl ⟨linked, after, hlinked, hglobals⟩)
  refine .inr (.inr ⟨m, ⟨linked, hlinked, hglobals⟩, ?_⟩)
  simp only [bind_eq_error, notify, reduceCtorEq, false_or] at hinside
  obtain ⟨_, ready, hready, hmain⟩ := hinside
  cases hready
  rcases hmain with hmain | ⟨v, m₁, hmain, hresult⟩
  · exact .inl ⟨after, hmain⟩
  · obtain ⟨error, herror, rfl, -⟩ := ofExcept_eq_error.mp hresult
    exact .inr ⟨v, m₁, error, hmain, herror, rfl⟩

theorem breaks_of_run {m' : Machine} {halt : Halt}
    (h : program.run settings fuel machine = .error halt m') :
    program.Breaks settings fuel machine halt := by
  rcases run_eq_error h with ⟨after, hfunctions⟩ | ⟨linked, after, hlinked, hglobals⟩ |
    ⟨m, hinitialises, ⟨after, hmain⟩ | ⟨v, after, error, hmain, hresult, rfl⟩⟩
  · obtain ⟨name, arity, rfl⟩ := bindFunctions_eq_error hfunctions
    exact .functions
  · rcases origin_of_globals hlinked hglobals with ⟨name, rfl⟩ |
      ⟨earlier, global, later, start, visit, hinitial, hvisits, hraises⟩
    · exact .globals
    · exact .visit ⟨start, .inl ⟨earlier, global, later, hinitial⟩, hvisits⟩ hraises
  · rcases origin_of_main hinitialises hmain with hraises | ⟨start, visit, hstart, hvisits, hraises⟩
    · exact .main hinitialises hraises
    · exact .visit ⟨start, .inr hstart, hvisits⟩ hraises
  · exact .result hinitialises hmain hresult

/-- When the initial value of a global ends badly, so does the run. -/
theorem run_of_initial {earlier later : List Global} {global : Global} {start : Visit}
    {halt : Halt} (hinitial : program.Initial settings fuel machine earlier global later start)
    (h : Fails settings fuel start.calls start.task start.machine halt) :
    ∃ m', program.run settings fuel machine = .error halt m' := by
  cases hinitial with
  | @mk value m hsplit hvalue hinitialises =>
      obtain ⟨linked, hlinked, hearlier⟩ := hinitialises
      obtain ⟨after, hfails⟩ := fails_expression.mp h
      have hglobal : bindGlobals settings fuel (global :: later) m = .error halt after := by
        rw [bindGlobals_cons, initialValue, hvalue]
        exact bind_eq_error.mpr (.inl hfails)
      have hglobals := (bindGlobals_of_front hearlier).trans hglobal
      rw [← hsplit] at hglobals
      refine ⟨{ after with scope := machine.scope }, ?_⟩
      unfold run inScope
      rw [bind_eq_error.mpr (.inr ⟨(), linked, hlinked, bind_eq_error.mpr (.inl hglobals)⟩)]

/-- When the body of `main` ends badly, so does the run. -/
theorem run_of_main {start : Visit} {halt : Halt}
    (hmain : program.Main settings fuel machine start)
    (h : Fails settings fuel start.calls start.task start.machine halt) :
    ∃ m', program.run settings fuel machine = .error halt m' := by
  obtain @⟨m, _, _, _, ⟨linked, hlinked, hglobals⟩, henters⟩ := hmain
  obtain ⟨after, hcall⟩ := fails_of_enters henters h
  have hstarting : notify (.starting program.globals.length program.functions.length) m =
      .ok () (program.ready m) := rfl
  refine ⟨{ after with scope := machine.scope }, ?_⟩
  unfold run inScope
  rw [bind_of_ok hlinked, bind_of_ok hglobals, bind_of_ok hstarting,
    bind_eq_error.mpr (.inl hcall)]

/-- When a task that a run takes up ends badly, so does the run. -/
theorem run_of_visits {visit : Visit} {halt : Halt}
    (hvisits : program.Visits settings fuel machine visit)
    (h : Fails settings fuel visit.calls visit.task visit.machine halt) :
    ∃ m', program.run settings fuel machine = .error halt m' := by
  obtain ⟨start, ⟨_, _, _, hinitial⟩ | hmain, hvisits⟩ := hvisits
  · exact run_of_initial hinitial (fails_of_visits hvisits h)
  · exact run_of_main hmain (fails_of_visits hvisits h)

end Program

end TinyScript
