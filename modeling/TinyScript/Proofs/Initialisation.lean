import Mathlib.Data.List.Induction
import TinyScript.Proofs.Reached
import TinyScript.Proofs.Stage

/-!
# From the start of a run to its tasks

A run binds the functions of a program and evaluates its globals in order. `Accepts.stands` follows
the globals of an accepted program: behind each of them the machine stands at the stage at which
exactly the globals so far are present. So the tasks that a run starts with, the initial values of
globals and the body of `main`, are reached at their stages.
-/

namespace TinyScript

open Typing Run

/-! ## Standing behind globals -/

/-- The variable of a global is described by its binding when its initial value has come to what
the checker has foretold. -/
theorem binds_of_globalRule {stage : Stage} {w : Elements} {input output : Global}
    {binding : VariableBinding} {c : Context} {settings : RunSettings} {fuel : Nat}
    {m m' : Machine} {v : Value} (hrule : GlobalRule stage.settings c input output binding)
    (hstands : Stands stage w c.scope m) (hkeeps : stage.Keeps output.transfers)
    (hplain : stage.discipline = .types → binding.itemType = .any)
    (hvalue : initialValue settings fuel output m = .ok v m') :
    ∃ later, w.Extends later ∧ Stands stage later c.scope m' ∧
      Binds stage.discipline later binding ⟨output.isMutable, v⟩ := by
  have evaluated : ∀ {expression input : Expression} {received ty : Ty} (element : Ty),
      value settings fuel expression m = .ok v m' →
      annotateExpression stage.settings c.scope input = .ok (expression, received) →
      isAssignable ty received = true →
      stage.Keeps (⟨element, expression⟩ :: expression.transfers) →
      ∃ later, w.Extends later ∧ Stands stage later c.scope m' ∧
        v.Fits stage.discipline later ty element := by
    intro expression input received ty element hvalue hann hassignable hkeeps
    have hsound : Sound stage (.expression expression) m (.value v) m' :=
      sound_of_evaluate (.outermost : Ordinary settings fuel _) hvalue
    obtain ⟨later, hext, hstands', htyped⟩ :=
      hsound (Fitting.of_expression (R := .any) hann hstands hkeeps.tail) element hkeeps.head
    exact ⟨later, hext, hstands', (htyped.fits hann).of_isAssignable hassignable⟩
  cases hrule with
  | declared _ =>
      obtain ⟨rfl, rfl⟩ := pure_eq_ok.mp hvalue
      exact ⟨w, .refl w, hstands, rfl, Value.fits_nil, hplain⟩
  | list _ _ hann =>
      obtain ⟨later, hext, hstands', hfits⟩ := evaluated _ hvalue hann (isAssignable_refl _) hkeeps
      exact ⟨later, hext, hstands', rfl, hfits, hplain⟩
  | other _ hann hassignable =>
      obtain ⟨later, hext, hstands', hfits⟩ := evaluated _ hvalue hann hassignable hkeeps
      exact ⟨later, hext, hstands', rfl, hfits, hplain⟩

/-- The scope of the checker when it has registered functions and bound globals. -/
def scopeBehind (globals : List Global) (functions : List Function) : StaticScope :=
  .root ⟨(globals.map globalEntry).reverse, registeredEntries functions⟩

namespace Accepts

variable {settings : Settings} {source annotated : Program} {functions : List Function}
  {c₀ c₁ c₂ : Context} (h : Accepts settings source annotated functions c₀ c₁ c₂)
  {rules : RunSettings} {fuel : Nat} {machine : Machine}
include h

/-- Where some global is checked: behind the globals in front of it. -/
theorem global_context {earlier later : List Global} {global : Global}
    (hsplit : annotated.globals = earlier ++ global :: later) :
    ∃ front input behind c binding,
      source.globals = front ++ input :: behind ∧
      annotateEach (annotateGlobal settings) front c₀ = .ok earlier c ∧
      c.scope = scopeBehind earlier functions ∧
      GlobalRule settings c input global binding := by
  have hglobals := h.globals
  rw [hsplit] at hglobals
  obtain ⟨front, input, behind, c, _, hsource, hfront, hinput⟩ := annotateEach_middle hglobals
  obtain ⟨hscope, -, -⟩ :=
    scope_of_annotateGlobals hfront (scope_of_registered h.registered).1 List.nodup_nil
  rw [List.append_nil] at hscope
  obtain ⟨binding, _, hrule, -, -⟩ := rule_of_annotateGlobal hinput
  exact ⟨front, input, behind, c, binding, hsource, hfront, hscope, hrule⟩

variable {d : Discipline} (hadmits : annotated.Admits d)

/-- Before any global a run stands at the stage at which all are missing. -/
theorem stands_first {m : Machine} (hinitialises : annotated.Initialises rules fuel machine [] m) :
    ∃ w, Stands (h.stage hadmits [] annotated.globals rfl) w (scopeBehind [] functions) m := by
  obtain ⟨linked, hfunctions, hglobals⟩ := hinitialises
  obtain ⟨-, rfl⟩ := pure_eq_ok.mp hglobals
  have hscope : RunScope.initial = .root ⟨[], [(("print", 1), .print)]⟩ := rfl
  have hlinked := bindFunctions_eq_ok hfunctions hscope
  have hroot : (h.stage hadmits [] annotated.globals rfl).Root (fun _ => none)
      ⟨[], annotated.linked⟩ := ⟨rfl, .nil⟩
  refine ⟨fun _ => none, ?_, ?_⟩
  · rw [hlinked]
    exact .root (.inl rfl) h.links hroot
  · intro _ id ty hnone
    cases hnone

theorem keeps_global {earlier later : List Global} {global : Global}
    (hsplit : annotated.globals = earlier ++ global :: later) :
    (h.stage hadmits earlier (global :: later) hsplit).Keeps global.transfers := by
  intro hd transfer htransfer
  have hmem : global ∈ annotated.globals := by
    rw [hsplit]
    exact List.mem_append_right _ List.mem_cons_self
  exact hadmits.keeps hd transfer
    (List.mem_append_left _ (List.mem_flatMap.mpr ⟨global, hmem, htransfer⟩))

/-- From one stage to the next: a global gets its initial value and is bound. -/
theorem stands_next {earlier later : List Global} {global : Global} {w : Elements}
    {m m₁ m' : Machine} {v : Value}
    (hsplit : annotated.globals = earlier ++ global :: later)
    (hsplit' : annotated.globals = (earlier ++ [global]) ++ later)
    (hstands : Stands (h.stage hadmits earlier (global :: later) hsplit) w
      (scopeBehind earlier functions) m)
    (hvalue : initialValue rules fuel global m = .ok v m₁)
    (hdefine : define global.name global.isMutable v m₁ = .ok () m') :
    ∃ w', Stands (h.stage hadmits (earlier ++ [global]) later hsplit') w'
      (scopeBehind (earlier ++ [global]) functions) m' := by
  obtain ⟨scope, hscope, rfl⟩ := Run.define_eq_ok.mp hdefine
  obtain ⟨front, input, behind, c, binding, -, -, hc, hrule⟩ := h.global_context hsplit
  obtain ⟨hentry, hname⟩ := hrule.entry
  have hmem : global ∈ annotated.globals := by
    rw [hsplit]
    exact List.mem_append_right _ List.mem_cons_self
  have hplain : d = .types → binding.itemType = .any := fun hd => by
    simpa [hentry] using hadmits.plain hd global hmem
  rw [← hc] at hstands
  obtain ⟨w', -, hstands', hbinds⟩ :=
    binds_of_globalRule hrule hstands (h.keeps_global hadmits hsplit) hplain hvalue
  rw [hc] at hstands'
  -- The initial value may have changed the globals that are present, but has added none.
  obtain ⟨frame, hrun, hroot⟩ := hstands'.agrees.root_frame
  rw [hrun] at hscope
  obtain ⟨-, rfl⟩ := Scope.defineVariable?_eq_some.mp hscope
  have hvars : ((earlier ++ [global]).map globalEntry).reverse =
      (input.name, binding) :: (earlier.map globalEntry).reverse := by
    simp [hentry]
  have hroot' : (h.stage hadmits (earlier ++ [global]) later hsplit').Root w'
      ⟨(global.name, ⟨global.isMutable, v⟩) :: frame.vars, frame.funs⟩ := by
    refine ⟨hroot.funs, ?_⟩
    show Entrywise (Binds d w') ((earlier ++ [global]).map globalEntry).reverse _
    rw [hvars]
    exact .cons ⟨hname.symm, hbinds⟩ hroot.vars
  exact ⟨w', .root (.inl rfl) h.links hroot', hstands'.lists⟩

/-- Behind some first globals a run stands at the stage at which exactly these are present. -/
theorem stands (earlier : List Global) :
    ∀ (later : List Global) (hsplit : annotated.globals = earlier ++ later) {m : Machine},
      annotated.Initialises rules fuel machine earlier m →
        ∃ w, Stands (h.stage hadmits earlier later hsplit) w (scopeBehind earlier functions) m := by
  -- From the front, since a global is evaluated at the stage of those in front of it.
  induction earlier using List.reverseRecOn with
  | nil =>
      intro later hsplit m hinitialises
      obtain rfl : annotated.globals = later := hsplit
      exact h.stands_first hadmits hinitialises
  | append_singleton earlier global ih =>
      intro later hsplit m hinitialises
      obtain ⟨linked, hfunctions, hglobals⟩ := hinitialises
      obtain ⟨m₁, hearlier, hlast⟩ := bindGlobals_append hglobals
      have hsplit' : annotated.globals = earlier ++ global :: later := by simpa using hsplit
      obtain ⟨w, hstands⟩ := ih (global :: later) hsplit' ⟨linked, hfunctions, hearlier⟩
      rw [bindGlobals_cons] at hlast
      obtain ⟨v, m₂, hvalue, hlast⟩ := bind_eq_ok.mp hlast
      obtain ⟨_, m₃, hdefine, hlast⟩ := bind_eq_ok.mp hlast
      obtain ⟨-, rfl⟩ := pure_eq_ok.mp hlast
      exact h.stands_next hadmits hsplit' hsplit hstands hvalue hdefine

/-! ## The tasks of a run -/

/-- The initial value of a global is reached at the stage of the globals in front of it. -/
theorem reached_initial {earlier later : List Global} {global : Global} {start : Visit}
    (hinitial : annotated.Initial rules fuel machine earlier global later start) :
    ∃ hsplit, Reached (h.stage hadmits earlier (global :: later) hsplit) rules fuel
      start := by
  obtain ⟨hsplit, hvalue, hinitialises⟩ := hinitial
  refine ⟨hsplit, ?_⟩
  obtain ⟨w, hstands⟩ := h.stands hadmits earlier _ hsplit hinitialises
  obtain ⟨front, input, behind, c, binding, hsource, hfront, hc, hrule⟩ := h.global_context hsplit
  have hkept := h.keeps_global hadmits hsplit
  rw [← hc] at hstands
  have reached : ∀ {value : Expression} {annotatedValue : Expression} {received : Ty},
      input.value = some value → global.value = some annotatedValue → global.name = input.name →
      annotateExpression settings c.scope value = .ok (annotatedValue, received) →
      ∀ {m}, Stands (h.stage hadmits earlier (global :: later) hsplit) w c.scope m →
      Reached (h.stage hadmits earlier (global :: later) hsplit) rules fuel
        ⟨call rules fuel, .initial global.name, .expression annotatedValue, m⟩ := by
    intro value annotatedValue received hinput houtput hname hann m hstands
    refine .mk .outermost ?_ (Fitting.of_expression (R := .any) hann hstands ?_)
    · rw [hname]
      exact .initial h.registered hsource hfront hinput
    · unfold Global.transfers at hkept
      rw [houtput] at hkept
      exact hkept.tail
  cases hrule with
  | declared _ => cases hvalue
  | list hinput _ hann =>
      cases hvalue
      exact reached hinput rfl rfl hann hstands
  | other hinput hann _ =>
      cases hvalue
      exact reached hinput rfl rfl hann hstands

/-- What the checker knows of `main`: it returns an integer. -/
theorem main_signature :
    ∃ signature outer, c₂.scope.lookupFunction "main" 0 = some (signature, outer) ∧
      signature.returns = .integer := by
  have hmain := h.main
  unfold requireMain at hmain
  split at hmain
  · cases hmain
  · next signature outer hfound =>
      split at hmain
      · next hreturns => exact ⟨signature, outer, hfound, hreturns⟩
      · cases hmain

/-- Behind all globals the machine agrees with the scope behind the whole check. -/
theorem stands_ready {m : Machine}
    (hinitialises : annotated.Initialises rules fuel machine annotated.globals m) :
    ∃ w, Stands (h.last hadmits) w c₂.scope (annotated.ready m) := by
  have hnone : annotated.globals = annotated.globals ++ [] := (List.append_nil _).symm
  obtain ⟨w, hstands⟩ := h.stands hadmits annotated.globals [] hnone hinitialises
  obtain ⟨frame, hscope, hroot⟩ := hstands.agrees.root_frame
  obtain ⟨funs, hc₂, hlinks⟩ := h.links_between h.bodies (List.append_nil _).symm
  refine ⟨w, ?_, hstands.lists⟩
  show Agrees _ w c₂.scope m.scope
  rw [hc₂, hscope]
  exact .root (.inl rfl) hlinks hroot

/-- The function that a call of `main` comes to, and its body, which fits the machine that the call
enters. -/
theorem main_entered {w : Elements} {m : Machine}
    (hstands : Stands (h.last hadmits) w c₂.scope m) {main : Function} {home : RunScope}
    (hfound : m.scope.lookupFunction "main" 0 = some (.function main, home)) :
    ∃ m', bindParameters main.parameters [] (m.callee home "main" 0) = .ok () m' ∧
      Entered (h.last hadmits) w main .integer m' := by
  obtain ⟨signature, outer, hstatic, hreturns⟩ := h.main_signature
  obtain ⟨callable, home', hrun, hcallable, hlinks⟩ := hstands.agrees.lookupFunction hstatic
  have hparameters := List.eq_nil_of_length_eq_zero (Stage.arity hcallable hlinks)
  have hvalues : List.Forall₂ (fun (v : Value) ty => v.Fits d w ty .any) []
      signature.parameters := by
    rw [hparameters]
    exact .nil
  rw [← hreturns]
  exact hstands.enterBody hstatic hfound hvalues

/-- The body of `main` is reached at the stage at which all globals are present. -/
theorem reached_main {start : Visit} (hmain : annotated.Main rules fuel machine start) :
    Reached (h.last hadmits) rules fuel start := by
  obtain ⟨hinitialises, henters⟩ := hmain
  obtain ⟨hfound, hdeeper, hbound⟩ := henters
  obtain ⟨w, hstands⟩ := h.stands_ready hadmits hinitialises
  obtain ⟨m', hbound', hentered⟩ := h.main_entered hadmits hstands hfound
  rw [show ([] : List Value).length = 0 from rfl] at hbound
  rw [hbound] at hbound'
  cases hbound'
  obtain ⟨hchecked, hfitting, -, -⟩ := hentered
  exact .mk (Ordinary.deeper hdeeper) hchecked hfitting

/-- Whatever a run visits is reached at some stage. -/
theorem reached {visit : Visit} (hvisits : annotated.Visits rules fuel machine visit) :
    ∃ earlier later hsplit,
      Reached (h.stage hadmits earlier later hsplit) rules fuel visit := by
  obtain ⟨start, ⟨earlier, global, later, hinitial⟩ | hmain, hvisits⟩ := hvisits
  · obtain ⟨hsplit, hreached⟩ := h.reached_initial hadmits hinitial
    exact ⟨earlier, _, hsplit, hreached.of_visits hvisits⟩
  · exact ⟨_, [], _, (h.reached_main hadmits hmain).of_visits hvisits⟩

end Accepts

end TinyScript
