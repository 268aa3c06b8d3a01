import TinyScript.Proofs.Run.Hidden
import TinyScript.Proofs.Tree.Variables

/-!
# What a program does not see

An expression that does not mention the hidden variable has the same value whether or not there are
hidden frames, and an assignment to another variable finds the one it changes behind them. A call
does not see the frames of its caller at all. So two programs come to the same end if the bodies of
their functions do, as long as these are called from the same frames (`Hiding.execute_eq`).
-/

namespace TinyScript

open Run

namespace Hiding

variable {H : Hiding} {layout : Layout} {settings : RunSettings} {fuel : Nat} {calls : Calls}

/-- Calls that do not see hidden frames. -/
def Blind (H : Hiding) (calls : Calls) : Prop :=
  ∀ layout name values, H.Alike layout layout (calls name values) (calls name values)

/-- None of some names is the hidden one. -/
def Misses (H : Hiding) (names : List String) : Prop := ∀ name ∈ names, name ≠ H.name

theorem misses_cons {name : String} {names : List String} :
    H.Misses (name :: names) ↔ name ≠ H.name ∧ H.Misses names :=
  List.forall_mem_cons

theorem misses_append {names names' : List String} :
    H.Misses (names ++ names') ↔ H.Misses names ∧ H.Misses names' :=
  List.forall_mem_append

/-! ## Expressions -/

theorem alike_elementOf (name : String) (id : ListId) (position : Value) :
    H.Alike layout layout (elementOf name id position) (elementOf name id position) :=
  .bind (.itemsOf id) fun _ => .bind (.ofExcept _) fun _ => .pure _

mutual

theorem alike_evaluate (hcalls : H.Blind calls) : ∀ expression : Expression,
    H.Misses expression.variables →
      H.Alike layout layout (evaluate settings calls expression)
        (evaluate settings calls expression)
  | .literal literal _, _ => by
      unfold evaluate
      exact .pure _
  | .group inner _, hfresh => by
      unfold evaluate
      exact alike_evaluate hcalls inner hfresh
  | .binary operator left right _, hfresh => by
      obtain ⟨hleft, hright⟩ := misses_append.mp hfresh
      unfold evaluate
      refine .bind (alike_evaluate hcalls left hleft) fun a => ?_
      split
      · refine .bind (.ofExcept _) fun truth => ?_
        split
        · exact .pure _
        · exact .bind (alike_evaluate hcalls right hright) fun b => .bind (.ofExcept _) fun _ =>
            .pure _
      · exact .bind (alike_evaluate hcalls right hright) fun b => .operate settings operator a b
  | .access name _ _, hfresh => by
      unfold evaluate
      exact .bind (.variableNamed (misses_cons.mp hfresh).1) fun _ => .pure _
  | .element name index _ _, hfresh => by
      obtain ⟨hname, hindex⟩ := misses_cons.mp hfresh
      unfold evaluate
      exact .bind (.variableNamed hname) fun _ => .bind (.ofExcept _) fun id =>
        .bind (alike_evaluate hcalls index hindex) fun position => alike_elementOf name id position
  | .call name arguments _ _, hfresh => by
      unfold evaluate
      exact .bind (alike_evaluateAll hcalls arguments hfresh) fun values =>
        hcalls layout name values
  | .list elements _, hfresh => by
      unfold evaluate
      exact .bind (alike_evaluateAll hcalls elements hfresh) fun values => .newList values

theorem alike_evaluateAll (hcalls : H.Blind calls) : ∀ expressions : List Expression,
    H.Misses (variablesOfEach expressions) →
      H.Alike layout layout (evaluateAll settings calls expressions)
        (evaluateAll settings calls expressions)
  | [], _ => by
      unfold evaluateAll
      exact .pure _
  | expression :: expressions, hfresh => by
      obtain ⟨hfirst, hrest⟩ := misses_append.mp hfresh
      unfold evaluateAll
      exact .bind (alike_evaluate hcalls expression hfirst) fun _ =>
        .bind (alike_evaluateAll hcalls expressions hrest) fun _ => .pure _

end

/-! ## Parts of statements -/

theorem alike_condition (hcalls : H.Blind calls) {test : Expression}
    (hfresh : H.Misses test.variables) :
    H.Alike layout layout (condition settings calls test) (condition settings calls test) :=
  .bind (alike_evaluate hcalls test hfresh) fun _ => .ofExcept _

theorem alike_receiver {name : String} (hname : name ≠ H.name) :
    H.Alike layout layout (receiver name) (receiver name) := by
  unfold receiver
  refine .bind (.variableNamed hname) fun found => ?_
  split
  · exact .pure _
  · exact .fail

theorem alike_assignTo (hcalls : H.Blind calls) {target value : Expression}
    (htarget : H.Misses target.variables) (hvalue : H.Misses value.variables) :
    H.Alike layout layout (assignTo settings calls target value)
      (assignTo settings calls target value) := by
  unfold assignTo
  cases target with
  | access name binding ty =>
      have hname := (misses_cons.mp htarget).1
      simp only [locate, bind_assoc, pure_bind]
      exact .bind (alike_receiver hname) fun _ => .bind (alike_evaluate hcalls value hvalue)
        fun v => .assign hname v
  | element name index binding ty =>
      obtain ⟨hname, hindex⟩ := misses_cons.mp htarget
      simp only [locate, bind_assoc, pure_bind]
      exact .bind (alike_receiver hname) fun _ => .bind (.ofExcept _) fun id =>
        .bind (alike_evaluate hcalls index hindex) fun _ =>
          .bind (alike_evaluate hcalls value hvalue) fun v =>
            .bind (.itemsOf id) fun _ => .bind (.ofExcept _) fun slot => .put id slot v
  | _ =>
      unfold locate
      exact fun _ _ _ => .error

theorem alike_repeatWhile {test : Run Bool} {body body' : Run Flow}
    (htest : H.Alike layout layout test test) (hbody : H.Alike layout layout body body') :
    ∀ rounds, H.Alike layout layout (repeatWhile test body rounds)
      (repeatWhile test body' rounds) := by
  intro rounds
  induction rounds with
  | zero => exact .outOfFuel
  | succ rounds ih =>
      unfold repeatWhile
      refine .bind htest fun holds => ?_
      split
      · refine .bind hbody fun flow => ?_
        cases flow with
        | completed => exact ih
        | returned v => exact .pure _
      · exact .pure _

/-! ## Calls -/

/-- Functions may stand for each other if they are called alike and their bodies come to the same
end. -/
structure Allows (H : Hiding) (settings : RunSettings) (fuel : Nat) : Prop where
  header : ∀ {function function'}, H.functions function function' →
    function'.name = function.name ∧ function'.parameters = function.parameters
  body : ∀ {function function'}, H.functions function function' → ∀ calls, H.Blind calls →
    H.Alike [.shared] [.shared] (executeAll settings fuel calls function.body)
      (executeAll settings fuel calls function'.body)

theorem alike_bindParameters (hopen : layout.IsOpen) :
    ∀ (parameters : List Parameter) (values : List Value),
      H.Alike layout layout (bindParameters parameters values) (bindParameters parameters values)
  | [], _ => .pure _
  | _ :: _, [] => .pure _
  | parameter :: parameters, v :: values =>
      .bind (.define hopen parameter.name true v) fun _ =>
        alike_bindParameters hopen parameters values

theorem alike_invoke (h : H.Allows settings fuel) (hcalls : H.Blind calls)
    {home home' : RunScope} {function function' : Function} (hhome : H.Scopes [] home home')
    (hfunction : H.functions function function') (values : List Value) :
    H.Alike layout layout (invoke settings fuel calls home function values)
      (invoke settings fuel calls home' function' values) := by
  have hopen : Layout.IsOpen [.shared] := trivial
  unfold invoke
  rw [(h.header hfunction).2]
  refine .inCallee hhome (.bind (alike_bindParameters hopen function.parameters values) fun _ =>
    .bind (h.body hfunction calls hcalls) fun flow => ?_)
  cases flow <;> exact .pure _

theorem alike_printEach : ∀ texts : List String,
    H.Alike layout layout (printEach texts) (printEach texts)
  | [] => .pure _
  | text :: texts => .bind (.print text) fun _ => alike_printEach texts

theorem alike_printAll : ∀ values : List Value,
    H.Alike layout layout (printAll values) (printAll values)
  | [] => .pure _
  | v :: values =>
      .bind (.piecesOf v) fun pieces =>
        .bind (.bind (alike_printEach pieces) fun _ => .print "\n") fun _ =>
          alike_printAll values

theorem alike_dispatch {invokes : RunScope → Function → List Value → Run Value} (name : String)
    (values : List Value)
    (hinvokes : ∀ {home home' function function'}, H.Scopes [] home home' →
      H.functions function function' →
      H.Alike layout layout (invokes home function values) (invokes home' function' values)) :
    H.Alike layout layout (dispatch invokes name values) (dispatch invokes name values) := by
  intro m scope hscope
  have hfound := hscope.lookupFunction name values.length
  simp only [dispatch]
  generalize m.scope.lookupFunction name values.length = found,
    scope.lookupFunction name values.length = found' at hfound
  cases hfound with
  | none => exact .error
  | @some found found' hboth =>
      obtain ⟨hcallable, hhome⟩ := hboth
      obtain ⟨callable, home⟩ := found
      obtain ⟨callable', home'⟩ := found'
      refine Alike.bind (.notify (.call name values.length)) (fun _ => ?_) m scope hscope
      cases hcallable with
      | print => exact .bind (alike_printAll values) fun _ => .pure _
      | function hfunction => exact hinvokes hhome hfunction

theorem blind_callWithin (h : H.Allows settings fuel) (room : Nat) :
    H.Blind (callWithin settings fuel room) := by
  induction room with
  | zero =>
      intro layout name values
      unfold callWithin
      exact alike_dispatch name values fun _ _ => .fail
  | succ room ih =>
      intro layout name values
      unfold callWithin
      exact alike_dispatch name values fun hhome hfunction =>
        .counted (alike_invoke h ih hhome hfunction values)

theorem blind_call (h : H.Allows settings fuel) : H.Blind (call settings fuel) :=
  fun layout name values m => blind_callWithin h (room settings m) layout name values m

/-! ## Whole programs -/

theorem alike_bindFunctions (h : H.Allows settings fuel) {functions functions' : List Function}
    (hfunctions : List.Forall₂ H.functions functions functions') :
    H.Alike [] [] (bindFunctions functions) (bindFunctions functions') := by
  induction hfunctions with
  | nil => exact .pure _
  | @cons function function' _ _ hfunction _ ih =>
      refine .bind ?_ fun _ => ih
      intro m scope hscope
      obtain ⟨hname, hparameters⟩ := h.header hfunction
      have hdefined := hscope.defineFunction? function.name function.arity (.function hfunction)
      simp only [hname, Function.arity, hparameters] at hdefined ⊢
      generalize m.scope.defineFunction? function.name _ (.function function) = defined,
        scope.defineFunction? function.name _ (.function function') = defined' at hdefined
      cases hdefined with
      | none => exact .error
      | some hscope => exact .ok hscope

theorem alike_bindGlobals (h : H.Allows settings fuel) : ∀ globals : List Global,
    H.Misses (globals.flatMap Global.variables) →
      H.Alike [] [] (bindGlobals settings fuel globals) (bindGlobals settings fuel globals)
  | [], _ => .pure _
  | global :: globals, hfresh => by
      rw [List.flatMap_cons] at hfresh
      obtain ⟨hglobal, hrest⟩ := misses_append.mp hfresh
      have hvalue : H.Alike [] [] (initialValue settings fuel global)
          (initialValue settings fuel global) := by
        have hfresh := (misses_cons.mp hglobal).2
        unfold initialValue
        cases hinitial : global.value with
        | none => exact .pure _
        | some expression =>
            rw [hinitial] at hfresh
            exact alike_evaluate (blind_call h) expression hfresh
      have hopen : Layout.IsOpen [] := trivial
      intro m scope hscope
      rw [bindGlobals_cons, bindGlobals_cons]
      exact Alike.bind hvalue (fun v => .bind (.define hopen global.name global.isMutable v)
        fun _ => alike_bindGlobals h globals hrest) m scope hscope

theorem alike_inside (h : H.Allows settings fuel) {program program' : Program}
    (hglobals : program'.globals = program.globals)
    (hfunctions : List.Forall₂ H.functions program.functions program'.functions)
    (hfresh : H.Misses program.variables) :
    H.Alike [] [] (program.inside settings fuel) (program'.inside settings fuel) := by
  unfold Program.inside
  rw [hglobals, ← hfunctions.length_eq]
  exact .bind (alike_bindFunctions h hfunctions) fun _ =>
    .bind (alike_bindGlobals h program.globals (misses_append.mp hfresh).1) fun _ =>
      .bind (.notify _) fun _ => .bind (blind_call h [] "main" []) fun _ => .ofExcept _

/-- Programs with the same globals whose functions may stand for each other run the same. -/
theorem execute_eq (h : H.Allows settings fuel) {program program' : Program}
    (hglobals : program'.globals = program.globals)
    (hfunctions : List.Forall₂ H.functions program.functions program'.functions)
    (hfresh : H.Misses program.variables) (m : Machine) :
    program'.execute settings fuel m = program.execute settings fuel m := by
  have hends := alike_inside h hglobals hfunctions hfresh { m with scope := .initial } .initial
    Scopes.initial
  generalize hleft : program.inside settings fuel { m with scope := .initial } = left,
    hright : program'.inside settings fuel { m with scope := .initial } = right at hends
  cases hends with
  | ok _ => rw [Program.execute_of_ok hleft, Program.execute_of_ok hright]
  | error => rw [Program.execute_of_error hleft, Program.execute_of_error hright]

end Hiding

end TinyScript
