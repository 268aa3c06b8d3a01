import TinyScript.Proofs.Run.Footprint

/-!
# The effects of the evaluator

Every expression spares the frames it is evaluated in, and every statement works inside its block.
The only case with an argument of its own is an assignment to a variable: the variable has been seen
to be mutable before the value is evaluated, and evaluating the value cannot change that. A call
spares the frames of the caller because its body works in a frame inside the outermost one.
-/

namespace TinyScript

open Run

namespace Run

variable {settings : RunSettings} {fuel : Nat} {calls : Calls}

/-! ## Expressions -/

theorem spares_operate (operator : Operator) (a b : Value) :
    Spares (operate settings operator a b) := by
  intro m
  unfold operate
  split
  · exact fun _ => .refl m
  · exact Spares.ofExcept _ m

theorem spares_elementOf (name : String) (id : ListId) (position : Value) :
    Spares (elementOf name id position) :=
  .bind (.itemsOf id) fun _ => .bind (.ofExcept _) fun _ => .pure _

mutual

theorem spares_evaluate (hcalls : ∀ name values, Spares (calls name values)) :
    ∀ expression, Spares (evaluate settings calls expression)
  | .literal _ _ => by
      unfold evaluate
      exact .pure _
  | .group inner _ => by
      unfold evaluate
      exact spares_evaluate hcalls inner
  | .binary operator left right _ => by
      unfold evaluate
      refine .bind (spares_evaluate hcalls left) fun a => ?_
      split
      · refine .bind (.ofExcept _) fun truth => ?_
        split
        · exact .pure _
        · exact .bind (spares_evaluate hcalls right) fun _ => .bind (.ofExcept _) fun _ => .pure _
      · exact .bind (spares_evaluate hcalls right) fun _ => spares_operate operator _ _
  | .access name _ _ => by
      unfold evaluate
      exact .bind (.variableNamed name) fun _ => .pure _
  | .element name index _ _ => by
      unfold evaluate
      exact .bind (.variableNamed name) fun _ => .bind (.ofExcept _) fun _ =>
        .bind (spares_evaluate hcalls index) fun _ => spares_elementOf name _ _
  | .call name arguments _ _ => by
      unfold evaluate
      exact .bind (spares_evaluateAll hcalls arguments) fun values => hcalls name values
  | .list elements _ => by
      unfold evaluate
      exact .bind (spares_evaluateAll hcalls elements) fun _ => .newList _

theorem spares_evaluateAll (hcalls : ∀ name values, Spares (calls name values)) :
    ∀ expressions, Spares (evaluateAll settings calls expressions)
  | [] => by
      unfold evaluateAll
      exact .pure _
  | expression :: expressions => by
      unfold evaluateAll
      exact .bind (spares_evaluate hcalls expression) fun _ =>
        .bind (spares_evaluateAll hcalls expressions) fun _ => .pure _

end

/-! ## Assignments -/

theorem spares_condition (hcalls : ∀ name values, Spares (calls name values))
    (test : Expression) : Spares (condition settings calls test) :=
  .bind (spares_evaluate hcalls test) fun _ => .ofExcept _

theorem spares_receiver (name : String) : Spares (receiver name) := by
  refine .bind (.variableNamed name) fun found => ?_
  split
  · exact .pure _
  · exact .fail _

theorem spares_locate (hcalls : ∀ name values, Spares (calls name values))
    (receiver : Expression) : Spares (locate settings calls receiver) := by
  cases receiver with
  | access name binding ty => exact .bind (spares_receiver name) fun _ => .pure _
  | element name index binding ty =>
      exact .bind (spares_receiver name) fun _ => .bind (.ofExcept _) fun _ =>
        .bind (spares_evaluate hcalls index) fun _ => .pure _
  | _ => exact .fail _

/-- What an assignment has found is there to be assigned to. -/
def Target.Assignable : Target → Machine → Prop
  | .whole name, m => ∃ found, m.scope.lookupVariable name = some found ∧ found.isMutable = true
  | .slot .., _ => True

theorem assignable_of_locate {receiver : Expression} {target : Target} {m m' : Machine}
    (h : locate settings calls receiver m = .ok target m') : target.Assignable m' := by
  cases receiver with
  | access name binding ty =>
      obtain ⟨found, m₁, hfound, htarget⟩ := bind_eq_ok.mp h
      obtain ⟨hlookup, hmutable, rfl⟩ := receiver_eq_ok.mp hfound
      obtain ⟨rfl, rfl⟩ := pure_eq_ok.mp htarget
      exact ⟨found, hlookup, hmutable⟩
  | element name index binding ty =>
      obtain ⟨found, m₁, -, h⟩ := bind_eq_ok.mp h
      obtain ⟨id, m₂, -, h⟩ := bind_eq_ok.mp h
      obtain ⟨position, m₃, -, htarget⟩ := bind_eq_ok.mp h
      obtain ⟨rfl, -⟩ := pure_eq_ok.mp htarget
      trivial
  | _ => exact absurd h fail_ne_ok

theorem Target.Assignable.spared {target : Target} {m m' : Machine} (h : target.Assignable m)
    (hspares : m.Spares m') : target.Assignable m' := by
  cases target with
  | whole name =>
      obtain ⟨found, hfound, hmutable⟩ := h
      have hbecomes := hspares.scope.lookupVariable name
      rw [hfound] at hbecomes
      obtain ⟨found', hfound', hbecomes⟩ := Variable.Becomes.of_some hbecomes
      exact ⟨found', hfound', hbecomes.isMutable.trans hmutable⟩
  | slot name id position => trivial

theorem works_store {target : Target} {m : Machine} (h : target.Assignable m) (value : Value)
    (hplain : m.scope.PlainLocals) : m.Works ((store target value).behind m) := by
  cases target with
  | whole name =>
      obtain ⟨found, hfound, hmutable⟩ := h
      exact { Machine.Works.refl m with
        scope := (Scope.Keeps.setVariable hfound hmutable value).works }
  | slot name id position =>
      have hspares : Spares (store (.slot name id position) value) :=
        .bind (.itemsOf id) fun _ => .bind (.ofExcept _) fun _ => .put id _ value
      exact hspares.works m hplain

/-- Evaluating the value may change the variable that has been found, but not whether it is
mutable. -/
theorem works_assigned (hcalls : ∀ name values, Spares (calls name values)) {target : Target}
    {m : Machine} (h : target.Assignable m) (value : Expression) (hplain : m.scope.PlainLocals) :
    m.Works ((evaluate settings calls value >>= store target).behind m) := by
  have hspares : m.Spares ((evaluate settings calls value).behind m) :=
    spares_evaluate hcalls value m hplain
  rw [behind_bind]
  cases hvalue : evaluate settings calls value m with
  | error halt m₁ => exact behind_of_error hvalue ▸ hspares.works
  | ok v m₁ =>
      rw [behind_of_ok hvalue] at hspares
      exact hspares.works.trans
        (works_store (h.spared hspares) v (hspares.scope.keeps.plainLocals hplain))

theorem works_assignTo (hcalls : ∀ name values, Spares (calls name values))
    (receiver value : Expression) : Works (assignTo settings calls receiver value) := by
  intro m hplain
  have hspares : m.Spares ((locate settings calls receiver).behind m) :=
    spares_locate hcalls receiver m hplain
  rw [assignTo, behind_bind]
  cases htarget : locate settings calls receiver m with
  | error halt m₁ => exact behind_of_error htarget ▸ hspares.works
  | ok target m₁ =>
      rw [behind_of_ok htarget] at hspares
      exact hspares.works.trans (works_assigned hcalls (assignable_of_locate htarget) value
        (hspares.scope.keeps.plainLocals hplain))

/-! ## Statements -/

theorem works_repeatWhile {test : Run Bool} {body : Run Flow} (htest : Works test)
    (hbody : Works body) : ∀ rounds, Works (repeatWhile test body rounds) := by
  intro rounds
  induction rounds with
  | zero => exact fun m _ => .refl m
  | succ rounds ih =>
      unfold repeatWhile
      refine .bind htest fun holds => ?_
      split
      · refine .bind hbody fun flow => ?_
        cases flow with
        | completed => exact ih
        | returned value => exact (Spares.pure _).works
      · exact (Spares.pure _).works

mutual

theorem works_execute (hcalls : ∀ name values, Spares (calls name values)) :
    ∀ statement, Works (execute settings fuel calls statement)
  | .expression expression => by
      unfold execute
      exact (Spares.bind (spares_evaluate hcalls expression) fun _ => .pure _).works
  | .declaration name _ none _ => by
      unfold execute
      exact .bind (.define name true .nil) fun _ => (Spares.pure _).works
  | .declaration name _ (some value) _ => by
      unfold execute
      exact .bind (spares_evaluate hcalls value).works fun v =>
        .bind (.define name true v) fun _ => (Spares.pure _).works
  | .assignment receiver value => by
      unfold execute
      exact .bind (works_assignTo hcalls receiver value) fun _ => (Spares.pure _).works
  | .branch test thenBody elseBody => by
      unfold execute
      refine .bind (spares_condition hcalls test).works fun holds => ?_
      split
      · exact .inBlock (works_executeAll hcalls thenBody)
      · exact .inBlock (works_executeAll hcalls elseBody)
  | .switch test cases => by
      unfold execute
      exact .bind (spares_evaluate hcalls test).works fun selector =>
        works_executeCases hcalls selector cases
  | .loop test body => by
      unfold execute
      exact works_repeatWhile (spares_condition hcalls test).works
        (.inBlock (works_executeAll hcalls body)) fuel
  | .result value => by
      unfold execute
      exact (Spares.bind (spares_evaluate hcalls value) fun _ => .pure _).works

theorem works_executeAll (hcalls : ∀ name values, Spares (calls name values)) :
    ∀ statements, Works (executeAll settings fuel calls statements)
  | [] => by
      unfold executeAll
      exact (Spares.pure _).works
  | statement :: statements => by
      unfold executeAll
      refine .bind (works_execute hcalls statement) fun flow => ?_
      cases flow with
      | completed => exact works_executeAll hcalls statements
      | returned value => exact (Spares.pure _).works

theorem works_executeCases (hcalls : ∀ name values, Spares (calls name values))
    (selector : Value) : ∀ cases, Works (executeCases settings fuel calls selector cases)
  | [] => by
      unfold executeCases
      exact (Spares.pure _).works
  | .mk none body :: _ => by
      unfold executeCases
      exact .inBlock (works_executeAll hcalls body)
  | .mk (some value) body :: cases => by
      unfold executeCases
      refine .bind (spares_evaluate hcalls value).works fun v =>
        .bind (Spares.ofExcept _).works fun order => ?_
      split
      · exact .inBlock (works_executeAll hcalls body)
      · exact works_executeCases hcalls selector cases

end

/-! ## Calls -/

theorem works_bindParameters : ∀ (parameters : List Parameter) (values : List Value),
    Works (bindParameters parameters values)
  | [], _ => (Spares.pure _).works
  | _ :: _, [] => (Spares.pure _).works
  | parameter :: parameters, value :: values =>
      .bind (.define parameter.name true value) fun _ => works_bindParameters parameters values

/-- What is done inside a call. -/
theorem works_called (hcalls : ∀ name values, Spares (calls name values)) (function : Function)
    (values : List Value) :
    Works (do
      bindParameters function.parameters values
      match ← executeAll settings fuel calls function.body with
      | .returned value => return value
      | .completed => return Value.nil) := by
  refine .bind (works_bindParameters _ _) fun _ => .bind (works_executeAll hcalls _) fun flow => ?_
  cases flow <;> exact (Spares.pure _).works

theorem spares_printEach : ∀ texts : List String, Spares (printEach texts)
  | [] => .pure _
  | text :: texts => .bind (.print text) fun _ => spares_printEach texts

theorem spares_printAll : ∀ values : List Value, Spares (printAll values)
  | [] => .pure _
  | value :: values =>
      .bind (.piecesOf value) fun pieces =>
        .bind (.bind (spares_printEach pieces) fun _ => .print "\n") fun _ =>
          spares_printAll values

/-- A call spares the frames of the caller when what it invokes does, each function in the scope
that binds it. -/
theorem spares_dispatch {invokes : RunScope → Function → List Value → Run Value}
    (hinvokes : ∀ function values, ∀ m : Machine,
      m.Spares ((invokes (.root m.scope.outermost) function values).behind m))
    (name : String) (values : List Value) : Spares (dispatch invokes name values) := by
  intro m hplain
  unfold behind dispatch
  cases hfound : m.scope.lookupFunction name values.length with
  | none => exact .refl m
  | some found =>
      obtain ⟨callable, home⟩ := found
      obtain rfl := hplain.home hfound
      cases callable with
      | print =>
          have hprint : Spares (do
              notify (.call name values.length)
              printAll values
              return Value.nil) :=
            .bind (.notify _) fun _ => .bind (spares_printAll values) fun _ => .pure _
          exact hprint m hplain
      | function function =>
          exact (Spares.notify (.call name values.length) m hplain).trans (hinvokes function values
            { m with notices := .call name values.length :: m.notices })

theorem spares_callWithin : ∀ room name values,
    Spares (callWithin settings fuel room name values) := by
  intro room
  induction room with
  | zero =>
      intro name values
      unfold callWithin
      refine spares_dispatch ?_ name values
      exact fun _ _ m => .refl m
  | succ room ih =>
      intro name values
      refine spares_dispatch (fun function values m => ?_) name values
      rw [behind_counted]
      exact { Works.inCallee (works_called ih function values)
        (m := { m with active := m.active + 1 }) with active := rfl }

theorem spares_call (name : String) (values : List Value) :
    Spares (call settings fuel name values) :=
  fun m => spares_callWithin (room settings m) name values m

theorem Ordinary.spares (h : Ordinary settings fuel calls) (name : String) (values : List Value) :
    Spares (calls name values) := by
  cases h with
  | outermost => exact spares_call name values
  | within room => exact spares_callWithin room name values

/-- However it ends, a task works inside its block. -/
theorem works_perform (h : Ordinary settings fuel calls) (task : Task) :
    Works (perform settings fuel calls task) := by
  cases task with
  | expression expression => exact .map (spares_evaluate h.spares expression).works
  | expressions expressions => exact .map (spares_evaluateAll h.spares expressions).works
  | receiver receiver => exact .map (spares_locate h.spares receiver).works
  | statement statement => exact .map (works_execute h.spares statement)
  | statements statements => exact .map (works_executeAll h.spares statements)
  | cases selector cases => exact .map (works_executeCases h.spares selector cases)

theorem spares_value (expression : Expression) : Spares (value settings fuel expression) :=
  spares_evaluate spares_call expression

/-! ## Globals -/

theorem spares_initialValue (global : Global) : Spares (initialValue settings fuel global) := by
  unfold initialValue
  cases global.value with
  | none => exact .pure _
  | some expression => exact spares_value expression

theorem works_bindGlobals : ∀ globals, Works (bindGlobals settings fuel globals)
  | [] => (Spares.pure _).works
  | global :: globals => by
      intro m hplain
      have hbind : Works (do
          let value ← initialValue settings fuel global
          define global.name global.isMutable value
          bindGlobals settings fuel globals) :=
        .bind (spares_initialValue global).works fun v =>
          .bind (.define global.name global.isMutable v) fun _ => works_bindGlobals globals
      have h := hbind m hplain
      unfold behind at h ⊢
      rwa [← bindGlobals_cons] at h

end Run

end TinyScript
