import TinyScript.Proofs.Run.Footprint
import TinyScript.Proofs.Run.Outcome

/-!
# Runs that a sink cuts short

The same action is done twice: on a machine whose sink takes every text, and on one whose sink holds
the same and has some other room. Either both do the same, or the second sink refuses a text. Then
the second action fails at once and writes nothing more, while the first goes on from there; since
it only adds to what is printed, what the second sink holds is in front of it (`CutShort`).

Most actions have nothing to do with the sink (`Silent`). For the others there is one rule for each
way to put actions together, and the evaluator is followed along its recursion.
-/

namespace TinyScript

open Run

/-! ## Sinks that have refused a text -/

namespace Sink

/-- What a sink has no room for of a text is behind what it has room for. -/
theorem exists_fitting_append (sink : Sink) (text : String) :
    ∃ left, text = sink.fitting text ++ left := by
  refine ⟨String.ofList (text.toList.drop (sink.room sink.text text)), ?_⟩
  rw [fitting, ← String.ofList_append, List.take_append_drop, String.ofList_toList]

/-- A sink with some room that has taken an output up to a text which it refused, and of that text
what it had room for, and nothing since. -/
inductive Stopped (room : String → String → Nat) (output : String) : Sink → Prop
  | refused {before refused rest : String} :
      output = before ++ refused ++ rest → Sink.refuses ⟨before, room⟩ refused = true →
      Stopped room output (Sink.write ⟨before, room⟩ refused)

namespace Stopped

variable {room : String → String → Nat} {output : String} {sink : Sink}

/-- The output may go on. -/
theorem append (h : Stopped room output sink) (more : String) :
    Stopped room (output ++ more) sink := by
  obtain ⟨houtput, hrefuses⟩ := h
  exact .refused (by rw [houtput, String.append_assoc]) hrefuses

/-- What the sink holds is in front of the output. -/
theorem exists_append (h : Stopped room output sink) : ∃ rest, output = sink.text ++ rest := by
  obtain @⟨before, refused, rest, houtput, -⟩ := h
  obtain ⟨left, hleft⟩ := exists_fitting_append ⟨before, room⟩ refused
  refine ⟨left ++ rest, ?_⟩
  calc output
    _ = before ++ (Sink.fitting ⟨before, room⟩ refused ++ left) ++ rest := by rw [← hleft, houtput]
    _ = before ++ Sink.fitting ⟨before, room⟩ refused ++ (left ++ rest) := by
      simp only [String.append_assoc]

end Stopped

end Sink

/-- The machine with another room in its sink, which holds the same. -/
def Machine.rationed (room : String → String → Nat) (m : Machine) : Machine :=
  { m with sink := { m.sink with room } }

@[simp] theorem Machine.scope_rationed {room : String → String → Nat} {m : Machine} :
    (m.rationed room).scope = m.scope := rfl

namespace Run

variable {α β : Type} {room : String → String → Nat}

/-- The end of a run with another room in the sink. -/
def rationed (room : String → String → Nat) :
    EStateM.Result Halt Machine α → EStateM.Result Halt Machine α
  | .ok a m => .ok a (m.rationed room)
  | .error halt m => .error halt (m.rationed room)

/-- With another room in the sink an action does the same, or it fails because the sink refuses a
text on the way. -/
inductive CutShort (room : String → String → Nat) (x : Run α) (m : Machine) : Prop
  | whole : x (m.rationed room) = rationed room (x m) → CutShort room x m
  | refused {m' : Machine} : x (m.rationed room) = .error (.failed .printRefused) m' →
      m'.sink.Stopped room (x.behind m).sink.text → CutShort room x m

/-- An action only adds to what the sink holds, and may be cut short by a sink with less room. -/
structure Interruptible (x : Run α) : Prop where
  grows : ∀ m, ∃ printed, (x.behind m).sink = { m.sink with text := m.sink.text ++ printed }
  cuts : ∀ m room, m.sink.IsOpen → CutShort room x m

/-- An action that has nothing to do with the sink. -/
def Silent (x : Run α) : Prop := ∀ m, (x.behind m).sink = m.sink ∧
  ∀ room, x (m.rationed room) = rationed room (x m)

/-! ## Actions that have nothing to do with the sink -/

namespace Silent

theorem interruptible {x : Run α} (h : Silent x) : Interruptible x where
  grows m := ⟨"", by rw [(h m).1, String.append_empty]⟩
  cuts m room _ := .whole ((h m).2 room)

theorem pure (a : α) : Silent (Pure.pure a) := fun _ => ⟨rfl, fun _ => rfl⟩

theorem fail (error : RuntimeError) : Silent (Run.fail error : Run α) :=
  fun _ => ⟨rfl, fun _ => rfl⟩

theorem outOfFuel : Silent (throw .outOfFuel : Run α) := fun _ => ⟨rfl, fun _ => rfl⟩

theorem ofExcept (checked : Except RuntimeError α) : Silent (Run.ofExcept checked) := by
  cases checked with
  | ok a => exact pure a
  | error error => exact fail error

theorem notify (notice : RunNotice) : Silent (Run.notify notice) := fun _ => ⟨rfl, fun _ => rfl⟩

theorem variableNamed (name : String) : Silent (Run.variableNamed name) := by
  intro m
  simp only [behind, Run.variableNamed, Machine.scope_rationed]
  cases m.scope.lookupVariable name <;> exact ⟨rfl, fun _ => rfl⟩

theorem define (name : String) (isMutable : Bool) (value : Value) :
    Silent (Run.define name isMutable value) := by
  intro m
  simp only [behind, Run.define, Machine.scope_rationed]
  cases m.scope.defineVariable? name ⟨isMutable, value⟩ <;> exact ⟨rfl, fun _ => rfl⟩

theorem assign (name : String) (value : Value) : Silent (Run.assign name value) :=
  fun _ => ⟨rfl, fun _ => rfl⟩

theorem newList (values : List Value) : Silent (Run.newList values) := fun _ => ⟨rfl, fun _ => rfl⟩

theorem itemsOf (id : ListId) : Silent (Run.itemsOf id) := fun _ => ⟨rfl, fun _ => rfl⟩

theorem put (id : ListId) (slot : Nat) (value : Value) : Silent (Run.put id slot value) :=
  fun _ => ⟨rfl, fun _ => rfl⟩

theorem piecesOf (value : Value) : Silent (Run.piecesOf value) := fun _ => ⟨rfl, fun _ => rfl⟩

theorem operate (settings : RunSettings) (operator : Operator) (a b : Value) :
    Silent (Run.operate settings operator a b) := by
  intro m
  unfold Run.operate
  split
  · exact ⟨rfl, fun _ => rfl⟩
  · exact ofExcept (operator.apply settings.negativeExponent m.lists.text a b) m

end Silent

/-! ## Putting actions together -/

/-- Acts between doing something to the machine and doing something to the one that is left. -/
def around (enter : Machine → Machine) (leave : Machine → Machine → Machine) (x : Run α) : Run α :=
  fun m =>
    match x (enter m) with
    | .ok a after => .ok a (leave m after)
    | .error halt after => .error halt (leave m after)

theorem behind_around (enter : Machine → Machine) (leave : Machine → Machine → Machine)
    (x : Run α) (m : Machine) :
    (around enter leave x).behind m = leave m (x.behind (enter m)) := by
  unfold behind around
  cases x (enter m) <;> rfl

theorem behind_congr {x y : Run α} {m : Machine} (h : x m = y m) : x.behind m = y.behind m := by
  unfold behind
  rw [h]

namespace Interruptible

variable {x : Run α}

theorem isOpen (h : Interruptible x) {m : Machine} (hopen : m.sink.IsOpen) :
    (x.behind m).sink.IsOpen := by
  obtain ⟨printed, hprinted⟩ := h.grows m
  rw [hprinted]
  exact hopen

theorem pure (a : α) : Interruptible (Pure.pure a) := (Silent.pure a).interruptible

theorem fail (error : RuntimeError) : Interruptible (Run.fail error : Run α) :=
  (Silent.fail error).interruptible

theorem ofExcept (checked : Except RuntimeError α) : Interruptible (Run.ofExcept checked) :=
  (Silent.ofExcept checked).interruptible

/-- Here the runs may part: the sink with another room may have none for the whole text. -/
theorem print (text : String) : Interruptible (Run.print text) where
  grows m := ⟨m.sink.fitting text, by rw [behind_print]; rfl⟩
  cuts m room hopen := by
    have hwhole : Run.print text m = .ok () { m with sink := m.sink.write text } := by
      simp [Run.print, hopen.refuses]
    cases hrefuses : (m.rationed room).sink.refuses text with
    | false =>
        refine .whole ?_
        rw [hwhole, hopen.write]
        simp only [Run.print, hrefuses, Sink.write_of_taken hrefuses]
        rfl
    | true =>
        have hrefused : Run.print text (m.rationed room) = .error (.failed .printRefused)
            { m with sink := (m.rationed room).sink.write text } := by
          simp only [Run.print, hrefuses]
          rfl
        have houtput : ((Run.print text).behind m).sink.text = m.sink.text ++ text ++ "" := by
          rw [behind_print, hopen.write, String.append_empty]
        exact .refused hrefused (.refused houtput hrefuses)

theorem bind {f : α → Run β} (h : Interruptible x) (hrest : ∀ a, Interruptible (f a)) :
    Interruptible (x >>= f) where
  grows m := by
    obtain ⟨printed, hprinted⟩ := h.grows m
    rw [behind_bind]
    cases hx : x m with
    | error halt m₁ => exact ⟨printed, behind_of_error hx ▸ hprinted⟩
    | ok a m₁ =>
        rw [behind_of_ok hx] at hprinted
        obtain ⟨printed', hprinted'⟩ := (hrest a).grows m₁
        refine ⟨printed ++ printed', ?_⟩
        simp only [hprinted', hprinted, String.append_assoc]
  cuts m room hopen := by
    rcases h.cuts m room hopen with hwhole | ⟨hrefused, hstopped⟩
    · cases hx : x m with
      | error halt m₁ =>
          rw [hx] at hwhole
          refine .whole ((bind_eq_error.mpr (.inl hwhole)).trans ?_)
          rw [bind_eq_error.mpr (.inl hx)]
          rfl
      | ok a m₁ =>
          rw [hx] at hwhole
          have hopen₁ : m₁.sink.IsOpen := behind_of_ok hx ▸ h.isOpen hopen
          rcases (hrest a).cuts m₁ room hopen₁ with hwhole' | ⟨hrefused', hstopped'⟩
          · exact .whole (by rw [bind_of_ok hwhole, bind_of_ok hx, hwhole'])
          · exact .refused ((bind_of_ok hwhole).trans hrefused') (by rwa [behind_bind, hx])
    · refine .refused (bind_eq_error.mpr (.inl hrefused)) ?_
      rw [behind_bind]
      cases hx : x m with
      | error halt m₁ => exact behind_of_error hx ▸ hstopped
      | ok a m₁ =>
          -- The first run goes on, and prints behind what it has printed.
          obtain ⟨printed, hprinted⟩ := (hrest a).grows m₁
          rw [behind_of_ok hx] at hstopped
          simp only [hprinted]
          exact hstopped.append printed

/-- Doing something to the machine before an action, and again behind it however it ends, that has
nothing to do with the sink. -/
theorem around (h : Interruptible x) (enter : Machine → Machine)
    (leave : Machine → Machine → Machine) (henter : ∀ m, (enter m).sink = m.sink)
    (hleave : ∀ m after, (leave m after).sink = after.sink)
    (henters : ∀ m room, enter (m.rationed room) = (enter m).rationed room)
    (hleaves : ∀ m after room,
      leave (m.rationed room) (after.rationed room) = (leave m after).rationed room) :
    Interruptible (Run.around enter leave x) where
  grows m := by
    obtain ⟨printed, hprinted⟩ := h.grows (enter m)
    exact ⟨printed, by rw [behind_around, hleave, hprinted, henter]⟩
  cuts m room hopen := by
    have hopen' : (enter m).sink.IsOpen := (henter m).symm ▸ hopen
    rcases h.cuts (enter m) room hopen' with hwhole | @⟨m', hrefused, hstopped⟩
    · refine .whole ?_
      simp only [Run.around, henters, hwhole]
      cases x (enter m) with
      | ok a after | error halt after => simp only [rationed, hleaves]
    · have hrefused' : Run.around enter leave x (m.rationed room) =
          .error (.failed .printRefused) (leave (m.rationed room) m') := by
        simp only [Run.around, henters, hrefused]
      exact .refused hrefused' (by rwa [behind_around, hleave, hleave])

theorem inBlock (h : Interruptible x) : Interruptible (Run.inBlock x) :=
  h.around Machine.enter (fun _ => Machine.leave) (fun _ => rfl) (fun _ _ => rfl)
    (fun _ _ => rfl) fun _ _ _ => rfl

theorem inCallee (h : Interruptible x) (home : RunScope) : Interruptible (Run.inCallee home x) :=
  h.around (fun m => { m with scope := home.enter })
    (fun m after => { after with scope := m.scope.regrow after.scope.leave })
    (fun _ => rfl) (fun _ _ => rfl) (fun _ _ => rfl) fun _ _ _ => rfl

theorem counted (h : Interruptible x) : Interruptible (Run.counted x) :=
  h.around (fun m => { m with active := m.active + 1 })
    (fun m after => { after with active := m.active }) (fun _ => rfl) (fun _ _ => rfl)
    (fun _ _ => rfl) fun _ _ _ => rfl

/-- An action may go on in different ways from different machines, but not for what room their sinks
have. -/
theorem locally
    (h : ∀ m, ∃ y : Run α, Interruptible y ∧ x m = y m ∧
      ∀ room, x (m.rationed room) = y (m.rationed room)) :
    Interruptible x where
  grows m := by
    obtain ⟨y, hy, hsame, -⟩ := h m
    rw [behind_congr hsame]
    exact hy.grows m
  cuts m room hopen := by
    obtain ⟨y, hy, hsame, hrationed⟩ := h m
    rcases hy.cuts m room hopen with hwhole | ⟨hrefused, hstopped⟩
    · exact .whole (by rw [hrationed, hwhole, hsame])
    · exact .refused (by rw [hrationed, hrefused]) (by rwa [behind_congr hsame])

end Interruptible

/-! ## Expressions -/

variable {settings : RunSettings} {fuel : Nat} {calls : Calls}

theorem interruptible_elementOf (name : String) (id : ListId) (position : Value) :
    Interruptible (elementOf name id position) :=
  .bind (Silent.itemsOf id).interruptible fun _ => .bind (.ofExcept _) fun _ => .pure _

mutual

theorem interruptible_evaluate (hcalls : ∀ name values, Interruptible (calls name values)) :
    ∀ expression, Interruptible (evaluate settings calls expression)
  | .literal _ _ => by
      unfold evaluate
      exact .pure _
  | .group inner _ => by
      unfold evaluate
      exact interruptible_evaluate hcalls inner
  | .binary operator left right _ => by
      unfold evaluate
      refine .bind (interruptible_evaluate hcalls left) fun a => ?_
      split
      · refine .bind (.ofExcept _) fun truth => ?_
        split
        · exact .pure _
        · exact .bind (interruptible_evaluate hcalls right) fun _ =>
            .bind (.ofExcept _) fun _ => .pure _
      · exact .bind (interruptible_evaluate hcalls right) fun b =>
          (Silent.operate settings operator a b).interruptible
  | .access name _ _ => by
      unfold evaluate
      exact .bind (Silent.variableNamed name).interruptible fun _ => .pure _
  | .element name index _ _ => by
      unfold evaluate
      exact .bind (Silent.variableNamed name).interruptible fun _ => .bind (.ofExcept _) fun _ =>
        .bind (interruptible_evaluate hcalls index) fun _ => interruptible_elementOf name _ _
  | .call name arguments _ _ => by
      unfold evaluate
      exact .bind (interruptible_evaluateAll hcalls arguments) fun values => hcalls name values
  | .list elements _ => by
      unfold evaluate
      exact .bind (interruptible_evaluateAll hcalls elements) fun values =>
        (Silent.newList values).interruptible

theorem interruptible_evaluateAll (hcalls : ∀ name values, Interruptible (calls name values)) :
    ∀ expressions, Interruptible (evaluateAll settings calls expressions)
  | [] => by
      unfold evaluateAll
      exact .pure _
  | expression :: expressions => by
      unfold evaluateAll
      exact .bind (interruptible_evaluate hcalls expression) fun _ =>
        .bind (interruptible_evaluateAll hcalls expressions) fun _ => .pure _

end

/-! ## Statements -/

theorem interruptible_condition (hcalls : ∀ name values, Interruptible (calls name values))
    (test : Expression) : Interruptible (condition settings calls test) :=
  .bind (interruptible_evaluate hcalls test) fun _ => .ofExcept _

theorem interruptible_receiver (name : String) : Interruptible (receiver name) := by
  refine .bind (Silent.variableNamed name).interruptible fun found => ?_
  split
  · exact .pure _
  · exact .fail _

theorem interruptible_locate (hcalls : ∀ name values, Interruptible (calls name values))
    (receiver : Expression) : Interruptible (locate settings calls receiver) := by
  cases receiver with
  | access name binding ty => exact .bind (interruptible_receiver name) fun _ => .pure _
  | element name index binding ty =>
      exact .bind (interruptible_receiver name) fun _ => .bind (.ofExcept _) fun _ =>
        .bind (interruptible_evaluate hcalls index) fun _ => .pure _
  | _ => exact .fail _

theorem interruptible_store (target : Target) (value : Value) :
    Interruptible (store target value) := by
  cases target with
  | whole name => exact (Silent.assign name value).interruptible
  | slot name id position =>
      exact .bind (Silent.itemsOf id).interruptible fun _ => .bind (.ofExcept _) fun slot =>
        (Silent.put id slot value).interruptible

theorem interruptible_assignTo (hcalls : ∀ name values, Interruptible (calls name values))
    (receiver value : Expression) : Interruptible (assignTo settings calls receiver value) :=
  .bind (interruptible_locate hcalls receiver) fun target =>
    .bind (interruptible_evaluate hcalls value) fun v => interruptible_store target v

theorem interruptible_repeatWhile {test : Run Bool} {body : Run Flow} (htest : Interruptible test)
    (hbody : Interruptible body) : ∀ rounds, Interruptible (repeatWhile test body rounds) := by
  intro rounds
  induction rounds with
  | zero => exact Silent.outOfFuel.interruptible
  | succ rounds ih =>
      unfold repeatWhile
      refine .bind htest fun holds => ?_
      split
      · refine .bind hbody fun flow => ?_
        cases flow with
        | completed => exact ih
        | returned value => exact .pure _
      · exact .pure _

mutual

theorem interruptible_execute (hcalls : ∀ name values, Interruptible (calls name values)) :
    ∀ statement, Interruptible (execute settings fuel calls statement)
  | .expression expression => by
      unfold execute
      exact .bind (interruptible_evaluate hcalls expression) fun _ => .pure _
  | .declaration name _ none _ => by
      unfold execute
      exact .bind (Silent.define name true .nil).interruptible fun _ => .pure _
  | .declaration name _ (some value) _ => by
      unfold execute
      exact .bind (interruptible_evaluate hcalls value) fun v =>
        .bind (Silent.define name true v).interruptible fun _ => .pure _
  | .assignment receiver value => by
      unfold execute
      exact .bind (interruptible_assignTo hcalls receiver value) fun _ => .pure _
  | .branch test thenBody elseBody => by
      unfold execute
      refine .bind (interruptible_condition hcalls test) fun holds => ?_
      split
      · exact .inBlock (interruptible_executeAll hcalls thenBody)
      · exact .inBlock (interruptible_executeAll hcalls elseBody)
  | .switch test cases => by
      unfold execute
      exact .bind (interruptible_evaluate hcalls test) fun selector =>
        interruptible_executeCases hcalls selector cases
  | .loop test body => by
      unfold execute
      exact interruptible_repeatWhile (interruptible_condition hcalls test)
        (.inBlock (interruptible_executeAll hcalls body)) fuel
  | .result value => by
      unfold execute
      exact .bind (interruptible_evaluate hcalls value) fun _ => .pure _

theorem interruptible_executeAll (hcalls : ∀ name values, Interruptible (calls name values)) :
    ∀ statements, Interruptible (executeAll settings fuel calls statements)
  | [] => by
      unfold executeAll
      exact .pure _
  | statement :: statements => by
      unfold executeAll
      refine .bind (interruptible_execute hcalls statement) fun flow => ?_
      cases flow with
      | completed => exact interruptible_executeAll hcalls statements
      | returned value => exact .pure _

theorem interruptible_executeCases (hcalls : ∀ name values, Interruptible (calls name values))
    (selector : Value) :
    ∀ cases, Interruptible (executeCases settings fuel calls selector cases)
  | [] => by
      unfold executeCases
      exact .pure _
  | .mk none body :: _ => by
      unfold executeCases
      exact .inBlock (interruptible_executeAll hcalls body)
  | .mk (some value) body :: cases => by
      unfold executeCases
      refine .bind (interruptible_evaluate hcalls value) fun v =>
        .bind (.ofExcept _) fun order => ?_
      split
      · exact .inBlock (interruptible_executeAll hcalls body)
      · exact interruptible_executeCases hcalls selector cases

end

/-! ## Calls -/

theorem interruptible_bindParameters : ∀ (parameters : List Parameter) (values : List Value),
    Interruptible (bindParameters parameters values)
  | [], _ => .pure _
  | _ :: _, [] => .pure _
  | parameter :: parameters, value :: values =>
      .bind (Silent.define parameter.name true value).interruptible fun _ =>
        interruptible_bindParameters parameters values

theorem interruptible_invoke (hcalls : ∀ name values, Interruptible (calls name values))
    (home : RunScope) (function : Function) (values : List Value) :
    Interruptible (invoke settings fuel calls home function values) := by
  refine .inCallee (.bind (interruptible_bindParameters _ _) fun _ =>
    .bind (interruptible_executeAll hcalls function.body) fun flow => ?_) home
  cases flow <;> exact .pure _

theorem interruptible_printEach : ∀ texts : List String, Interruptible (printEach texts)
  | [] => .pure _
  | text :: texts => .bind (.print text) fun _ => interruptible_printEach texts

theorem interruptible_printAll : ∀ values : List Value, Interruptible (printAll values)
  | [] => .pure _
  | value :: values =>
      .bind (Silent.piecesOf value).interruptible fun pieces =>
        .bind (.bind (interruptible_printEach pieces) fun _ => .print "\n") fun _ =>
          interruptible_printAll values

theorem interruptible_dispatch {invokes : RunScope → Function → List Value → Run Value}
    (name : String) (values : List Value)
    (hinvokes : ∀ home function, Interruptible (invokes home function values)) :
    Interruptible (dispatch invokes name values) := by
  -- What is invoked depends on the scope only.
  refine .locally fun m => ?_
  simp only [dispatch, Machine.scope_rationed]
  cases m.scope.lookupFunction name values.length with
  | none => exact ⟨fail (.undefinedFunction name values.length), .fail _, rfl, fun _ => rfl⟩
  | some found =>
      obtain ⟨callable, home⟩ := found
      refine ⟨_, .bind (Silent.notify _).interruptible fun _ => ?_, rfl, fun _ => rfl⟩
      cases callable with
      | print => exact .bind (interruptible_printAll values) fun _ => .pure _
      | function function => exact hinvokes home function

theorem interruptible_callWithin : ∀ room name values,
    Interruptible (callWithin settings fuel room name values) := by
  intro room
  induction room with
  | zero =>
      intro name values
      unfold callWithin
      exact interruptible_dispatch name values fun _ _ => .fail _
  | succ room ih =>
      intro name values
      exact interruptible_dispatch name values fun home function =>
        .counted (interruptible_invoke ih home function values)

theorem interruptible_call (name : String) (values : List Value) :
    Interruptible (call settings fuel name values) :=
  .locally fun m =>
    ⟨callWithin settings fuel (Run.room settings m) name values,
      interruptible_callWithin _ name values, rfl, fun _ => rfl⟩

/-! ## Whole programs -/

theorem interruptible_bindFunctions : ∀ functions, Interruptible (bindFunctions functions)
  | [] => .pure _
  | function :: functions => by
      refine .bind (Silent.interruptible fun m => ?_) fun _ => interruptible_bindFunctions functions
      simp only [behind, Machine.scope_rationed]
      cases m.scope.defineFunction? function.name function.arity (.function function) <;>
        exact ⟨rfl, fun _ => rfl⟩

theorem interruptible_initialValue (global : Global) :
    Interruptible (initialValue settings fuel global) := by
  unfold initialValue
  cases global.value with
  | none => exact .pure _
  | some expression => exact interruptible_evaluate interruptible_call expression

theorem interruptible_bindGlobals : ∀ globals, Interruptible (bindGlobals settings fuel globals)
  | [] => .pure _
  | global :: globals => by
      have hcons : bindGlobals settings fuel (global :: globals) = (do
          let value ← initialValue settings fuel global
          define global.name global.isMutable value
          bindGlobals settings fuel globals) := funext fun _ => bindGlobals_cons
      rw [hcons]
      exact .bind (interruptible_initialValue global) fun v =>
        .bind (Silent.define global.name global.isMutable v).interruptible fun _ =>
          interruptible_bindGlobals globals

theorem interruptible_inside (program : Program) :
    Interruptible (program.inside settings fuel) :=
  .bind (interruptible_bindFunctions program.functions) fun _ =>
    .bind (interruptible_bindGlobals program.globals) fun _ =>
      .bind (Silent.notify _).interruptible fun _ =>
        .bind (interruptible_call "main" []) fun _ => .ofExcept _

end Run

end TinyScript
