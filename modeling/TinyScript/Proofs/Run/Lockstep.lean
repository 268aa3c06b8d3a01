import TinyScript.Proofs.Run.Likeness
import TinyScript.Proofs.Run.Outcome

/-!
# Runs in lockstep

A program does the same from machines that are alike. The two runs may have different settings,
fuel and functions as far as their likeness allows it (`Likeness.Allows`): what one of them may have
less of, it has to be cut short for. The argument follows the evaluator: expressions and statements
by recursion on the tree, loops by their rounds, calls by the room that is left for them.
-/

namespace TinyScript

open Run

/-! ## Negative exponents -/

theorem Arithmetic.integerPower_reject (negative : NegativeExponent) (base exponent : Int) :
    integerPower base exponent .reject = .error (.negativeExponent exponent) ∨
      integerPower base exponent negative = integerPower base exponent .reject := by
  by_cases hexponent : exponent < 0
  · left
    unfold integerPower
    rw [if_pos ⟨hexponent, rfl⟩]
    rfl
  · right
    unfold integerPower
    rw [if_neg fun h => hexponent h.1, if_neg fun h => hexponent h.1]

namespace Operator

variable (negative : NegativeExponent) (text : Value → String) (operator : Operator) (a b : Value)

theorem applyNumbers_reject :
    (∃ exponent, operator.applyNumbers .reject a b =
        .error (.arithmetic (.negativeExponent exponent))) ∨
      operator.applyNumbers negative a b = operator.applyNumbers .reject a b := by
  -- Only the power of two integers asks whether negative exponents are rejected.
  cases a <;> cases b <;> try exact .inr rfl
  next base exponent =>
  cases operator with
  | add | subtract | multiply | divide => exact .inr rfl
  | _ =>
      simp only [applyNumbers, applyIntegers]
      rcases Arithmetic.integerPower_reject negative base exponent with herror | hsame
      · exact .inl ⟨exponent, by rw [herror]; rfl⟩
      · exact .inr (by rw [hsame])

/-- Rejecting negative exponents makes a difference for no other reason than a negative exponent. -/
theorem apply_reject :
    (∃ exponent, operator.apply .reject text a b =
        .error (.arithmetic (.negativeExponent exponent))) ∨
      operator.apply negative text a b = operator.apply .reject text a b := by
  cases operator with
  | less | greater | equal | notEqual => exact .inr rfl
  | add =>
      simp only [apply]
      split
      · exact .inr rfl
      · exact applyNumbers_reject negative add a b
  | _ => exact applyNumbers_reject negative _ a b

end Operator

namespace Likeness

variable {L : Likeness} {settings settings' : RunSettings} {fuel fuel' : Nat}
  {calls calls' : Calls}

/-! ## What may differ -/

/-- The second run may have other settings, other fuel and other functions. -/
structure Allows (L : Likeness) (settings settings' : RunSettings) (fuel fuel' : Nat) : Prop where
  rounds : fuel' = fuel ∨ fuel ≤ fuel' ∧ L.cuts .outOfFuel
  depth : settings'.maxCallDepth = settings.maxCallDepth ∨
    settings.maxCallDepth ≤ settings'.maxCallDepth ∧
      ∀ name, L.cuts (.failed (.callTooDeep settings.maxCallDepth name))
  negative : settings'.negativeExponent = settings.negativeExponent ∨
    settings.negativeExponent = .reject ∧
      ∀ exponent, L.cuts (.failed (.arithmetic (.negativeExponent exponent)))
  takes : ∀ {sink sink'} text, L.sinks sink sink' →
    sink'.refuses text = sink.refuses text ∧ L.sinks (sink.write text) (sink'.write text)
  header : ∀ {function function'}, L.functions function function' →
    function'.name = function.name ∧ function'.parameters = function.parameters
  body : ∀ {function function'}, L.functions function function' → ∀ calls,
    executeAll settings' fuel' calls function'.body =
      executeAll settings' fuel' calls function.body

/-! ## Expressions -/

theorem alike_operate (h : L.Allows settings settings' fuel fuel') (operator : Operator)
    (a b : Value) :
    L.Alike L.value (operate settings operator a b)
      (operate settings' operator (L.value a) (L.value b)) := by
  intro m m' hm
  have htext : ∀ a, m'.lists.text (L.value a) = m.lists.text a := by
    intro a
    rw [hm.lists]
    exact Lists.text_behind m.lists L.earlier a
  have hresult : ∀ {c}, operator.apply settings.negativeExponent m.lists.text a b = .ok c →
      L.value c = c :=
    fun hok => Value.shift_of_ne_list (Operator.apply_ne_list hok)
  unfold operate
  rw [value, value, Operator.apply_shift htext, Operator.overflows_shift]
  split
  · exact .error hm
  -- The second run may only accept an exponent for which the first one fails.
  have hnegative : (∃ halt, L.cuts halt ∧
        ofExcept (operator.apply settings.negativeExponent m.lists.text a b) m = .error halt m) ∨
      operator.apply settings'.negativeExponent m.lists.text a b =
        operator.apply settings.negativeExponent m.lists.text a b := by
    rcases h.negative with hsame | ⟨hreject, hcuts⟩
    · exact .inr (by rw [hsame])
    · rw [hreject]
      rcases Operator.apply_reject settings'.negativeExponent m.lists.text operator a b with
        ⟨exponent, herror⟩ | hsame
      · exact .inl ⟨_, hcuts exponent, by rw [herror]; rfl⟩
      · exact .inr hsame
  rcases hnegative with ⟨halt, hcut, hhalt⟩ | hsame
  · rw [hhalt]
    exact .cut hcut
  · rw [hsame]
    cases happly : operator.apply settings.negativeExponent m.lists.text a b with
    | error error => exact .error hm
    | ok c =>
        have hc : L.Ends L.value (.ok c m) (.ok (L.value c) m') := .ok hm
        rwa [hresult happly] at hc

theorem alike_elementOf (name : String) (id : ListId) (position : Value) :
    L.Alike L.value (elementOf name id position)
      (elementOf name (id + L.earlier.size) (L.value position)) := by
  unfold elementOf
  refine .bind (.itemsOf id) fun items => ?_
  rw [Array.size_map, value, Value.slot_shift]
  refine .bind .ofExcept_self fun slot => .pure ?_
  simp only [id_eq, Array.getD_eq_getD_getElem?, Array.getElem?_map]
  cases items[slot]? <;> rfl

mutual

theorem alike_evaluate (h : L.Allows settings settings' fuel fuel')
    (hcalls : L.AlikeCalls calls calls') : ∀ expression,
    L.Alike L.value (evaluate settings calls expression) (evaluate settings' calls' expression)
  | .literal literal _ => by
      unfold evaluate
      exact .pure (Value.shift_ofLiteral literal).symm
  | .group inner _ => by
      unfold evaluate
      exact alike_evaluate h hcalls inner
  | .binary operator left right _ => by
      unfold evaluate
      refine .bind (alike_evaluate h hcalls left) fun a => ?_
      split
      · rw [value, Value.truth_shift]
        refine .bind .ofExcept_self fun truth => ?_
        simp only [id_eq]
        split
        · exact .pure rfl
        · refine .bind (alike_evaluate h hcalls right) fun b => ?_
          rw [value, Value.truth_shift]
          exact .bind .ofExcept_self fun _ => .pure rfl
      · exact .bind (alike_evaluate h hcalls right) fun b => alike_operate h operator a b
  | .access name _ _ => by
      unfold evaluate
      exact .bind (.variableNamed name) fun _ => .pure rfl
  | .element name index _ _ => by
      unfold evaluate
      refine .bind (.variableNamed name) fun found => ?_
      simp only [holder, value, Value.listOf_shift]
      exact .bind .ofExcept fun list => .bind (alike_evaluate h hcalls index) fun position =>
        alike_elementOf name list position
  | .call name arguments _ _ => by
      unfold evaluate
      exact .bind (alike_evaluateAll h hcalls arguments) fun values => hcalls name values
  | .list elements _ => by
      unfold evaluate
      exact .bind (alike_evaluateAll h hcalls elements) fun values => .newList values

theorem alike_evaluateAll (h : L.Allows settings settings' fuel fuel')
    (hcalls : L.AlikeCalls calls calls') : ∀ expressions,
    L.Alike (·.map L.value) (evaluateAll settings calls expressions)
      (evaluateAll settings' calls' expressions)
  | [] => by
      unfold evaluateAll
      exact .pure rfl
  | expression :: expressions => by
      unfold evaluateAll
      exact .bind (alike_evaluate h hcalls expression) fun _ =>
        .bind (alike_evaluateAll h hcalls expressions) fun _ => .pure rfl

end

/-! ## Statements -/

theorem alike_condition (h : L.Allows settings settings' fuel fuel')
    (hcalls : L.AlikeCalls calls calls') (test : Expression) :
    L.Alike id (condition settings calls test) (condition settings' calls' test) := by
  unfold condition
  refine .bind (alike_evaluate h hcalls test) fun v => ?_
  rw [value, Value.truth_shift]
  exact .ofExcept_self

theorem alike_receiver (name : String) : L.Alike L.holder (receiver name) (receiver name) := by
  unfold receiver
  refine .bind (.variableNamed name) fun found => ?_
  cases hmutable : found.isMutable with
  | true =>
      simp only [holder, hmutable, if_true]
      exact .pure (by simp only [holder, hmutable])
  | false => simpa only [holder, hmutable] using .fail

/-- What an assignment of the second run is to change in place of what one of the first is. -/
def target (L : Likeness) : Target → Target
  | .whole name => .whole name
  | .slot name list position => .slot name (list + L.earlier.size) (L.value position)

theorem alike_locate (h : L.Allows settings settings' fuel fuel')
    (hcalls : L.AlikeCalls calls calls') (receiver : Expression) :
    L.Alike L.target (locate settings calls receiver) (locate settings' calls' receiver) := by
  cases receiver with
  | access name binding ty =>
      unfold locate
      exact .bind (alike_receiver name) fun _ => .pure rfl
  | element name index binding ty =>
      unfold locate
      refine .bind (alike_receiver name) fun found => ?_
      simp only [holder, value, Value.listOf_shift]
      exact .bind .ofExcept fun _ => .bind (alike_evaluate h hcalls index) fun _ => .pure rfl
  | _ =>
      unfold locate
      exact .fail

theorem alike_store (target : Target) (v : Value) :
    L.Alike id (store target v) (store (L.target target) (L.value v)) := by
  cases target with
  | whole name => exact .assign name v
  | slot name list position =>
      unfold store target
      refine .bind (.itemsOf list) fun items => ?_
      rw [Array.size_map, value, Value.slot_shift]
      exact .bind .ofExcept_self fun slot => .put list slot v

theorem alike_assignTo (h : L.Allows settings settings' fuel fuel')
    (hcalls : L.AlikeCalls calls calls') (receiver value : Expression) :
    L.Alike id (assignTo settings calls receiver value)
      (assignTo settings' calls' receiver value) := by
  unfold assignTo
  exact .bind (alike_locate h hcalls receiver) fun target =>
    .bind (alike_evaluate h hcalls value) fun v => alike_store target v

/-- When the first loop has fewer rounds, it is cut short for it. -/
theorem alike_repeatWhile {test test' : Run Bool} {body body' : Run Flow}
    (htest : L.Alike id test test') (hbody : L.Alike L.flow body body') :
    ∀ {rounds rounds' : Nat}, rounds' = rounds ∨ rounds ≤ rounds' ∧ L.cuts .outOfFuel →
      L.Alike L.flow (repeatWhile test body rounds) (repeatWhile test' body' rounds') := by
  intro rounds
  induction rounds with
  | zero =>
      rintro rounds' (rfl | ⟨-, hcut⟩)
      · exact .outOfFuel
      · exact .cut hcut fun m => ⟨m, rfl⟩
  | succ rounds ih =>
      intro rounds' hrounds
      obtain ⟨fewer, rfl⟩ : ∃ fewer, rounds' = fewer + 1 :=
        Nat.exists_eq_succ_of_ne_zero (by omega)
      have hfewer : fewer = rounds ∨ rounds ≤ fewer ∧ L.cuts .outOfFuel :=
        hrounds.imp Nat.succ.inj (And.imp_left Nat.le_of_succ_le_succ)
      unfold repeatWhile
      refine .bind htest fun holds => ?_
      simp only [id_eq]
      split
      · refine .bind hbody fun flow => ?_
        cases flow with
        | completed => exact ih hfewer
        | returned v => exact .pure rfl
      · exact .pure rfl

mutual

theorem alike_execute (h : L.Allows settings settings' fuel fuel')
    (hcalls : L.AlikeCalls calls calls') : ∀ statement,
    L.Alike L.flow (execute settings fuel calls statement)
      (execute settings' fuel' calls' statement)
  | .expression expression => by
      unfold execute
      exact .bind (alike_evaluate h hcalls expression) fun _ => .pure rfl
  | .declaration name _ none _ => by
      unfold execute
      exact .andThen (.define name true .nil) fun _ => .pure rfl
  | .declaration name _ (some value) _ => by
      unfold execute
      exact .bind (alike_evaluate h hcalls value) fun v => .andThen (.define name true v) fun _ =>
        .pure rfl
  | .assignment receiver value => by
      unfold execute
      exact .andThen (alike_assignTo h hcalls receiver value) fun _ => .pure rfl
  | .branch test thenBody elseBody => by
      unfold execute
      refine .bind (alike_condition h hcalls test) fun holds => ?_
      simp only [id_eq]
      split
      · exact .inBlock (alike_executeAll h hcalls thenBody)
      · exact .inBlock (alike_executeAll h hcalls elseBody)
  | .switch test cases => by
      unfold execute
      exact .bind (alike_evaluate h hcalls test) fun selector =>
        alike_executeCases h hcalls selector cases
  | .loop test body => by
      unfold execute
      exact alike_repeatWhile (alike_condition h hcalls test)
        (.inBlock (alike_executeAll h hcalls body)) h.rounds
  | .result value => by
      unfold execute
      exact .bind (alike_evaluate h hcalls value) fun _ => .pure rfl

theorem alike_executeAll (h : L.Allows settings settings' fuel fuel')
    (hcalls : L.AlikeCalls calls calls') : ∀ statements,
    L.Alike L.flow (executeAll settings fuel calls statements)
      (executeAll settings' fuel' calls' statements)
  | [] => by
      unfold executeAll
      exact .pure rfl
  | statement :: statements => by
      unfold executeAll
      refine .bind (alike_execute h hcalls statement) fun flow => ?_
      cases flow with
      | completed => exact alike_executeAll h hcalls statements
      | returned v => exact .pure rfl

theorem alike_executeCases (h : L.Allows settings settings' fuel fuel')
    (hcalls : L.AlikeCalls calls calls') (selector : Value) : ∀ cases,
    L.Alike L.flow (executeCases settings fuel calls selector cases)
      (executeCases settings' fuel' calls' (L.value selector) cases)
  | [] => by
      unfold executeCases
      exact .pure rfl
  | .mk none body :: _ => by
      unfold executeCases
      exact .inBlock (alike_executeAll h hcalls body)
  | .mk (some value) body :: cases => by
      unfold executeCases
      refine .bind (alike_evaluate h hcalls value) fun v => ?_
      rw [Likeness.value, Likeness.value, Value.order_shift]
      refine .bind .ofExcept_self fun order => ?_
      simp only [id_eq]
      split
      · exact .inBlock (alike_executeAll h hcalls body)
      · exact alike_executeCases h hcalls selector cases

end

/-! ## Calls -/

theorem alike_bindParameters : ∀ (parameters : List Parameter) (values : List Value),
    L.Alike id (bindParameters parameters values)
      (bindParameters parameters (values.map L.value))
  | [], _ => .pure rfl
  | _ :: _, [] => .pure rfl
  | parameter :: parameters, v :: values =>
      .andThen (.define parameter.name true v) fun _ => alike_bindParameters parameters values

theorem alike_invoke (h : L.Allows settings settings' fuel fuel')
    (hcalls : L.AlikeCalls calls calls') {home home' : RunScope} {function function' : Function}
    (hhome : L.Scopes home home') (hfunction : L.functions function function')
    (values : List Value) :
    L.Alike L.value (invoke settings fuel calls home function values)
      (invoke settings' fuel' calls' home' function' (values.map L.value)) := by
  unfold invoke
  rw [h.body hfunction, (h.header hfunction).2]
  refine .inCallee hhome (.andThen (alike_bindParameters function.parameters values) fun _ =>
    .bind (alike_executeAll h hcalls function.body) fun flow => ?_)
  cases flow <;> exact .pure rfl

theorem alike_printEach (h : L.Allows settings settings' fuel fuel') : ∀ texts : List String,
    L.Alike id (printEach texts) (printEach texts)
  | [] => .pure rfl
  | text :: texts => .andThen (.print h.takes text) fun _ => alike_printEach h texts

theorem alike_printAll (h : L.Allows settings settings' fuel fuel') : ∀ values : List Value,
    L.Alike id (printAll values) (printAll (values.map L.value))
  | [] => .pure rfl
  | v :: values =>
      .bind (.piecesOf v) fun pieces => .andThen (.andThen (alike_printEach h pieces) fun _ =>
        .print h.takes "\n") fun _ => alike_printAll h values

theorem alike_dispatch (h : L.Allows settings settings' fuel fuel')
    {invokes invokes' : RunScope → Function → List Value → Run Value} (name : String)
    (values : List Value)
    (hinvokes : ∀ {home home' function function'}, L.Scopes home home' →
      L.functions function function' →
      L.Alike L.value (invokes home function values)
        (invokes' home' function' (values.map L.value))) :
    L.Alike L.value (dispatch invokes name values)
      (dispatch invokes' name (values.map L.value)) := by
  intro m m' hm
  have hfound := hm.scope.lookupFunction name values.length
  simp only [dispatch, List.length_map]
  generalize m.scope.lookupFunction name values.length = found,
    m'.scope.lookupFunction name values.length = found' at hfound
  cases hfound with
  | none => exact .error hm
  | @some found found' hboth =>
      obtain ⟨hcallable, hhome⟩ := hboth
      obtain ⟨callable, home⟩ := found
      obtain ⟨callable', home'⟩ := found'
      refine Alike.andThen (.notify (.call name values.length)) (fun _ => ?_) m m' hm
      cases hcallable with
      | print => exact .bind (alike_printAll h values) fun _ => .pure rfl
      | function hfunction => exact hinvokes hhome hfunction

/-- When the first run has less room for calls, it is cut short for it. -/
theorem alike_callWithin (h : L.Allows settings settings' fuel fuel') : ∀ {room room' : Nat},
    (room' = room ∧ settings'.maxCallDepth = settings.maxCallDepth ∨
      room ≤ room' ∧ ∀ name, L.cuts (.failed (.callTooDeep settings.maxCallDepth name))) →
    L.AlikeCalls (callWithin settings fuel room) (callWithin settings' fuel' room') := by
  intro room
  induction room with
  | zero =>
      intro room' hroom name values
      rcases hroom with ⟨rfl, hdepth⟩ | ⟨-, hcuts⟩
      · unfold callWithin
        refine alike_dispatch h name values fun _ _ => ?_
        rw [hdepth]
        exact .fail
      · cases room' <;>
        · unfold callWithin
          exact alike_dispatch h name values fun _ _ => .cut (hcuts name) fun m => ⟨m, rfl⟩
  | succ room ih =>
      intro room' hroom name values
      obtain ⟨less, rfl⟩ : ∃ less, room' = less + 1 :=
        Nat.exists_eq_succ_of_ne_zero (by omega)
      have hless := hroom.imp (And.imp_left Nat.succ.inj) (And.imp_left Nat.le_of_succ_le_succ)
      exact alike_dispatch h name values fun hhome hfunction =>
        .counted (alike_invoke h (ih hless) hhome hfunction values)

theorem alike_call (h : L.Allows settings settings' fuel fuel') :
    L.AlikeCalls (call settings fuel) (call settings' fuel') := by
  intro name values m m' hm
  refine alike_callWithin h ?_ name values m m' hm
  unfold room
  rw [hm.active]
  rcases h.depth with hsame | ⟨hless, hcuts⟩
  · exact .inl ⟨by rw [hsame], hsame⟩
  · exact .inr ⟨Nat.sub_le_sub_right hless _, hcuts⟩

/-! ## Whole programs -/

theorem mainResult_value (v : Value) : mainResult (L.value v) = mainResult v := by
  cases v <;> rfl

theorem alike_bindFunctions (h : L.Allows settings settings' fuel fuel')
    {functions functions' : List Function}
    (hfunctions : List.Forall₂ L.functions functions functions') :
    L.Alike id (bindFunctions functions) (bindFunctions functions') := by
  induction hfunctions with
  | nil => exact .pure rfl
  | @cons function function' _ _ hfunction _ ih =>
      refine .andThen ?_ fun _ => ih
      intro m m' hm
      obtain ⟨hname, hparameters⟩ := h.header hfunction
      have hscope := hm.scope.defineFunction? function.name function.arity (.function hfunction)
      simp only [hname, Function.arity, hparameters] at hscope ⊢
      generalize m.scope.defineFunction? function.name _ (.function function) = defined,
        m'.scope.defineFunction? function.name _ (.function function') = defined' at hscope
      cases hscope with
      | none => exact .error hm
      | some hscope => exact .ok { hm with scope := hscope }

theorem alike_initialValue (h : L.Allows settings settings' fuel fuel') (global : Global) :
    L.Alike L.value (initialValue settings fuel global) (initialValue settings' fuel' global) := by
  unfold initialValue
  cases global.value with
  | none => exact .pure rfl
  | some expression => exact alike_evaluate h (alike_call h) expression

theorem alike_bindGlobals (h : L.Allows settings settings' fuel fuel') : ∀ globals : List Global,
    L.Alike id (bindGlobals settings fuel globals) (bindGlobals settings' fuel' globals)
  | [] => .pure rfl
  | global :: globals => by
      intro m m' hm
      rw [bindGlobals_cons, bindGlobals_cons]
      exact Alike.bind (alike_initialValue h global)
        (fun v => .andThen (.define global.name global.isMutable v) fun _ =>
          alike_bindGlobals h globals) m m' hm

/-- What a run does when the functions are bound. -/
theorem alike_behindFunctions (h : L.Allows settings settings' fuel fuel') (globals : List Global)
    (notice : RunNotice) :
    L.Alike id
      (do
        bindGlobals settings fuel globals
        notify notice
        let value ← call settings fuel "main" []
        ofExcept (mainResult value))
      (do
        bindGlobals settings' fuel' globals
        notify notice
        let value ← call settings' fuel' "main" []
        ofExcept (mainResult value)) := by
  refine .andThen (alike_bindGlobals h globals) fun _ => .andThen (.notify _) fun _ =>
    .bind (alike_call h "main" []) fun v => ?_
  rw [mainResult_value]
  exact .ofExcept_self

theorem alike_inside (h : L.Allows settings settings' fuel fuel') (globals : List Global)
    {functions functions' : List Function}
    (hfunctions : List.Forall₂ L.functions functions functions') :
    L.Alike id (Program.inside settings fuel ⟨globals, functions⟩)
      (Program.inside settings' fuel' ⟨globals, functions'⟩) := by
  unfold Program.inside
  rw [← hfunctions.length_eq]
  exact .andThen (alike_bindFunctions h hfunctions) fun _ => alike_behindFunctions h globals _

/-- Programs whose runs come to the same end have the same outcome, and leave machines that are
alike but for their scopes, unless the first run is cut short. -/
theorem outcomes_of_ends {program program' : Program} {m m' : Machine}
    (hends : L.Ends id (program.inside settings fuel { m with scope := .initial })
      (program'.inside settings' fuel' { m' with scope := .initial })) :
    (∃ halt, (program.execute settings fuel m).1 = halt.outcome ∧ L.cuts halt) ∨
      (program'.execute settings' fuel' m').1 = (program.execute settings fuel m).1 ∧
        L.Stores (program.execute settings fuel m).2 (program'.execute settings' fuel' m').2 := by
  generalize hleft : program.inside settings fuel _ = left,
    hright : program'.inside settings' fuel' _ = right at hends
  cases hends with
  | ok hafter =>
      rw [Program.execute_of_ok hleft, Program.execute_of_ok hright]
      exact .inr ⟨rfl, { hafter with }⟩
  | error hafter =>
      rw [Program.execute_of_error hleft, Program.execute_of_error hright]
      exact .inr ⟨rfl, { hafter with }⟩
  | @cut halt after _ hcut =>
      rw [Program.execute_of_error hleft]
      exact .inl ⟨halt, rfl, hcut⟩

section SameStores

variable {alike : Function → Function → Prop} {cuts : Halt → Prop}

/-- Runs from one machine that come to the same end do the same, unless the first is cut short. -/
theorem execute_of_ends {program program' : Program} {m : Machine}
    (hends : (sameStores alike cuts).Ends id
      (program.inside settings fuel { m with scope := .initial })
      (program'.inside settings' fuel' { m with scope := .initial })) :
    (∃ halt, (program.execute settings fuel m).1 = halt.outcome ∧ cuts halt) ∨
      program'.execute settings' fuel' m = program.execute settings fuel m := by
  refine (outcomes_of_ends hends).imp_right ?_
  rintro ⟨houtcome, hstores⟩
  exact Prod.ext houtcome
    (hstores.eq (Program.scope_execute.trans Program.scope_execute.symm))

/-- Runs from one machine of programs whose functions act the same do the same, unless the first is
cut short. -/
theorem execute_sameStores (h : (sameStores alike cuts).Allows settings settings' fuel fuel')
    (globals : List Global) {functions functions' : List Function}
    (hfunctions : List.Forall₂ alike functions functions') (m : Machine) :
    (∃ halt, (Program.execute settings fuel ⟨globals, functions⟩ m).1 = halt.outcome ∧
        cuts halt) ∨
      Program.execute settings' fuel' ⟨globals, functions'⟩ m =
        Program.execute settings fuel ⟨globals, functions⟩ m :=
  execute_of_ends (alike_inside h globals hfunctions _ _
    { stores_refl { m with scope := .initial } with scope := scopes_initial })

end SameStores

end Likeness

end TinyScript
