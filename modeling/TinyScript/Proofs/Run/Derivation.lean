import TinyScript.Proofs.Run.Visit
import TinyScript.Proofs.Sequencing

/-!
# How tasks finish, by rules

`Finishes` gives the rules by which a task finishes, one for each way in which the evaluator comes
to a result. It knows nothing of limits: neither of the rounds of loops nor of the room for calls.
`finishes_of_perform` says that whatever the evaluator finishes with is derived by the rules, so a
property of finished tasks is proved by one induction on derivations.
-/

namespace TinyScript.Run

/-- The rules by which tasks finish. -/
inductive Finishes (settings : RunSettings) : Finish
  | literal {value ty m} :
      Finishes settings (.expression (.literal value ty)) m (.value (.ofLiteral value)) m
  | group {inner ty m v m'} :
      Finishes settings (.expression inner) m (.value v) m' →
      Finishes settings (.expression (.group inner ty)) m (.value v) m'
  | decided {operator left right ty m m' a truth} :
      operator.isLogical = true →
      Finishes settings (.expression left) m (.value a) m' → a.truth = .ok truth →
      operator.isDecidedBy truth = true →
      Finishes settings (.expression (.binary operator left right ty)) m
        (.value (.boolean truth)) m'
  | undecided {operator left right ty m m₁ m' a b first truth} :
      operator.isLogical = true →
      Finishes settings (.expression left) m (.value a) m₁ → a.truth = .ok first →
      operator.isDecidedBy first = false →
      Finishes settings (.expression right) m₁ (.value b) m' → b.truth = .ok truth →
      Finishes settings (.expression (.binary operator left right ty)) m
        (.value (.boolean truth)) m'
  | operation {operator left right ty m m₁ m' a b c} :
      operator.isLogical = false →
      Finishes settings (.expression left) m (.value a) m₁ →
      Finishes settings (.expression right) m₁ (.value b) m' →
      operator.overflows a b = false →
      operator.apply settings.negativeExponent m'.lists.text a b = .ok c →
      Finishes settings (.expression (.binary operator left right ty)) m (.value c) m'
  | access {name binding ty m found} :
      m.scope.lookupVariable name = some found →
      Finishes settings (.expression (.access name binding ty)) m (.value found.value) m
  | element {name index binding ty m m' found id position slot} :
      m.scope.lookupVariable name = some found → found.value = .list id →
      Finishes settings (.expression index) m (.value position) m' →
      position.slot name (m'.lists.items id).size = .ok slot →
      Finishes settings (.expression (.element name index binding ty)) m
        (.value ((m'.lists.items id).getD slot .nil)) m'
  | print {name arguments binding ty m m₁ m' values home} :
      Finishes settings (.expressions arguments) m (.values values) m₁ →
      m₁.scope.lookupFunction name values.length = some (.print, home) →
      m' = { m₁ with sink := m'.sink, notices := m'.notices } →
      Finishes settings (.expression (.call name arguments binding ty)) m (.value .nil) m'
  | call {name arguments binding ty m m₁ m₂ m₃ values function home flow} :
      Finishes settings (.expressions arguments) m (.values values) m₁ →
      m₁.scope.lookupFunction name values.length = some (.function function, home) →
      bindParameters function.parameters values (m₁.callee home name values.length) = .ok () m₂ →
      Finishes settings (.statements function.body) m₂ (.flow flow) m₃ →
      Finishes settings (.expression (.call name arguments binding ty)) m (.value flow.value)
        (m₁.resume m₃)
  | list {elements ty m m' values} :
      Finishes settings (.expressions elements) m (.values values) m' →
      Finishes settings (.expression (.list elements ty)) m (.value (.list m'.lists.next))
        { m' with lists := m'.lists.add values.toArray }
  | noExpression {m} : Finishes settings (.expressions []) m (.values []) m
  | expressions {expression expressions m m₁ m' v vs} :
      Finishes settings (.expression expression) m (.value v) m₁ →
      Finishes settings (.expressions expressions) m₁ (.values vs) m' →
      Finishes settings (.expressions (expression :: expressions)) m (.values (v :: vs)) m'
  | whole {name binding ty m found} :
      m.scope.lookupVariable name = some found → found.isMutable = true →
      Finishes settings (.receiver (.access name binding ty)) m (.target (.whole name)) m
  | slot {name index binding ty m m' found id position} :
      m.scope.lookupVariable name = some found → found.isMutable = true →
      found.value = .list id →
      Finishes settings (.expression index) m (.value position) m' →
      Finishes settings (.receiver (.element name index binding ty)) m
        (.target (.slot name id position)) m'
  | effect {expression m v m'} :
      Finishes settings (.expression expression) m (.value v) m' →
      Finishes settings (.statement (.expression expression)) m (.flow .completed) m'
  | declaration {name typeName binding m scope} :
      m.scope.defineVariable? name ⟨true, .nil⟩ = some scope →
      Finishes settings (.statement (.declaration name typeName none binding)) m
        (.flow .completed) { m with scope }
  | initialised {name typeName value binding m m' v scope} :
      Finishes settings (.expression value) m (.value v) m' →
      m'.scope.defineVariable? name ⟨true, v⟩ = some scope →
      Finishes settings (.statement (.declaration name typeName (some value) binding)) m
        (.flow .completed) { m' with scope }
  | assignment {receiver value m m₁ m₂ m' target v} :
      Finishes settings (.receiver receiver) m (.target target) m₁ →
      Finishes settings (.expression value) m₁ (.value v) m₂ →
      store target v m₂ = .ok () m' →
      Finishes settings (.statement (.assignment receiver value)) m (.flow .completed) m'
  | branchThen {test thenBody elseBody m m₁ m' a flow} :
      Finishes settings (.expression test) m (.value a) m₁ → a.truth = .ok true →
      Finishes settings (.statements thenBody) m₁.enter (.flow flow) m' →
      Finishes settings (.statement (.branch test thenBody elseBody)) m (.flow flow) m'.leave
  | branchElse {test thenBody elseBody m m₁ m' a flow} :
      Finishes settings (.expression test) m (.value a) m₁ → a.truth = .ok false →
      Finishes settings (.statements elseBody) m₁.enter (.flow flow) m' →
      Finishes settings (.statement (.branch test thenBody elseBody)) m (.flow flow) m'.leave
  | switch {test cases m m₁ m' selector flow} :
      Finishes settings (.expression test) m (.value selector) m₁ →
      Finishes settings (.cases selector cases) m₁ (.flow flow) m' →
      Finishes settings (.statement (.switch test cases)) m (.flow flow) m'
  | loopEnd {test body m m' a} :
      Finishes settings (.expression test) m (.value a) m' → a.truth = .ok false →
      Finishes settings (.statement (.loop test body)) m (.flow .completed) m'
  | loopReturn {test body m m₁ m' a v} :
      Finishes settings (.expression test) m (.value a) m₁ → a.truth = .ok true →
      Finishes settings (.statements body) m₁.enter (.flow (.returned v)) m' →
      Finishes settings (.statement (.loop test body)) m (.flow (.returned v)) m'.leave
  | loopAgain {test body m m₁ m₂ m' a flow} :
      Finishes settings (.expression test) m (.value a) m₁ → a.truth = .ok true →
      Finishes settings (.statements body) m₁.enter (.flow .completed) m₂ →
      Finishes settings (.statement (.loop test body)) m₂.leave (.flow flow) m' →
      Finishes settings (.statement (.loop test body)) m (.flow flow) m'
  | result {value m v m'} :
      Finishes settings (.expression value) m (.value v) m' →
      Finishes settings (.statement (.result value)) m (.flow (.returned v)) m'
  | noStatement {m} : Finishes settings (.statements []) m (.flow .completed) m
  | statements {statement statements m m₁ m' flow} :
      Finishes settings (.statement statement) m (.flow .completed) m₁ →
      Finishes settings (.statements statements) m₁ (.flow flow) m' →
      Finishes settings (.statements (statement :: statements)) m (.flow flow) m'
  | returned {statement statements m m' v} :
      Finishes settings (.statement statement) m (.flow (.returned v)) m' →
      Finishes settings (.statements (statement :: statements)) m (.flow (.returned v)) m'
  | noCase {selector m} : Finishes settings (.cases selector []) m (.flow .completed) m
  | defaultCase {selector body cases m m' flow} :
      Finishes settings (.statements body) m.enter (.flow flow) m' →
      Finishes settings (.cases selector (.mk none body :: cases)) m (.flow flow) m'.leave
  | equalCase {selector value body cases m m₁ m' a flow} :
      Finishes settings (.expression value) m (.value a) m₁ → selector.order a = .ok .eq →
      Finishes settings (.statements body) m₁.enter (.flow flow) m' →
      Finishes settings (.cases selector (.mk (some value) body :: cases)) m (.flow flow) m'.leave
  | otherCase {selector value body cases m m₁ m' a order flow} :
      Finishes settings (.expression value) m (.value a) m₁ → selector.order a = .ok order →
      order ≠ .eq → Finishes settings (.cases selector cases) m₁ (.flow flow) m' →
      Finishes settings (.cases selector (.mk (some value) body :: cases)) m (.flow flow) m'

/-! ## What is evaluated is derived -/

/-- What a call of a name with given values has come to when it has ended well: it has printed the
values, or the body of a function has finished. -/
inductive Called (settings : RunSettings) (name : String) (values : List Value) (m : Machine) :
    Value → Machine → Prop
  | print {home m'} :
      m.scope.lookupFunction name values.length = some (.print, home) →
      m' = { m with sink := m'.sink, notices := m'.notices } →
      Called settings name values m .nil m'
  | function {function home m₁ flow m₂} :
      m.scope.lookupFunction name values.length = some (.function function, home) →
      bindParameters function.parameters values (m.callee home name values.length) = .ok () m₁ →
      Finishes settings (.statements function.body) m₁ (.flow flow) m₂ →
      Called settings name values m flow.value (m.resume m₂)

/-- Calls that end well are derived. -/
def CallFinishes (settings : RunSettings) (calls : Calls) : Prop :=
  ∀ {name values m v m'}, calls name values m = .ok v m' → Called settings name values m v m'

section Calls

variable {settings : RunSettings} {fuel : Nat} {calls : Calls}

mutual

theorem finishes_of_evaluate (hcalls : CallFinishes settings calls) :
    ∀ (expression : Expression) {m m' : Machine} {v : Value},
      evaluate settings calls expression m = .ok v m' →
        Finishes settings (.expression expression) m (.value v) m'
  | .literal value ty, m, m', v, h => by
      simp only [evaluate, pure_eq_ok] at h
      obtain ⟨rfl, rfl⟩ := h
      exact .literal
  | .group inner ty, m, m', v, h => .group (finishes_of_evaluate hcalls inner h)
  | .binary operator left right ty, m, m', v, h => by
      simp only [evaluate, bind_eq_ok] at h
      obtain ⟨a, m₁, hleft, h⟩ := h
      have left := finishes_of_evaluate hcalls left hleft
      cases logical : operator.isLogical with
      | true =>
          simp only [logical, if_true, bind_eq_ok, ofExcept_eq_ok] at h
          obtain ⟨first, _, ⟨hfirst, rfl⟩, h⟩ := h
          cases decided : operator.isDecidedBy first with
          | true =>
              simp only [decided, if_true, pure_eq_ok] at h
              obtain ⟨rfl, rfl⟩ := h
              exact .decided logical left hfirst decided
          | false =>
              simp only [decided, Bool.false_eq_true, if_false, bind_eq_ok, ofExcept_eq_ok,
                pure_eq_ok] at h
              obtain ⟨b, m₂, hright, truth, _, ⟨htruth, rfl⟩, rfl, rfl⟩ := h
              exact .undecided logical left hfirst decided
                (finishes_of_evaluate hcalls right hright) htruth
      | false =>
          simp only [logical, Bool.false_eq_true, if_false, bind_eq_ok, operate_eq_ok] at h
          obtain ⟨b, m₂, hright, hfits, hresult, rfl⟩ := h
          exact .operation logical left (finishes_of_evaluate hcalls right hright) hfits hresult
  | .access name binding ty, m, m', v, h => by
      simp only [evaluate, bind_eq_ok, variableNamed_eq_ok, pure_eq_ok] at h
      obtain ⟨found, _, ⟨hfound, rfl⟩, rfl, rfl⟩ := h
      exact .access hfound
  | .element name index binding ty, m, m', v, h => by
      simp only [evaluate, elementOf, bind_eq_ok, variableNamed_eq_ok, ofExcept_eq_ok, itemsOf,
        pure_eq_ok] at h
      obtain ⟨found, _, ⟨hfound, rfl⟩, id, _, ⟨hid, rfl⟩, position, m₁, hindex, items, _, hitems,
        slot, _, ⟨hslot, rfl⟩, rfl, rfl⟩ := h
      cases hitems
      exact .element hfound (Value.listOf_eq_ok.mp hid)
        (finishes_of_evaluate hcalls index hindex) hslot
  | .call name arguments binding ty, m, m', v, h => by
      simp only [evaluate, bind_eq_ok] at h
      obtain ⟨values, m₁, harguments, h⟩ := h
      have arguments := finishes_of_evaluateAll hcalls arguments harguments
      cases hcalls h with
      | print hfound hafter => exact .print arguments hfound hafter
      | function hfound hbound hbody => exact .call arguments hfound hbound hbody
  | .list elements ty, m, m', v, h => by
      simp only [evaluate, bind_eq_ok, newList] at h
      obtain ⟨values, m₁, helements, h⟩ := h
      cases h
      exact .list (finishes_of_evaluateAll hcalls elements helements)

theorem finishes_of_evaluateAll (hcalls : CallFinishes settings calls) :
    ∀ (expressions : List Expression) {m m' : Machine} {values : List Value},
      evaluateAll settings calls expressions m = .ok values m' →
        Finishes settings (.expressions expressions) m (.values values) m'
  | [], m, m', values, h => by
      simp only [evaluateAll, pure_eq_ok] at h
      obtain ⟨rfl, rfl⟩ := h
      exact .noExpression
  | expression :: expressions, m, m', values, h => by
      simp only [evaluateAll, bind_eq_ok, pure_eq_ok] at h
      obtain ⟨v, m₁, hv, vs, m₂, hvs, rfl, rfl⟩ := h
      exact .expressions (finishes_of_evaluate hcalls expression hv)
        (finishes_of_evaluateAll hcalls expressions hvs)

end

theorem finishes_of_locate (hcalls : CallFinishes settings calls)
    {target : Target} {m m' : Machine} : ∀ (receiver : Expression),
      locate settings calls receiver m = .ok target m' →
        Finishes settings (.receiver receiver) m (.target target) m' := by
  intro receiver h
  cases receiver with
  | access name binding ty =>
      simp only [locate, bind_eq_ok, receiver_eq_ok, pure_eq_ok] at h
      obtain ⟨found, _, ⟨hfound, hmutable, rfl⟩, rfl, rfl⟩ := h
      exact .whole hfound hmutable
  | element name index binding ty =>
      simp only [locate, bind_eq_ok, receiver_eq_ok, ofExcept_eq_ok, pure_eq_ok,
        Value.listOf_eq_ok] at h
      obtain ⟨found, _, ⟨hfound, hmutable, rfl⟩, id, _, ⟨hid, rfl⟩, position, m₁, hindex, rfl,
        rfl⟩ := h
      exact .slot hfound hmutable hid (finishes_of_evaluate hcalls index hindex)
  | _ => exact absurd h fail_ne_ok

theorem finishes_of_condition (hcalls : CallFinishes settings calls)
    {test : Expression} {truth : Bool} {m m' : Machine}
    (h : condition settings calls test m = .ok truth m') :
    ∃ a, Finishes settings (.expression test) m (.value a) m' ∧ a.truth = .ok truth := by
  simp only [condition, bind_eq_ok, ofExcept_eq_ok] at h
  obtain ⟨a, _, htest, htruth, rfl⟩ := h
  exact ⟨a, finishes_of_evaluate hcalls test htest, htruth⟩

/-- A loop that has come to its end within its rounds is derived, given that its body is. -/
theorem finishes_of_repeatWhile (hcalls : CallFinishes settings calls)
    {test : Expression} {body : List Statement}
    (hbody : ∀ {m m' : Machine} {flow : Flow},
      executeAll settings fuel calls body m = .ok flow m' →
        Finishes settings (.statements body) m (.flow flow) m') :
    ∀ (rounds : Nat) {m m' : Machine} {flow : Flow},
      repeatWhile (condition settings calls test)
          (inBlock (executeAll settings fuel calls body)) rounds m = .ok flow m' →
        Finishes settings (.statement (.loop test body)) m (.flow flow) m' := by
  intro rounds
  induction rounds with
  | zero =>
      intro m m' flow h
      cases h
  | succ rounds ih =>
      intro m m' flow h
      simp only [repeatWhile, bind_eq_ok] at h
      obtain ⟨truth, m₁, htest, h⟩ := h
      obtain ⟨a, test, htruth⟩ := finishes_of_condition hcalls htest
      cases truth with
      | false =>
          simp only [Bool.false_eq_true, if_false, pure_eq_ok] at h
          obtain ⟨rfl, rfl⟩ := h
          exact .loopEnd test htruth
      | true =>
          simp only [if_true, bind_eq_ok, inBlock_eq_ok] at h
          obtain ⟨first, _, ⟨after, hround, rfl⟩, h⟩ := h
          cases first with
          | completed => exact .loopAgain test htruth (hbody hround) (ih h)
          | returned v =>
              simp only [pure_eq_ok] at h
              obtain ⟨rfl, rfl⟩ := h
              exact .loopReturn test htruth (hbody hround)

mutual

theorem finishes_of_execute (hcalls : CallFinishes settings calls) :
    ∀ (statement : Statement) {m m' : Machine} {flow : Flow},
      execute settings fuel calls statement m = .ok flow m' →
        Finishes settings (.statement statement) m (.flow flow) m'
  | .expression expression, m, m', flow, h => by
      simp only [execute, bind_eq_ok, pure_eq_ok] at h
      obtain ⟨v, _, hv, rfl, rfl⟩ := h
      exact .effect (finishes_of_evaluate hcalls expression hv)
  | .declaration name typeName none binding, m, m', flow, h => by
      simp only [execute, bind_eq_ok, define_eq_ok, pure_eq_ok] at h
      obtain ⟨_, _, ⟨scope, hscope, rfl⟩, rfl, rfl⟩ := h
      exact .declaration hscope
  | .declaration name typeName (some value) binding, m, m', flow, h => by
      simp only [execute, bind_eq_ok, define_eq_ok, pure_eq_ok] at h
      obtain ⟨v, m₁, hv, _, _, ⟨scope, hscope, rfl⟩, rfl, rfl⟩ := h
      exact .initialised (finishes_of_evaluate hcalls value hv) hscope
  | .assignment receiver value, m, m', flow, h => by
      simp only [execute, assignTo, bind_eq_ok, pure_eq_ok] at h
      obtain ⟨_, _, ⟨target, m₁, htarget, v, m₂, hv, hstore⟩, rfl, rfl⟩ := h
      exact .assignment (finishes_of_locate hcalls receiver htarget)
        (finishes_of_evaluate hcalls value hv) hstore
  | .branch test thenBody elseBody, m, m', flow, h => by
      simp only [execute, bind_eq_ok] at h
      obtain ⟨truth, m₁, htest, h⟩ := h
      obtain ⟨a, test, htruth⟩ := finishes_of_condition hcalls htest
      cases truth with
      | true =>
          simp only [if_true, inBlock_eq_ok] at h
          obtain ⟨after, hbody, rfl⟩ := h
          exact .branchThen test htruth (finishes_of_executeAll hcalls thenBody hbody)
      | false =>
          simp only [Bool.false_eq_true, if_false, inBlock_eq_ok] at h
          obtain ⟨after, hbody, rfl⟩ := h
          exact .branchElse test htruth (finishes_of_executeAll hcalls elseBody hbody)
  | .switch test cases, m, m', flow, h => by
      simp only [execute, bind_eq_ok] at h
      obtain ⟨selector, m₁, htest, h⟩ := h
      exact .switch (finishes_of_evaluate hcalls test htest)
        (finishes_of_executeCases hcalls cases h)
  | .loop test body, m, m', flow, h =>
      finishes_of_repeatWhile hcalls (finishes_of_executeAll hcalls body) fuel h
  | .result value, m, m', flow, h => by
      simp only [execute, bind_eq_ok, pure_eq_ok] at h
      obtain ⟨v, _, hv, rfl, rfl⟩ := h
      exact .result (finishes_of_evaluate hcalls value hv)

theorem finishes_of_executeAll (hcalls : CallFinishes settings calls) :
    ∀ (statements : List Statement) {m m' : Machine} {flow : Flow},
      executeAll settings fuel calls statements m = .ok flow m' →
        Finishes settings (.statements statements) m (.flow flow) m'
  | [], m, m', flow, h => by
      simp only [executeAll, pure_eq_ok] at h
      obtain ⟨rfl, rfl⟩ := h
      exact .noStatement
  | statement :: statements, m, m', flow, h => by
      simp only [executeAll, bind_eq_ok] at h
      obtain ⟨first, m₁, hfirst, h⟩ := h
      cases first with
      | completed =>
          exact .statements (finishes_of_execute hcalls statement hfirst)
            (finishes_of_executeAll hcalls statements h)
      | returned v =>
          simp only [pure_eq_ok] at h
          obtain ⟨rfl, rfl⟩ := h
          exact .returned (finishes_of_execute hcalls statement hfirst)

theorem finishes_of_executeCases (hcalls : CallFinishes settings calls) {selector : Value} :
    ∀ (cases : List Case) {m m' : Machine} {flow : Flow},
      executeCases settings fuel calls selector cases m = .ok flow m' →
        Finishes settings (.cases selector cases) m (.flow flow) m'
  | [], m, m', flow, h => by
      simp only [executeCases, pure_eq_ok] at h
      obtain ⟨rfl, rfl⟩ := h
      exact .noCase
  | .mk none body :: cases, m, m', flow, h => by
      simp only [executeCases, inBlock_eq_ok] at h
      obtain ⟨after, hbody, rfl⟩ := h
      exact .defaultCase (finishes_of_executeAll hcalls body hbody)
  | .mk (some value) body :: cases, m, m', flow, h => by
      simp only [executeCases, bind_eq_ok, ofExcept_eq_ok] at h
      obtain ⟨a, m₁, hvalue, order, _, ⟨horder, rfl⟩, h⟩ := h
      have value := finishes_of_evaluate hcalls value hvalue
      split at h
      · next equal =>
          simp only [inBlock_eq_ok] at h
          obtain ⟨after, hbody, rfl⟩ := h
          subst equal
          exact .equalCase value horder (finishes_of_executeAll hcalls body hbody)
      · next different =>
          exact .otherCase value horder different (finishes_of_executeCases hcalls cases h)

end

end Calls

/-! ## Calls within their limit -/

/-- Calls as the evaluator makes them: from outside of all functions, or with some room left. -/
inductive Ordinary (settings : RunSettings) (fuel : Nat) : Calls → Prop
  | outermost : Ordinary settings fuel (call settings fuel)
  | within (room : Nat) : Ordinary settings fuel (callWithin settings fuel room)

theorem Ordinary.deeper {calls inner : Calls} {m : Machine}
    (hdeeper : Deeper settings fuel calls m inner) : Ordinary settings fuel inner := by
  cases hdeeper with
  | within => exact .within _
  | outermost => exact .within _

theorem print_eq_ok {text : String} {m m' : Machine} {u : Unit} (h : print text m = .ok u m') :
    m' = { m with sink := m'.sink } := by
  simp only [print] at h
  split at h
  · exact absurd h fail_ne_ok
  · cases h
    rfl

theorem printEach_eq_ok : ∀ {texts : List String} {m m' : Machine} {u : Unit},
    printEach texts m = .ok u m' → m' = { m with sink := m'.sink } := by
  intro texts
  induction texts with
  | nil =>
      intro m m' u h
      simp only [printEach, pure_eq_ok] at h
      rw [← h.2]
  | cons text texts ih =>
      intro m m' u h
      obtain ⟨_, m₁, hfirst, hrest⟩ := bind_eq_ok.mp h
      rw [ih hrest, print_eq_ok hfirst]

/-- Printing changes nothing but the sink. -/
theorem printAll_eq_ok : ∀ {values : List Value} {m m' : Machine} {u : Unit},
    printAll values m = .ok u m' → m' = { m with sink := m'.sink } := by
  intro values
  induction values with
  | nil =>
      intro m m' u h
      simp only [printAll, pure_eq_ok] at h
      rw [← h.2]
  | cons value values ih =>
      intro m m' u h
      simp only [printAll, printLine, bind_eq_ok, piecesOf] at h
      obtain ⟨pieces, _, hpieces, _, m₂, ⟨_, m₁, hfirst, hsecond⟩, hrest⟩ := h
      cases hpieces
      rw [ih hrest, print_eq_ok hsecond, printEach_eq_ok hfirst]

variable {settings : RunSettings} {fuel : Nat}

/-- The body of a call of a function, its frame and its place in the count around it. -/
theorem counted_invoke_eq_ok {calls : Calls} {home : RunScope} {function : Function} {name : String}
    {values : List Value} {m m' : Machine} {v : Value}
    (h : counted (invoke settings fuel calls home function values)
      { m with notices := .call name values.length :: m.notices } = .ok v m') :
    ∃ m₁ flow m₂,
      bindParameters function.parameters values (m.callee home name values.length) = .ok () m₁ ∧
      executeAll settings fuel calls function.body m₁ = .ok flow m₂ ∧
      v = flow.value ∧ m' = m.resume m₂ := by
  simp only [counted, invoke, inCallee] at h
  split at h
  · next v' after hcallee =>
      cases h
      split at hcallee
      · next v'' after' hbody =>
          cases hcallee
          simp only [bind_eq_ok] at hbody
          obtain ⟨_, m₁, hbound, flow, m₂, hflow, hvalue⟩ := hbody
          refine ⟨m₁, flow, m₂, hbound, hflow, ?_⟩
          cases flow <;> obtain ⟨rfl, rfl⟩ := pure_eq_ok.mp hvalue <;> exact ⟨rfl, rfl⟩
      · cases hcallee
  · cases h

/-- A call that ends well has printed its arguments or invoked a function of the program. -/
theorem dispatch_eq_ok {invokeFunction : RunScope → Function → List Value → Run Value}
    {name : String} {values : List Value} {m m' : Machine} {v : Value}
    (h : dispatch invokeFunction name values m = .ok v m') :
    (∃ home, m.scope.lookupFunction name values.length = some (.print, home) ∧ v = .nil ∧
        m' = { m with sink := m'.sink, notices := m'.notices }) ∨
      ∃ home function,
        m.scope.lookupFunction name values.length = some (.function function, home) ∧
        invokeFunction home function values
          { m with notices := .call name values.length :: m.notices } = .ok v m' := by
  unfold dispatch at h
  cases found : m.scope.lookupFunction name values.length with
  | none =>
      simp only [found] at h
      exact absurd h fail_ne_ok
  | some entry =>
      obtain ⟨callable, home⟩ := entry
      simp only [found, bind_eq_ok, notify] at h
      obtain ⟨_, m₁, hnotice, h⟩ := h
      cases hnotice
      cases callable with
      | print =>
          simp only [bind_eq_ok, pure_eq_ok] at h
          obtain ⟨_, m₂, hprint, rfl, rfl⟩ := h
          exact .inl ⟨home, rfl, rfl, by rw [printAll_eq_ok hprint]⟩
      | function function => exact .inr ⟨home, function, rfl, h⟩

/-- A call with so much room that ends well has printed or run the body of a function. The
induction is on the room: calls in the body have less of it. -/
theorem callFinishes_callWithin :
    ∀ room, CallFinishes settings (callWithin settings fuel room) := by
  intro room
  induction room with
  | zero =>
      intro name values m v m' h
      rw [callWithin] at h
      rcases dispatch_eq_ok h with ⟨home, found, rfl, hprinted⟩ | ⟨home, function, -, h⟩
      · exact .print found hprinted
      · exact absurd h fail_ne_ok
  | succ room ih =>
      intro name values m v m' h
      rw [callWithin] at h
      rcases dispatch_eq_ok h with ⟨home, found, rfl, hprinted⟩ | ⟨home, function, found, h⟩
      · exact .print found hprinted
      · obtain ⟨m₁, flow, m₂, hbound, hflow, rfl, rfl⟩ := counted_invoke_eq_ok h
        exact .function found hbound (finishes_of_executeAll ih function.body hflow)

theorem Ordinary.callFinishes {calls : Calls} (ordinary : Ordinary settings fuel calls) :
    CallFinishes settings calls := by
  cases ordinary with
  | outermost => exact fun h => callFinishes_callWithin _ h
  | within room => exact callFinishes_callWithin room

/-- Whatever the evaluator finishes with is derived by the rules. -/
theorem finishes_of_perform {calls : Calls} (ordinary : Ordinary settings fuel calls) {task : Task}
    {m m' : Machine} {product : Product} (h : performs settings fuel calls task m product m') :
    Finishes settings task m product m' := by
  have hcalls : CallFinishes settings calls := ordinary.callFinishes
  cases task with
  | expression expression =>
      simp only [performs, perform, map_eq_ok] at h
      obtain ⟨v, h, rfl⟩ := h
      exact finishes_of_evaluate hcalls expression h
  | expressions expressions =>
      simp only [performs, perform, map_eq_ok] at h
      obtain ⟨vs, h, rfl⟩ := h
      exact finishes_of_evaluateAll hcalls expressions h
  | receiver receiver =>
      simp only [performs, perform, map_eq_ok] at h
      obtain ⟨target, h, rfl⟩ := h
      exact finishes_of_locate hcalls receiver h
  | statement statement =>
      simp only [performs, perform, map_eq_ok] at h
      obtain ⟨flow, h, rfl⟩ := h
      exact finishes_of_execute hcalls statement h
  | statements statements =>
      simp only [performs, perform, map_eq_ok] at h
      obtain ⟨flow, h, rfl⟩ := h
      exact finishes_of_executeAll hcalls statements h
  | cases selector cases =>
      simp only [performs, perform, map_eq_ok] at h
      obtain ⟨flow, h, rfl⟩ := h
      exact finishes_of_executeCases hcalls cases h

end TinyScript.Run
