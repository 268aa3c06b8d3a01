import TinyScript.Proofs.Run.Derivation

/-!
# Where failures come from

A task ends badly by itself (`Raises`) or because a part of it does. `origin_of_failure` says that
every bad end of a task, be it a failure or not, is raised by some task that is visited in the
course of it, so to rule one out it is enough to look at the tasks that can raise it.
-/

namespace TinyScript

/-- The variable that an access or a receiver names. -/
def Expression.variable? : Expression → Option String
  | access name _ _ | element name _ _ _ => some name
  | _ => none

namespace Run

/-- The variable that a task looks up first. -/
def Task.variable? : Task → Option String
  | expression whole | receiver whole => whole.variable?
  | _ => none

/-! ## Failures of their own -/

/-- A call of a name with given values ends badly before it comes to the body of a function. -/
inductive CallRaises (settings : RunSettings) (name : String) (values : List Value) (m : Machine) :
    Halt → Prop
  | undefined :
      m.scope.lookupFunction name values.length = none →
      CallRaises settings name values m (.failed (.undefinedFunction name values.length))
  | tooDeep : CallRaises settings name values m (.failed (.callTooDeep settings.maxCallDepth name))
  | refused : CallRaises settings name values m (.failed .printRefused)
  | parameters {function home halt m'} :
      m.scope.lookupFunction name values.length = some (.function function, home) →
      bindParameters function.parameters values (m.callee home name values.length) =
        .error halt m' →
      CallRaises settings name values m halt

/-- A task ends badly, although the parts that it has gone on to have finished. -/
inductive Raises (settings : RunSettings) (fuel : Nat) (finish : Finish) :
    Task → Machine → Halt → Prop
  | leftTruth {operator left right ty m m₁ a error} :
      operator.isLogical = true →
      finish (.expression left) m (.value a) m₁ → a.truth = .error error →
      Raises settings fuel finish (.expression (.binary operator left right ty)) m (.failed error)
  | rightTruth {operator left right ty m m₁ m₂ a b truth error} :
      operator.isLogical = true →
      finish (.expression left) m (.value a) m₁ → a.truth = .ok truth →
      operator.isDecidedBy truth = false →
      finish (.expression right) m₁ (.value b) m₂ → b.truth = .error error →
      Raises settings fuel finish (.expression (.binary operator left right ty)) m (.failed error)
  | operation {operator left right ty m m₁ m₂ a b error} :
      operator.isLogical = false →
      finish (.expression left) m (.value a) m₁ → finish (.expression right) m₁ (.value b) m₂ →
      operator.overflows a b = false →
      operator.apply settings.negativeExponent m₂.lists.text a b = .error error →
      Raises settings fuel finish (.expression (.binary operator left right ty)) m (.failed error)
  | overflow {operator left right ty m m₁ m₂ a b} :
      operator.isLogical = false →
      finish (.expression left) m (.value a) m₁ → finish (.expression right) m₁ (.value b) m₂ →
      operator.overflows a b = true →
      Raises settings fuel finish (.expression (.binary operator left right ty)) m .scaleOverflow
  | undeclared {expression name m} :
      expression.variable? = some name → m.scope.lookupVariable name = none →
      Raises settings fuel finish (.expression expression) m (.failed (.undeclared name))
  | notList {name index binding ty m found error} :
      m.scope.lookupVariable name = some found → found.value.listOf name = .error error →
      Raises settings fuel finish (.expression (.element name index binding ty)) m (.failed error)
  | slot {name index binding ty m m₁ found id position error} :
      m.scope.lookupVariable name = some found → found.value = .list id →
      finish (.expression index) m (.value position) m₁ →
      position.slot name (m₁.lists.items id).size = .error error →
      Raises settings fuel finish (.expression (.element name index binding ty)) m (.failed error)
  | call {name arguments binding ty m m₁ values halt} :
      finish (.expressions arguments) m (.values values) m₁ →
      CallRaises settings name values m₁ halt →
      Raises settings fuel finish (.expression (.call name arguments binding ty)) m halt
  | receiverUndeclared {receiver name m} :
      receiver.variable? = some name → m.scope.lookupVariable name = none →
      Raises settings fuel finish (.receiver receiver) m (.failed (.undeclared name))
  | immutable {receiver name m} :
      receiver.variable? = some name →
      Raises settings fuel finish (.receiver receiver) m (.failed (.immutableReceiver name))
  | receiverNotList {name index binding ty m found error} :
      m.scope.lookupVariable name = some found → found.value.listOf name = .error error →
      Raises settings fuel finish (.receiver (.element name index binding ty)) m (.failed error)
  | receiverWithoutName {receiver m} :
      receiver.variable? = none →
      Raises settings fuel finish (.receiver receiver) m (.failed .receiverWithoutName)
  | redeclared {name typeName binding m} :
      m.scope.defineVariable? name ⟨true, .nil⟩ = none →
      Raises settings fuel finish (.statement (.declaration name typeName none binding)) m
        (.failed (.variableRedefined name))
  | redeclaredInitialised {name typeName value binding m m₁ v} :
      finish (.expression value) m (.value v) m₁ →
      m₁.scope.defineVariable? name ⟨true, v⟩ = none →
      Raises settings fuel finish (.statement (.declaration name typeName (some value) binding)) m
        (.failed (.variableRedefined name))
  | store {receiver value m m₁ m₂ name id position v error} :
      finish (.receiver receiver) m (.target (.slot name id position)) m₁ →
      finish (.expression value) m₁ (.value v) m₂ →
      position.slot name (m₂.lists.items id).size = .error error →
      Raises settings fuel finish (.statement (.assignment receiver value)) m (.failed error)
  | branchTruth {test thenBody elseBody m m₁ a error} :
      finish (.expression test) m (.value a) m₁ → a.truth = .error error →
      Raises settings fuel finish (.statement (.branch test thenBody elseBody)) m (.failed error)
  | loopTruth {test body m rounds m₁ m₂ a error} :
      Rounds finish test body m rounds m₁ → rounds < fuel →
      finish (.expression test) m₁ (.value a) m₂ → a.truth = .error error →
      Raises settings fuel finish (.statement (.loop test body)) m (.failed error)
  | exhausted {test body m m₁} :
      Rounds finish test body m fuel m₁ →
      Raises settings fuel finish (.statement (.loop test body)) m .outOfFuel
  | order {selector value body cases m m₁ a error} :
      finish (.expression value) m (.value a) m₁ → selector.order a = .error error →
      Raises settings fuel finish (.cases selector (.mk (some value) body :: cases)) m
        (.failed error)

/-! ## Origins -/

/-- A bad end that some task visited in the course of a task raises. -/
def Origin (settings : RunSettings) (fuel : Nat) (calls : Calls) (task : Task) (m : Machine)
    (halt : Halt) : Prop :=
  ∀ site, ∃ visit, Visits settings fuel ⟨calls, site, task, m⟩ visit ∧
    Raises settings fuel (performs settings fuel visit.calls) visit.task visit.machine halt

section Calls

variable {settings : RunSettings} {fuel : Nat} {calls : Calls}

theorem Origin.here {task : Task} {m : Machine} {halt : Halt}
    (h : Raises settings fuel (performs settings fuel calls) task m halt) :
    Origin settings fuel calls task m halt :=
  fun _ => ⟨_, .here, h⟩

theorem Origin.part {task task' : Task} {m m' : Machine} {number : Nat} {halt : Halt}
    (h : Origin settings fuel calls task' m' halt)
    (hstep : Step fuel (performs settings fuel calls) task m number task' m') :
    Origin settings fuel calls task m halt := by
  intro site
  obtain ⟨visit, hvisit, hraises⟩ := h (site.part number)
  exact ⟨visit, Visits.trans (.part .here hstep) hvisit, hraises⟩

theorem Origin.body {name : String} {arguments : List Expression} {binding : Option Signature}
    {ty : Option Ty} {m m₁ m₂ : Machine} {values : List Value} {inner : Calls}
    {function : Function} {halt : Halt}
    (h : Origin settings fuel inner (.statements function.body) m₂ halt)
    (hvalues : evaluateAll settings calls arguments m = .ok values m₁)
    (henters : Enters settings fuel calls name values m₁ inner function m₂) :
    Origin settings fuel calls (.expression (.call name arguments binding ty)) m halt := by
  intro site
  obtain ⟨visit, hvisit, hraises⟩ := h (.body function.name function.arity)
  exact ⟨visit, Visits.trans (.body .here hvalues henters) hvisit, hraises⟩

/-- A call that ends badly does so before any body, or it has entered a body that ends badly. -/
def CallOrigin (settings : RunSettings) (fuel : Nat) (calls : Calls) : Prop :=
  ∀ {name values m halt m'}, calls name values m = .error halt m' →
    CallRaises settings name values m halt ∨
      ∃ inner function m₁, Enters settings fuel calls name values m inner function m₁ ∧
        Origin settings fuel inner (.statements function.body) m₁ halt

mutual

theorem origin_of_evaluate (hcalls : CallOrigin settings fuel calls) :
    ∀ (expression : Expression) {m m' : Machine} {halt : Halt},
      evaluate settings calls expression m = .error halt m' →
        Origin settings fuel calls (.expression expression) m halt
  | .literal value ty, m, m', halt, h => absurd h pure_ne_error
  | .group inner ty, m, m', halt, h => (origin_of_evaluate hcalls inner h).part .group
  | .binary operator left right ty, m, m', halt, h => by
      simp only [evaluate, bind_eq_error] at h
      rcases h with h | ⟨a, m₁, hleft, h⟩
      · exact (origin_of_evaluate hcalls left h).part .left
      have left : performs settings fuel calls (.expression left) m (.value a) m₁ :=
        performs_expression.mpr hleft
      cases logical : operator.isLogical with
      | true =>
          simp only [logical, if_true, bind_eq_error, ofExcept_eq_error,
            ofExcept_eq_ok] at h
          rcases h with ⟨_, htruth, rfl, -⟩ | ⟨first, _, ⟨hfirst, rfl⟩, h⟩
          · exact .here (.leftTruth logical left htruth)
          cases decided : operator.isDecidedBy first with
          | true =>
              simp only [decided, if_true] at h
              exact absurd h pure_ne_error
          | false =>
              simp only [decided, Bool.false_eq_true, if_false, bind_eq_error, ofExcept_eq_error,
                pure_ne_error, and_false, exists_false, or_false] at h
              rcases h with h | ⟨b, m₂, hright, _, htruth, rfl, -⟩
              · exact (origin_of_evaluate hcalls right h).part
                  (.right left fun _ => ⟨first, hfirst, decided⟩)
              · exact .here (.rightTruth logical left hfirst decided
                  (performs_expression.mpr hright) htruth)
      | false =>
          simp only [logical, Bool.false_eq_true, if_false, bind_eq_error, operate_eq_error] at h
          rcases h with h | ⟨b, m₂, hright, ⟨hoverflows, rfl, -⟩ | ⟨hfits, _, hresult, rfl, -⟩⟩
          · exact (origin_of_evaluate hcalls right h).part
              (.right left fun isLogical => by simp [logical] at isLogical)
          · exact .here (.overflow logical left (performs_expression.mpr hright) hoverflows)
          · exact .here (.operation logical left (performs_expression.mpr hright) hfits hresult)
  | .access name binding ty, m, m', halt, h => by
      simp only [evaluate, bind_eq_error, variableNamed_eq_error, pure_ne_error, and_false,
        exists_false, or_false] at h
      obtain ⟨hnone, rfl, -⟩ := h
      exact .here (.undeclared rfl hnone)
  | .element name index binding ty, m, m', halt, h => by
      simp only [evaluate, elementOf, itemsOf, bind_eq_error, variableNamed_eq_error,
        variableNamed_eq_ok, ofExcept_eq_error, ofExcept_eq_ok, pure_ne_error, and_false,
        exists_false, or_false, Value.listOf_eq_ok, reduceCtorEq,
        false_or] at h
      rcases h with ⟨hnone, rfl, -⟩ | ⟨found, _, ⟨hfound, rfl⟩, ⟨_, hlist, rfl, -⟩ |
        ⟨id, _, ⟨hid, rfl⟩, h | ⟨position, m₁, hindex, items, _, hitems, _, hslot, rfl, -⟩⟩⟩
      · exact .here (.undeclared rfl hnone)
      · exact .here (.notList hfound hlist)
      · exact (origin_of_evaluate hcalls index h).part (.index hfound hid)
      · cases hitems
        exact .here (.slot hfound hid (performs_expression.mpr hindex) hslot)
  | .call name arguments binding ty, m, m', halt, h => by
      simp only [evaluate, bind_eq_error] at h
      rcases h with h | ⟨values, m₁, harguments, h⟩
      · exact (origin_of_evaluateAll hcalls arguments h).part .arguments
      -- A call fails before it comes to a body, or in the body that it has entered.
      rcases hcalls h with hraises | ⟨inner, function, m₂, henters, horigin⟩
      · exact .here (.call (performs_expressions.mpr harguments) hraises)
      · exact horigin.body harguments henters
  | .list elements ty, m, m', halt, h => by
      simp only [evaluate, bind_eq_error, newList, reduceCtorEq, and_false, exists_false,
        or_false] at h
      exact (origin_of_evaluateAll hcalls elements h).part .elements

theorem origin_of_evaluateAll (hcalls : CallOrigin settings fuel calls) :
    ∀ (expressions : List Expression) {m m' : Machine} {halt : Halt},
      evaluateAll settings calls expressions m = .error halt m' →
        Origin settings fuel calls (.expressions expressions) m halt
  | [], m, m', halt, h => absurd h pure_ne_error
  | expression :: expressions, m, m', halt, h => by
      simp only [evaluateAll, bind_eq_error, pure_ne_error, and_false, exists_false,
        or_false] at h
      rcases h with h | ⟨v, m₁, hv, h⟩
      · exact (origin_of_evaluate hcalls expression h).part .head
      · exact (origin_of_evaluateAll hcalls expressions h).part
          (.tail (performs_expression.mpr hv))

end

theorem origin_of_locate (hcalls : CallOrigin settings fuel calls)
    {receiver : Expression} {m m' : Machine} {halt : Halt}
    (h : locate settings calls receiver m = .error halt m') :
    Origin settings fuel calls (.receiver receiver) m halt := by
  cases receiver with
  | access name binding ty =>
      simp only [locate, bind_eq_error, receiver_eq_error, pure_ne_error, and_false, exists_false,
        or_false] at h
      rcases h with ⟨hnone, rfl, -⟩ | ⟨found, hfound, hmutable, rfl, -⟩
      · exact .here (.receiverUndeclared rfl hnone)
      · exact .here (.immutable rfl)
  | element name index binding ty =>
      simp only [locate, bind_eq_error, receiver_eq_error, receiver_eq_ok, ofExcept_eq_error,
        ofExcept_eq_ok, pure_ne_error, and_false, exists_false, or_false] at h
      rcases h with (⟨hnone, rfl, -⟩ | ⟨found, hfound, hmutable, rfl, -⟩) |
        ⟨found, _, ⟨hfound, hmutable, rfl⟩, ⟨_, hlist, rfl, -⟩ | ⟨id, _, ⟨hid, rfl⟩, hindex⟩⟩
      · exact .here (.receiverUndeclared rfl hnone)
      · exact .here (.immutable rfl)
      · exact .here (.receiverNotList hfound hlist)
      · exact (origin_of_evaluate hcalls index hindex).part
          (.receiverIndex hfound hmutable (Value.listOf_eq_ok.mp hid))
  | _ =>
      simp only [locate, fail_eq_error] at h
      obtain ⟨rfl, -⟩ := h
      exact .here (.receiverWithoutName rfl)

theorem origin_of_condition (hcalls : CallOrigin settings fuel calls) {test : Expression}
    {m m' : Machine} {halt : Halt}
    (h : condition settings calls test m = .error halt m') :
    Origin settings fuel calls (.expression test) m halt ∨
      ∃ a m₁ error, performs settings fuel calls (.expression test) m (.value a) m₁ ∧
        a.truth = .error error ∧ halt = .failed error := by
  simp only [condition, bind_eq_error, ofExcept_eq_error] at h
  rcases h with h | ⟨a, m₁, htest, error, htruth, hhalt, -⟩
  · exact .inl (origin_of_evaluate hcalls test h)
  · exact .inr ⟨a, m₁, error, performs_expression.mpr htest, htruth, hhalt⟩

theorem performs_of_condition (fuel : Nat) {test : Expression} {truth : Bool} {m m' : Machine}
    (h : condition settings calls test m = .ok truth m') :
    ∃ a, performs settings fuel calls (.expression test) m (.value a) m' ∧
      a.truth = .ok truth := by
  simp only [condition, bind_eq_ok, ofExcept_eq_ok] at h
  obtain ⟨a, _, htest, htruth, rfl⟩ := h
  exact ⟨a, performs_expression.mpr htest, htruth⟩

/-- The failure of a loop that has gone through some rounds already. The induction is on the rounds
that are left, and what is raised is raised in the course of the whole loop. -/
theorem origin_of_repeatWhile (hcalls : CallOrigin settings fuel calls) {test : Expression}
    {body : List Statement}
    (hbody : ∀ {m m' : Machine} {halt : Halt},
      executeAll settings fuel calls body m = .error halt m' →
        Origin settings fuel calls (.statements body) m halt)
    {m m' : Machine} {halt : Halt} :
    ∀ (left : Nat) {rounds : Nat} {m₁ : Machine},
      Rounds (performs settings fuel calls) test body m rounds m₁ → rounds + left = fuel →
      repeatWhile (condition settings calls test)
          (inBlock (executeAll settings fuel calls body)) left m₁ = .error halt m' →
        Origin settings fuel calls (.statement (.loop test body)) m halt := by
  intro left
  induction left with
  | zero =>
      intro rounds m₁ hrounds hleft h
      cases h
      obtain rfl : rounds = fuel := by omega
      exact .here (.exhausted hrounds)
  | succ left ih =>
      intro rounds m₁ hrounds hleft h
      have more : rounds < fuel := by omega
      simp only [repeatWhile, bind_eq_error] at h
      rcases h with h | ⟨truth, m₂, htest, h⟩
      · rcases origin_of_condition hcalls h with horigin | ⟨a, m₂, _, htest, htruth, rfl⟩
        · exact horigin.part (.loopTest hrounds more)
        · exact .here (.loopTruth hrounds more htest htruth)
      obtain ⟨a, test, htruth⟩ := performs_of_condition fuel htest
      cases truth with
      | false =>
          simp only [Bool.false_eq_true, if_false] at h
          exact absurd h pure_ne_error
      | true =>
          simp only [if_true, bind_eq_error, inBlock_eq_error, inBlock_eq_ok] at h
          rcases h with ⟨after, h, -⟩ | ⟨flow, _, ⟨after, hround, rfl⟩, h⟩
          · exact (hbody h).part (.loopBody hrounds more test htruth)
          cases flow with
          | completed =>
              -- The round is over: the loop goes on with one more behind it and one less to go.
              exact ih (.more hrounds test htruth (performs_statements.mpr hround)) (by omega) h
          | returned v => exact absurd h pure_ne_error

mutual

theorem origin_of_execute (hcalls : CallOrigin settings fuel calls) :
    ∀ (statement : Statement) {m m' : Machine} {halt : Halt},
      execute settings fuel calls statement m = .error halt m' →
        Origin settings fuel calls (.statement statement) m halt
  | .expression expression, m, m', halt, h => by
      simp only [execute, bind_eq_error, pure_ne_error, and_false, exists_false, or_false] at h
      exact (origin_of_evaluate hcalls expression h).part .effect
  | .declaration name typeName none binding, m, m', halt, h => by
      simp only [execute, bind_eq_error, define_eq_error, pure_ne_error, and_false, exists_false,
        or_false] at h
      obtain ⟨hnone, rfl, -⟩ := h
      exact .here (.redeclared hnone)
  | .declaration name typeName (some value) binding, m, m', halt, h => by
      simp only [execute, bind_eq_error, define_eq_error, pure_ne_error, and_false, exists_false,
        or_false] at h
      rcases h with h | ⟨v, m₁, hv, hnone, rfl, -⟩
      · exact (origin_of_evaluate hcalls value h).part .initial
      · exact .here (.redeclaredInitialised (performs_expression.mpr hv) hnone)
  | .assignment receiver value, m, m', halt, h => by
      simp only [execute, assignTo, bind_eq_error, pure_ne_error, and_false, exists_false,
        or_false] at h
      rcases h with h | ⟨target, m₁, htarget, h | ⟨v, m₂, hv, h⟩⟩
      · exact (origin_of_locate hcalls h).part .receiver
      · exact (origin_of_evaluate hcalls value h).part
          (.assigned (performs_receiver.mpr htarget))
      cases target with
      | whole name => cases h
      | slot name id position =>
          simp only [store, bind_eq_error, itemsOf, put, ofExcept_eq_error, reduceCtorEq,
            and_false, exists_false, or_false, false_or] at h
          obtain ⟨items, _, hitems, _, hslot, rfl, -⟩ := h
          cases hitems
          exact .here (.store (performs_receiver.mpr htarget) (performs_expression.mpr hv) hslot)
  | .branch test thenBody elseBody, m, m', halt, h => by
      simp only [execute, bind_eq_error] at h
      rcases h with h | ⟨truth, m₁, htest, h⟩
      · rcases origin_of_condition hcalls h with horigin | ⟨a, m₁, _, htest, htruth, rfl⟩
        · exact horigin.part .branchTest
        · exact .here (.branchTruth htest htruth)
      obtain ⟨a, test, htruth⟩ := performs_of_condition fuel htest
      cases truth with
      | true =>
          simp only [if_true, inBlock_eq_error] at h
          obtain ⟨after, h, -⟩ := h
          exact (origin_of_executeAll hcalls thenBody h).part (.thenBody test htruth)
      | false =>
          simp only [Bool.false_eq_true, if_false, inBlock_eq_error] at h
          obtain ⟨after, h, -⟩ := h
          exact (origin_of_executeAll hcalls elseBody h).part (.elseBody test htruth)
  | .switch test cases, m, m', halt, h => by
      simp only [execute, bind_eq_error] at h
      rcases h with h | ⟨selector, m₁, htest, h⟩
      · exact (origin_of_evaluate hcalls test h).part .switchTest
      · exact (origin_of_executeCases hcalls cases h).part
          (.switchCases (performs_expression.mpr htest))
  | .loop test body, m, m', halt, h =>
      origin_of_repeatWhile hcalls (origin_of_executeAll hcalls body) fuel .none (by omega) h
  | .result value, m, m', halt, h => by
      simp only [execute, bind_eq_error, pure_ne_error, and_false, exists_false, or_false] at h
      exact (origin_of_evaluate hcalls value h).part .result

theorem origin_of_executeAll (hcalls : CallOrigin settings fuel calls) :
    ∀ (statements : List Statement) {m m' : Machine} {halt : Halt},
      executeAll settings fuel calls statements m = .error halt m' →
        Origin settings fuel calls (.statements statements) m halt
  | [], m, m', halt, h => absurd h pure_ne_error
  | statement :: statements, m, m', halt, h => by
      simp only [executeAll, bind_eq_error] at h
      rcases h with h | ⟨flow, m₁, hfirst, h⟩
      · exact (origin_of_execute hcalls statement h).part .first
      cases flow with
      | completed =>
          exact (origin_of_executeAll hcalls statements h).part
            (.rest (performs_statement.mpr hfirst))
      | returned v => exact absurd h pure_ne_error

theorem origin_of_executeCases (hcalls : CallOrigin settings fuel calls) {selector : Value} :
    ∀ (cases : List Case) {m m' : Machine} {halt : Halt},
      executeCases settings fuel calls selector cases m = .error halt m' →
        Origin settings fuel calls (.cases selector cases) m halt
  | [], m, m', halt, h => absurd h pure_ne_error
  | .mk none body :: cases, m, m', halt, h => by
      simp only [executeCases, inBlock_eq_error] at h
      obtain ⟨after, h, -⟩ := h
      exact (origin_of_executeAll hcalls body h).part .defaultBody
  | .mk (some value) body :: cases, m, m', halt, h => by
      simp only [executeCases, bind_eq_error, ofExcept_eq_error, ofExcept_eq_ok] at h
      rcases h with h | ⟨a, m₁, hvalue, ⟨_, horder, rfl, -⟩ | ⟨order, _, ⟨horder, rfl⟩, h⟩⟩
      · exact (origin_of_evaluate hcalls value h).part .caseValue
      · exact .here (.order (performs_expression.mpr hvalue) horder)
      have value : performs settings fuel calls (.expression value) m (.value a) m₁ :=
        performs_expression.mpr hvalue
      split at h
      · next equal =>
          subst equal
          simp only [inBlock_eq_error] at h
          obtain ⟨after, h, -⟩ := h
          exact (origin_of_executeAll hcalls body h).part (.caseBody value horder)
      · next different =>
          exact (origin_of_executeCases hcalls cases h).part (.otherCases value horder different)

end

end Calls

/-! ## Calls -/

variable {settings : RunSettings} {fuel : Nat}

theorem print_eq_error {text : String} {m m' : Machine} {halt : Halt}
    (h : print text m = .error halt m') : halt = .failed .printRefused := by
  simp only [print] at h
  split at h
  · exact (fail_eq_error.mp h).1
  · cases h

theorem printEach_eq_error : ∀ {texts : List String} {m m' : Machine} {halt : Halt},
    printEach texts m = .error halt m' → halt = .failed .printRefused := by
  intro texts
  induction texts with
  | nil =>
      intro m m' halt h
      exact absurd h pure_ne_error
  | cons text texts ih =>
      intro m m' halt h
      rcases bind_eq_error.mp h with h | ⟨_, m₁, _, h⟩
      · exact print_eq_error h
      · exact ih h

/-- Printing fails in one way only. -/
theorem printAll_eq_error : ∀ {values : List Value} {m m' : Machine} {halt : Halt},
    printAll values m = .error halt m' → halt = .failed .printRefused := by
  intro values
  induction values with
  | nil =>
      intro m m' halt h
      exact absurd h pure_ne_error
  | cons value values ih =>
      intro m m' halt h
      simp only [printAll, printLine, bind_eq_error, piecesOf, reduceCtorEq, false_or] at h
      obtain ⟨pieces, m₁, hpieces, (h | ⟨_, m₂, _, h⟩) | ⟨_, m₂, _, h⟩⟩ := h
      · exact printEach_eq_error h
      · exact print_eq_error h
      · exact ih h

theorem bindParameters_eq_error : ∀ {parameters : List Parameter} {values : List Value}
    {m m' : Machine} {halt : Halt}, bindParameters parameters values m = .error halt m' →
      ∃ name, halt = .failed (.variableRedefined name) := by
  intro parameters
  induction parameters with
  | nil =>
      intro values m m' halt h
      exact absurd h pure_ne_error
  | cons parameter parameters ih =>
      intro values m m' halt h
      cases values with
      | nil => exact absurd h pure_ne_error
      | cons v values =>
          rcases bind_eq_error.mp h with hdefine | ⟨_, m₁, -, hrest⟩
          · exact ⟨parameter.name, (define_eq_error.mp hdefine).2.1⟩
          · exact ih hrest

/-- The body of a failed call of a function fails, unless its parameters could not be bound. -/
theorem counted_invoke_eq_error {calls : Calls} {home : RunScope} {function : Function}
    {name : String} {values : List Value} {m m' : Machine} {halt : Halt}
    (h : counted (invoke settings fuel calls home function values)
      { m with notices := .call name values.length :: m.notices } = .error halt m') :
    (∃ m₁, bindParameters function.parameters values (m.callee home name values.length) =
        .error halt m₁) ∨
      ∃ m₁ m₂,
        bindParameters function.parameters values (m.callee home name values.length) =
          .ok () m₁ ∧
        executeAll settings fuel calls function.body m₁ = .error halt m₂ := by
  simp only [counted, invoke, inCallee] at h
  split at h
  · cases h
  · next halt' after hcallee =>
      cases h
      split at hcallee
      · cases hcallee
      · next halt'' after' hbody =>
          cases hcallee
          rw [bind_eq_error] at hbody
          rcases hbody with hbound | ⟨_, m₁, hbound, hbody⟩
          · exact .inl ⟨after', hbound⟩
          rw [bind_eq_error] at hbody
          rcases hbody with hbody | ⟨flow, m₂, _, hvalue⟩
          · exact .inr ⟨m₁, after', hbound, hbody⟩
          · cases flow <;> exact absurd hvalue pure_ne_error

/-- A failed call has failed by itself, or in the way in which its function is invoked. -/
theorem raises_of_dispatch {invokeFunction : RunScope → Function → List Value → Run Value}
    {name : String} {values : List Value} {m m' : Machine} {halt : Halt}
    (h : dispatch invokeFunction name values m = .error halt m') :
    CallRaises settings name values m halt ∨
      ∃ home function,
        m.scope.lookupFunction name values.length = some (.function function, home) ∧
        invokeFunction home function values
          { m with notices := .call name values.length :: m.notices } =
            .error halt m' := by
  unfold dispatch at h
  cases found : m.scope.lookupFunction name values.length with
  | none =>
      simp only [found, fail_eq_error] at h
      obtain ⟨rfl, -⟩ := h
      exact .inl (.undefined found)
  | some entry =>
      obtain ⟨callable, home⟩ := entry
      simp only [found, bind_eq_error, notify, reduceCtorEq, false_or] at h
      obtain ⟨_, m₁, hnotice, h⟩ := h
      cases hnotice
      cases callable with
      | print =>
          simp only [bind_eq_error, pure_ne_error, and_false, exists_false, or_false] at h
          cases printAll_eq_error h
          exact .inl .refused
      | function function => exact .inr ⟨home, function, rfl, h⟩

/-- A failed call with room for more calls, given where calls inside a body fail. -/
theorem origin_of_callWithin {room : Nat} (hroom : CallOrigin settings fuel
      (callWithin settings fuel room))
    {calls : Calls} {name : String} {values : List Value} {m m' : Machine} {halt : Halt}
    (hdeeper : Deeper settings fuel calls m (callWithin settings fuel room))
    (h : callWithin settings fuel (room + 1) name values m = .error halt m') :
    CallRaises settings name values m halt ∨
      ∃ inner function m₁, Enters settings fuel calls name values m inner function m₁ ∧
        Origin settings fuel inner (.statements function.body) m₁ halt := by
  rw [callWithin] at h
  rcases raises_of_dispatch h with hraises | ⟨home, function, found, h⟩
  · exact .inl hraises
  rcases counted_invoke_eq_error h with ⟨m₁, hbound⟩ | ⟨m₁, m₂, hbound, hbody⟩
  · exact .inl (.parameters found hbound)
  · exact .inr ⟨_, function, m₁, .mk found hdeeper hbound,
      origin_of_executeAll hroom function.body hbody⟩

/-- A call without room fails before any body. -/
theorem raises_of_callWithin_zero {name : String} {values : List Value} {m m' : Machine}
    {halt : Halt} (h : callWithin settings fuel 0 name values m = .error halt m') :
    CallRaises settings name values m halt := by
  rw [callWithin] at h
  rcases raises_of_dispatch h with hraises | ⟨home, function, found, h⟩
  · exact hraises
  · obtain ⟨rfl, -⟩ := fail_eq_error.mp h
    exact .tooDeep

/-- Where calls with so much room fail. The induction is on the room: calls in a body have less. -/
theorem callOrigin_callWithin :
    ∀ room, CallOrigin settings fuel (callWithin settings fuel room) := by
  intro room
  induction room with
  | zero =>
      intro name values m halt m' h
      exact .inl (raises_of_callWithin_zero h)
  | succ room ih =>
      intro name values m halt m' h
      exact origin_of_callWithin ih .within h

theorem callOrigin_call : CallOrigin settings fuel (call settings fuel) := by
  intro name values m halt m' h
  unfold call at h
  cases hroom : room settings m with
  | zero =>
      rw [hroom] at h
      exact .inl (raises_of_callWithin_zero h)
  | succ rest =>
      rw [hroom] at h
      exact origin_of_callWithin (callOrigin_callWithin rest) (.outermost hroom) h

theorem Ordinary.callOrigin {calls : Calls} (ordinary : Ordinary settings fuel calls) :
    CallOrigin settings fuel calls := by
  cases ordinary with
  | outermost => exact callOrigin_call
  | within room => exact callOrigin_callWithin room

/-- Every failure of a task is raised by a task that is visited in the course of it. -/
theorem origin_of_failure {calls : Calls} (ordinary : Ordinary settings fuel calls) {task : Task}
    {m m' : Machine} {halt : Halt}
    (h : perform settings fuel calls task m = .error halt m') :
    Origin settings fuel calls task m halt := by
  have hcalls : CallOrigin settings fuel calls := fun h => ordinary.callOrigin h
  cases task with
  | expression expression => exact origin_of_evaluate hcalls expression (map_eq_error.mp h)
  | expressions expressions => exact origin_of_evaluateAll hcalls expressions (map_eq_error.mp h)
  | receiver receiver => exact origin_of_locate hcalls (map_eq_error.mp h)
  | statement statement => exact origin_of_execute hcalls statement (map_eq_error.mp h)
  | statements statements => exact origin_of_executeAll hcalls statements (map_eq_error.mp h)
  | cases selector cases => exact origin_of_executeCases hcalls cases (map_eq_error.mp h)

end Run

end TinyScript
