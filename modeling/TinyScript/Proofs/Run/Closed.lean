import TinyScript.Proofs.Run.Timeline

/-!
# Lists that a run refers to are there

A run starts without variables, and it comes to know a list only by making it. So the lists that its
variables hold, and those that are items of its lists, are always some that it has made itself
(`Machine.Closed`), and the number that the next list gets is the number of none of them. The
induction is on the derivations of finished tasks; a step into a part takes the invariant along.
-/

namespace TinyScript

open Run

/-! ## Values and scopes -/

/-- A value is no list, or a list with a number of a range. -/
def Value.Within (first next : ListId) : Value → Prop
  | .list id => first ≤ id ∧ id < next
  | _ => True

namespace Value.Within

variable {first next next' : ListId} {value : Value}

theorem mono (h : value.Within first next) (hnext : next ≤ next') : value.Within first next' := by
  cases value with
  | list id => exact ⟨h.1, Nat.lt_of_lt_of_le h.2 hnext⟩
  | _ => trivial

theorem ofLiteral (literal : Literal) : (Value.ofLiteral literal).Within first next := by
  cases literal <;> trivial

theorem applyNumbers {negative : NegativeExponent} {operator : Operator} {a b c : Value}
    (h : operator.applyNumbers negative a b = .ok c) : c.Within first next := by
  unfold Operator.applyNumbers at h
  split at h
  · obtain ⟨_, -, rfl⟩ := Except.map_eq_ok.mp (Except.mapError_eq_ok.mp h)
    trivial
  · split at h
    · obtain ⟨_, -, rfl⟩ := Except.map_eq_ok.mp (Except.mapError_eq_ok.mp h)
      trivial
    · cases h
  · split at h
    · obtain ⟨_, -, rfl⟩ := Except.map_eq_ok.mp (Except.mapError_eq_ok.mp h)
      trivial
    · cases h
  · cases h

/-- No operator results in a list. -/
theorem apply {negative : NegativeExponent} {text : Value → String} {operator : Operator}
    {a b c : Value} (h : operator.apply negative text a b = .ok c) : c.Within first next := by
  unfold Operator.apply at h
  split at h
  · obtain ⟨_, -, rfl⟩ := Except.map_eq_ok.mp h
    trivial
  · obtain ⟨_, -, rfl⟩ := Except.map_eq_ok.mp h
    trivial
  · obtain ⟨_, -, rfl⟩ := Except.map_eq_ok.mp h
    trivial
  · obtain ⟨_, -, rfl⟩ := Except.map_eq_ok.mp h
    trivial
  · split at h
    · cases h
      trivial
    · exact applyNumbers h
  · exact applyNumbers h

end Value.Within

/-- Every variable of a frame holds a value of a kind. -/
def Frame.Holds (P : Value → Prop) (frame : Frame Variable Callable) : Prop :=
  ∀ name found, frame.lookupVariable name = some found → P found.value

/-- Every variable of a scope holds a value of a kind. -/
def Scope.Holds (P : Value → Prop) : RunScope → Prop
  | .root frame => frame.Holds P
  | .child frame parent => frame.Holds P ∧ Scope.Holds P parent

namespace Scope.Holds

variable {P Q : Value → Prop} {scope outer : RunScope}

theorem imp (h : Scope.Holds P scope) (himp : ∀ value, P value → Q value) :
    Scope.Holds Q scope := by
  induction scope with
  | root frame => exact fun name found hfound => himp _ (h name found hfound)
  | child frame parent ih =>
      exact ⟨fun name found hfound => himp _ (h.1 name found hfound), ih h.2⟩

theorem enter (h : Scope.Holds P scope) : Scope.Holds P scope.enter := ⟨nofun, h⟩

theorem leave (h : Scope.Holds P scope) : Scope.Holds P scope.leave := by
  cases scope with
  | root frame => exact h
  | child frame parent => exact h.2

theorem lookupVariable {name : String} {found : Variable} (h : Scope.Holds P scope)
    (hfound : scope.lookupVariable name = some found) : P found.value := by
  induction scope with
  | root frame => exact h name found hfound
  | child frame parent ih =>
      simp only [Scope.lookupVariable] at hfound
      cases hframe : frame.lookupVariable name with
      | some found' =>
          rw [hframe] at hfound
          cases hfound
          exact h.1 name found hframe
      | none =>
          rw [hframe] at hfound
          exact ih h.2 hfound

theorem addVariable {frame : Frame Variable Callable} (h : frame.Holds P) {found : Variable}
    (hvalue : P found.value) (name : String) : (frame.addVariable name found).Holds P := by
  intro other found' hfound
  rw [Frame.lookupVariable_addVariable] at hfound
  split at hfound
  · cases hfound
    exact hvalue
  · exact h other found' hfound

theorem define {scope' : RunScope} {name : String} {found : Variable} (h : Scope.Holds P scope)
    (hvalue : P found.value) (hdefine : scope.defineVariable? name found = some scope') :
    Scope.Holds P scope' := by
  obtain ⟨-, rfl⟩ := Scope.defineVariable?_eq_some.mp hdefine
  cases scope with
  | root frame => exact addVariable h hvalue name
  | child frame parent => exact ⟨addVariable h.1 hvalue name, h.2⟩

theorem setFrame {frame : Frame Variable Callable} (h : frame.Holds P) {found : Variable}
    (hvalue : P found.value) (name : String) : (frame.setVariable name found).Holds P := by
  intro other found' hfound
  simp only [Frame.lookupVariable, Frame.setVariable, lookup_replaceEntry] at hfound
  split at hfound
  · obtain ⟨_, -, rfl⟩ := Option.map_eq_some_iff.mp hfound
    exact hvalue
  · exact h other found' hfound

theorem setVariable {name : String} {found : Variable} (h : Scope.Holds P scope)
    (hvalue : P found.value) : Scope.Holds P (scope.setVariable name found) := by
  induction scope with
  | root frame => exact setFrame h hvalue name
  | child frame parent ih =>
      simp only [Scope.setVariable]
      split
      · exact ⟨setFrame h.1 hvalue name, h.2⟩
      · exact ⟨h.1, ih h.2⟩

theorem regrow (h : Scope.Holds P scope) (houter : Scope.Holds P outer) :
    Scope.Holds P (scope.regrow outer) := by
  induction scope with
  | root frame => exact houter
  | child frame parent ih =>
      simp only [Scope.regrow]
      split
      · exact houter
      · exact ⟨h.1, ih h.2⟩

/-- The scope that binds a function is part of the scope in which the function is found. -/
theorem home {name : String} {arity : Nat} {callable : Callable} {home : RunScope}
    (h : Scope.Holds P scope) (hfound : scope.lookupFunction name arity = some (callable, home)) :
    Scope.Holds P home := by
  induction scope with
  | root frame =>
      simp only [Scope.lookupFunction, Option.map_eq_some_iff] at hfound
      obtain ⟨_, -, heq⟩ := hfound
      cases heq
      exact h
  | child frame parent ih =>
      simp only [Scope.lookupFunction] at hfound
      split at hfound
      · cases hfound
        exact h
      · exact ih h.2 hfound

end Scope.Holds

/-! ## Machines -/

/-- The lists that the variables of a machine hold, and the lists from a number on that are items of
lists from that number on, are among those lists. -/
structure Machine.Closed (first : ListId) (m : Machine) : Prop where
  bound : first ≤ m.lists.next
  scope : m.scope.Holds (·.Within first m.lists.next)
  items : ∀ id, first ≤ id → ∀ item ∈ m.lists.items id, item.Within first m.lists.next

namespace Machine.Closed

variable {first : ListId} {m m' : Machine}

theorem enter (h : m.Closed first) : m.enter.Closed first := ⟨h.bound, h.scope.enter, h.items⟩

theorem leave (h : m.Closed first) : m.leave.Closed first := ⟨h.bound, h.scope.leave, h.items⟩

theorem define {name : String} {found : Variable} {scope : RunScope} (h : m.Closed first)
    (hdefine : m.scope.defineVariable? name found = some scope)
    (hvalue : found.value.Within first m.lists.next) : { m with scope }.Closed first :=
  ⟨h.bound, h.scope.define hvalue hdefine, h.items⟩

/-- A new list of values that are there. -/
theorem add {values : List Value} (h : m.Closed first)
    (hvalues : ∀ value ∈ values, value.Within first m.lists.next) :
    { m with lists := m.lists.add values.toArray }.Closed first := by
  have hnext : m.lists.next ≤ (m.lists.add values.toArray).next := (Lists.Keeps.add _ _).next
  refine ⟨Nat.le_trans h.bound hnext, h.scope.imp fun _ hvalue => hvalue.mono hnext, ?_⟩
  intro id hid item hitem
  rw [Lists.items_add] at hitem
  split at hitem
  · exact (hvalues item (by simpa using hitem)).mono hnext
  · exact (h.items id hid item hitem).mono hnext

theorem put {id : ListId} {slot : Nat} {value : Value} (h : m.Closed first)
    (hvalue : value.Within first m.lists.next) :
    { m with lists := m.lists.put id slot value }.Closed first := by
  have hnext : (m.lists.put id slot value).next = m.lists.next := by
    simp [Lists.next, Lists.put]
  refine ⟨hnext ▸ h.bound, hnext ▸ h.scope, ?_⟩
  intro other hother item hitem
  rw [hnext]
  rw [Lists.items_put] at hitem
  split at hitem
  · next same =>
      subst same
      rcases Array.mem_or_eq_of_mem_setIfInBounds hitem with hold | rfl
      · exact h.items other hother item hold
      · exact hvalue
  · exact h.items other hother item hitem

/-- A call starts in the scope that binds the function. -/
theorem callee {name : String} {arity : Nat} {callable : Callable} {home : RunScope}
    (h : m.Closed first) (hfound : m.scope.lookupFunction name arity = some (callable, home)) :
    (m.callee home name arity).Closed first := ⟨h.bound, (h.scope.home hfound).enter, h.items⟩

/-- A caller goes on with the lists that the call has left. -/
theorem resume (h : m.Closed first) (h' : m'.Closed first) (hnext : m.lists.next ≤ m'.lists.next) :
    (m.resume m').Closed first :=
  ⟨h'.bound, (h.scope.imp fun _ hvalue => hvalue.mono hnext).regrow h'.scope.leave, h'.items⟩

end Machine.Closed

/-! ## Tasks -/

namespace Run

variable {settings : RunSettings} {fuel : Nat} {calls : Calls} {first : ListId} {m m' : Machine}

/-- The lists in what a task ends with have numbers of a range. -/
def Product.Within (first next : ListId) : Product → Prop
  | .value v => v.Within first next
  | .values vs => ∀ v ∈ vs, v.Within first next
  | .target (.slot _ id _) => (Value.list id).Within first next
  | .target (.whole _) => True
  | .flow ending => ending.value.Within first next

/-- A task that has finished leaves a closed machine and ends with lists that are there. -/
structure Closes (first : ListId) (m : Machine) (product : Product) (m' : Machine) : Prop where
  next : m.lists.next ≤ m'.lists.next
  machine : m'.Closed first
  product : product.Within first m'.lists.next

namespace Closes

variable {m₁ : Machine} {product product' : Product}

theorem unmoved (h : m.Closed first) (hproduct : product.Within first m.lists.next) :
    Closes first m product m := ⟨Nat.le_refl _, h, hproduct⟩

/-- What a task ends with can be made into something else on the same machine. -/
theorem yields (h : Closes first m product m')
    (hproduct : product'.Within first m'.lists.next) : Closes first m product' m' :=
  ⟨h.next, h.machine, hproduct⟩

theorem followed (h : Closes first m product m₁) (h' : Closes first m₁ product' m') :
    Closes first m product' m' := ⟨Nat.le_trans h.next h'.next, h'.machine, h'.product⟩

theorem block (h : Closes first m.enter product m') : Closes first m product m'.leave :=
  ⟨h.next, h.machine.leave, h.product⟩

end Closes

theorem closed_of_bindParameters : ∀ {parameters : List Parameter} {values : List Value}
    {m m' : Machine}, m.Closed first → (∀ value ∈ values, value.Within first m.lists.next) →
    bindParameters parameters values m = .ok () m' →
      m'.Closed first ∧ m'.lists = m.lists
  | [], _, _, _, h, _, hbound => by
      obtain ⟨-, rfl⟩ := pure_eq_ok.mp hbound
      exact ⟨h, rfl⟩
  | _ :: _, [], _, _, h, _, hbound => by
      obtain ⟨-, rfl⟩ := pure_eq_ok.mp hbound
      exact ⟨h, rfl⟩
  | parameter :: parameters, value :: values, m, m', h, hvalues, hbound => by
      obtain ⟨_, m₁, hdefine, hrest⟩ := bind_eq_ok.mp hbound
      obtain ⟨scope, hscope, rfl⟩ := define_eq_ok.mp hdefine
      obtain ⟨hvalue, hvalues⟩ := List.forall_mem_cons.mp hvalues
      obtain ⟨hclosed, hlists⟩ :=
        closed_of_bindParameters (h.define hscope hvalue) hvalues hrest
      exact ⟨hclosed, hlists⟩

theorem closed_of_store {target : Target} {value : Value} (h : m.Closed first)
    (hvalue : value.Within first m.lists.next) (hstore : store target value m = .ok () m') :
    m'.Closed first ∧ m'.lists.next = m.lists.next := by
  cases target with
  | whole name =>
      cases hstore
      exact ⟨⟨h.bound, h.scope.setVariable hvalue, h.items⟩, rfl⟩
  | slot name id position =>
      obtain ⟨items, m₁, hitems, hstore⟩ := bind_eq_ok.mp hstore
      cases hitems
      obtain ⟨slot, m₂, hslot, hput⟩ := bind_eq_ok.mp hstore
      obtain ⟨-, rfl⟩ := ofExcept_eq_ok.mp hslot
      cases hput
      exact ⟨h.put hvalue, by simp [Lists.next, Lists.put]⟩

/-- What has finished has left a closed machine, if it has started in one. -/
theorem closes_of_finishes {task : Task} {product : Product}
    (hfinishes : Finishes settings task m product m') (h : m.Closed first) :
    Closes first m product m' := by
  induction hfinishes with
  | literal => exact .unmoved h (.ofLiteral _)
  | group _ ih => exact ih h
  | decided _ _ _ _ ih => exact (ih h).yields trivial
  | undecided _ _ _ _ _ _ ihleft ihright =>
      have hleft := ihleft h
      exact (hleft.followed (ihright hleft.machine)).yields trivial
  | operation _ _ _ _ happly ihleft ihright =>
      have hleft := ihleft h
      exact (hleft.followed (ihright hleft.machine)).yields (.apply happly)
  | access hfound => exact .unmoved h (h.scope.lookupVariable hfound)
  | @element _ _ _ _ m m' found id position slot hfound hid _ _ ih =>
      have hindex := ih h
      refine hindex.yields ?_
      have hlist := h.scope.lookupVariable hfound
      rw [hid] at hlist
      have hitem := hindex.machine.items id hlist.1
      unfold Product.Within
      rw [Array.getD_eq_getD_getElem?]
      cases hslot : (m'.lists.items id)[slot]? with
      | none => trivial
      | some item => exact hitem item (Array.mem_of_getElem? hslot)
  | print _ _ hmachine ih =>
      have harguments := ih h
      rw [hmachine]
      exact ⟨harguments.next, ⟨harguments.machine.bound, harguments.machine.scope,
        harguments.machine.items⟩, trivial⟩
  | call _ hfound hbound _ iharguments ihbody =>
      have harguments := iharguments h
      obtain ⟨hcallee, hlists⟩ := closed_of_bindParameters (harguments.machine.callee hfound)
        harguments.product hbound
      have hbody := ihbody hcallee
      have hnext := hlists ▸ hbody.next
      exact ⟨Nat.le_trans harguments.next hnext, harguments.machine.resume hbody.machine hnext,
        hbody.product⟩
  | @list elements ty m m' values _ ih =>
      have helements := ih h
      have hnext : (m'.lists.add values.toArray).next = m'.lists.next + 1 := by
        simp [Lists.next, Lists.add]
      refine ⟨?_, helements.machine.add helements.product, helements.machine.bound, ?_⟩
      · exact hnext ▸ Nat.le_succ_of_le helements.next
      · exact hnext ▸ Nat.lt_succ_self m'.lists.next
  | noExpression => exact .unmoved h (List.forall_mem_nil _)
  | expressions _ _ ihhead ihtail =>
      have hhead := ihhead h
      have htail := ihtail hhead.machine
      exact (hhead.followed htail).yields
        (List.forall_mem_cons.mpr ⟨hhead.product.mono htail.next, htail.product⟩)
  | whole _ _ => exact .unmoved h trivial
  | slot hfound _ hid _ ih =>
      have hindex := ih h
      have hlist := h.scope.lookupVariable hfound
      rw [hid] at hlist
      exact hindex.yields (hlist.mono hindex.next)
  | effect _ ih => exact (ih h).yields trivial
  | declaration hdefine => exact ⟨Nat.le_refl _, h.define hdefine trivial, trivial⟩
  | initialised _ hdefine ih =>
      have hvalue := ih h
      exact ⟨hvalue.next, hvalue.machine.define hdefine hvalue.product, trivial⟩
  | assignment _ _ hstore ihreceiver ihvalue =>
      have hreceiver := ihreceiver h
      have hvalue := ihvalue hreceiver.machine
      obtain ⟨hclosed, hnext⟩ := closed_of_store hvalue.machine hvalue.product hstore
      exact ⟨hnext ▸ Nat.le_trans hreceiver.next hvalue.next, hclosed, trivial⟩
  | branchThen _ _ _ ihtest ihbody | branchElse _ _ _ ihtest ihbody
  | loopReturn _ _ _ ihtest ihbody =>
      have htest := ihtest h
      exact htest.followed (ihbody htest.machine.enter).block
  | switch _ _ ihtest ihcases =>
      have htest := ihtest h
      exact htest.followed (ihcases htest.machine)
  | loopEnd _ _ ih => exact (ih h).yields trivial
  | loopAgain _ _ _ _ ihtest ihbody ihloop =>
      have htest := ihtest h
      have hround := htest.followed (ihbody htest.machine.enter).block
      exact hround.followed (ihloop hround.machine)
  | result _ ih =>
      have hvalue := ih h
      exact hvalue.yields hvalue.product
  | noStatement => exact .unmoved h trivial
  | statements _ _ ihfirst ihrest =>
      have hfirst := ihfirst h
      exact hfirst.followed (ihrest hfirst.machine)
  | returned _ ih => exact ih h
  | noCase => exact .unmoved h trivial
  | defaultCase _ ih => exact (ih h.enter).block
  | equalCase _ _ _ ihvalue ihbody =>
      have hvalue := ihvalue h
      exact hvalue.followed (ihbody hvalue.machine.enter).block
  | otherCase _ _ _ _ ihvalue ihcases =>
      have hvalue := ihvalue h
      exact hvalue.followed (ihcases hvalue.machine)

/-! ## Visits -/

theorem closes_of_performs (ordinary : Ordinary settings fuel calls) {task : Task}
    {product : Product} (h : m.Closed first)
    (hperforms : performs settings fuel calls task m product m') : Closes first m product m' :=
  closes_of_finishes (finishes_of_perform ordinary hperforms) h

theorem closed_of_rounds (ordinary : Ordinary settings fuel calls) {test : Expression}
    {body : List Statement} {rounds : Nat} (h : m.Closed first)
    (hrounds : Rounds (performs settings fuel calls) test body m rounds m') :
    m'.Closed first := by
  induction hrounds with
  | none => exact h
  | more _ htest _ hbody ih =>
      have htest := closes_of_performs ordinary ih htest
      exact (closes_of_performs ordinary htest.machine.enter hbody).machine.leave

/-- A part of a task is taken up in a closed machine. -/
theorem closed_of_step (ordinary : Ordinary settings fuel calls) (h : m.Closed first)
    {task task' : Task} {number : Nat}
    (hstep : Step fuel (performs settings fuel calls) task m number task' m') :
    m'.Closed first := by
  cases hstep with
  | right hleft _ => exact (closes_of_performs ordinary h hleft).machine
  | tail hhead => exact (closes_of_performs ordinary h hhead).machine
  | assigned hreceiver => exact (closes_of_performs ordinary h hreceiver).machine
  | thenBody htest _ | elseBody htest _ =>
      exact (closes_of_performs ordinary h htest).machine.enter
  | switchCases htest => exact (closes_of_performs ordinary h htest).machine
  | loopTest hrounds _ => exact closed_of_rounds ordinary h hrounds
  | loopBody hrounds _ htest _ =>
      have hrounds := closed_of_rounds ordinary h hrounds
      exact (closes_of_performs ordinary hrounds htest).machine.enter
  | rest hfirst => exact (closes_of_performs ordinary h hfirst).machine
  | defaultBody => exact h.enter
  | caseBody hvalue _ => exact (closes_of_performs ordinary h hvalue).machine.enter
  | otherCases hvalue _ _ => exact (closes_of_performs ordinary h hvalue).machine
  | _ => exact h

theorem closed_of_enters (h : m.Closed first) {name : String} {values : List Value}
    (hvalues : ∀ value ∈ values, value.Within first m.lists.next) {inner : Calls}
    {function : Function}
    (henters : Enters settings fuel calls name values m inner function m') :
    m'.Closed first := by
  obtain ⟨hfound, -, hbound⟩ := henters
  exact (closed_of_bindParameters (h.callee hfound) hvalues hbound).1

theorem closed_of_visits {start visit : Visit} (ordinary : Ordinary settings fuel start.calls)
    (h : start.machine.Closed first) (hvisits : Visits settings fuel start visit) :
    Ordinary settings fuel visit.calls ∧ visit.machine.Closed first := by
  induction hvisits with
  | here => exact ⟨ordinary, h⟩
  | part _ hstep ih =>
      obtain ⟨ordinary, hclosed⟩ := ih
      exact ⟨ordinary, closed_of_step ordinary hclosed hstep⟩
  | body _ hvalues henters ih =>
      obtain ⟨ordinary, hclosed⟩ := ih
      have harguments := closes_of_performs ordinary hclosed (performs_expressions.mpr hvalues)
      have hbody := closed_of_enters harguments.machine harguments.product henters
      obtain ⟨-, hdeeper, -⟩ := henters
      exact ⟨.deeper hdeeper, hbody⟩

theorem closed_of_bindGlobals : ∀ {globals : List Global} {m m' : Machine}, m.Closed first →
    bindGlobals settings fuel globals m = .ok () m' → m'.Closed first
  | [], _, _, h, hglobals => by
      obtain ⟨-, rfl⟩ := pure_eq_ok.mp hglobals
      exact h
  | global :: globals, m, m', h, hglobals => by
      rw [bindGlobals_cons] at hglobals
      obtain ⟨v, m₁, hvalue, hglobals⟩ := bind_eq_ok.mp hglobals
      obtain ⟨_, m₂, hdefine, hglobals⟩ := bind_eq_ok.mp hglobals
      obtain ⟨scope, hscope, rfl⟩ := define_eq_ok.mp hdefine
      have hinitial : m₁.Closed first ∧ v.Within first m₁.lists.next := by
        unfold initialValue at hvalue
        cases hglobal : global.value with
        | none =>
            rw [hglobal] at hvalue
            obtain ⟨rfl, rfl⟩ := pure_eq_ok.mp hvalue
            exact ⟨h, trivial⟩
        | some expression =>
            rw [hglobal] at hvalue
            have hcloses := closes_of_performs .outermost h (performs_expression.mpr hvalue)
            exact ⟨hcloses.machine, hcloses.product⟩
      exact closed_of_bindGlobals (hinitial.1.define hscope hinitial.2) hglobals

end Run

namespace Program

variable {settings : RunSettings} {fuel : Nat} {program : Program} {machine m : Machine}

/-- A run of a program makes all lists that it knows: they are behind those of the machine on which
it runs. -/
theorem closed_of_initialises {globals : List Global}
    (h : program.Initialises settings fuel machine globals m) : m.Closed machine.lists.next := by
  obtain ⟨linked, hlinked, hglobals⟩ := h
  refine closed_of_bindGlobals ?_ hglobals
  rw [bindFunctions_eq_ok hlinked rfl]
  refine ⟨Nat.le_refl _, nofun, fun id hid item hitem => ?_⟩
  have hnone : machine.lists.items id = #[] := Lists.items_of_next_le hid
  rw [hnone] at hitem
  exact absurd hitem (Array.not_mem_empty item)

theorem closed_of_visits {visit : Visit} (h : program.Visits settings fuel machine visit) :
    Ordinary settings fuel visit.calls ∧ visit.machine.Closed machine.lists.next := by
  obtain ⟨start, ⟨earlier, global, later, hinitial⟩ | hmain, hvisits⟩ := h
  · obtain @⟨value, m, -, -, hinitialises⟩ := hinitial
    exact Run.closed_of_visits .outermost (closed_of_initialises hinitialises) hvisits
  · obtain @⟨m, calls, function, m', hinitialises, henters⟩ := hmain
    have hready : (program.ready m).Closed machine.lists.next := by
      have h := closed_of_initialises hinitialises
      exact ⟨h.bound, h.scope, h.items⟩
    have hbody := closed_of_enters hready (List.forall_mem_nil _) henters
    obtain ⟨-, hdeeper, -⟩ := henters
    exact Run.closed_of_visits (.deeper hdeeper) hbody hvisits

end Program

end TinyScript
