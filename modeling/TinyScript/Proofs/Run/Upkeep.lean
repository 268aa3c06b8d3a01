import Mathlib.Data.List.Induction
import TinyScript.Proofs.Literals
import TinyScript.Proofs.Run.Account
import TinyScript.Proofs.Run.Closed

/-!
# Families of values that a run keeps to

The values of a run come from literals and from operators; everything else only hands them on. So
if the literals of a program belong to a family of values that operators do not lead out of, every
value that the run comes across belongs to it. `kept_of_finishes` says so of what a task has come
to, by induction on derivations, and `ready_of_visits` of everything that a run takes up.
-/

namespace TinyScript

open Run

variable {P : Value → Prop} {first : ListId}

/-! ## Families -/

/-- A family of values to which `nil`, the truth values and the lists from a number on belong, and
with two values what an operator makes of them if no scale overflows. -/
structure Value.Family (first : ListId) (P : Value → Prop) : Prop where
  nil : P .nil
  boolean : ∀ truth, P (.boolean truth)
  list : ∀ id, P (.list id) ↔ first ≤ id
  result : ∀ {negative text operator a b c}, P a → P b → Operator.overflows operator a b = false →
    Operator.apply negative text operator a b = .ok c → P c

/-- The variables of a machine hold values of a family, the lists from a number on have items of the
family, and the functions in scope have literals of the family. -/
structure Machine.KeepsTo (P : Value → Prop) (first : ListId) (m : Machine) : Prop where
  bound : first ≤ m.lists.next
  scope : m.scope.Holds P
  items : ∀ id, first ≤ id → ∀ item ∈ m.lists.items id, P item
  functions :
    Scope.Binds (fun function => ∀ literal ∈ function.literals, P (.ofLiteral literal)) m.scope

namespace Machine.KeepsTo

variable {m m' : Machine}

theorem enter (h : m.KeepsTo P first) : m.enter.KeepsTo P first :=
  ⟨h.bound, h.scope.enter, h.items, h.functions.enter⟩

theorem leave (h : m.KeepsTo P first) : m.leave.KeepsTo P first :=
  ⟨h.bound, h.scope.leave, h.items, h.functions.leave⟩

theorem define {name : String} {isMutable : Bool} {v : Value} {scope : RunScope}
    (h : m.KeepsTo P first) (hv : P v)
    (hdefine : m.scope.defineVariable? name ⟨isMutable, v⟩ = some scope) :
    { m with scope }.KeepsTo P first :=
  ⟨h.bound, h.scope.define hv hdefine, h.items, h.functions.defineVariable? hdefine⟩

/-- A new list with items of the family. -/
theorem add {values : List Value} (h : m.KeepsTo P first) (hvalues : ∀ value ∈ values, P value) :
    { m with lists := m.lists.add values.toArray }.KeepsTo P first := by
  have hnext : m.lists.next ≤ (m.lists.add values.toArray).next := (Lists.Keeps.add _ _).next
  refine ⟨Nat.le_trans h.bound hnext, h.scope, fun id hid item hitem => ?_, h.functions⟩
  rw [Lists.items_add] at hitem
  split at hitem
  · exact hvalues item (by simpa using hitem)
  · exact h.items id hid item hitem

theorem put {id : ListId} {slot : Nat} {value : Value} (h : m.KeepsTo P first) (hvalue : P value) :
    { m with lists := m.lists.put id slot value }.KeepsTo P first := by
  have hnext : (m.lists.put id slot value).next = m.lists.next := by
    simp [Lists.next, Lists.put]
  refine ⟨hnext ▸ h.bound, h.scope, fun other hother item hitem => ?_, h.functions⟩
  rw [Lists.items_put] at hitem
  split at hitem
  · next same =>
      subst same
      rcases Array.mem_or_eq_of_mem_setIfInBounds hitem with hold | rfl
      · exact h.items other hother item hold
      · exact hvalue
  · exact h.items other hother item hitem

theorem store {target : Target} {v : Value} {u : Unit} (h : m.KeepsTo P first) (hv : P v)
    (hstore : Run.store target v m = .ok u m') : m'.KeepsTo P first := by
  cases target with
  | whole name =>
      cases hstore
      exact ⟨h.bound, h.scope.setVariable hv, h.items, h.functions.setVariable _ _⟩
  | slot name id position =>
      obtain ⟨items, m₁, hitems, hstore⟩ := bind_eq_ok.mp hstore
      cases hitems
      obtain ⟨slot, m₂, hslot, hput⟩ := bind_eq_ok.mp hstore
      obtain ⟨-, rfl⟩ := ofExcept_eq_ok.mp hslot
      cases hput
      exact h.put hv

/-- The items of a list of the family belong to the family, and so does `nil` in their place. -/
theorem item (hfamily : Value.Family first P) (h : m.KeepsTo P first) {id : ListId}
    (hid : P (.list id)) (slot : Nat) : P ((m.lists.items id).getD slot .nil) := by
  rw [Array.getD_eq_getD_getElem?]
  cases hslot : (m.lists.items id)[slot]? with
  | none => exact hfamily.nil
  | some item =>
      exact h.items id ((hfamily.list id).mp hid) item (Array.mem_of_getElem? hslot)

/-- A call starts in the scope that binds the function. -/
theorem callee {name : String} {arity : Nat} {callable : Callable} {home : RunScope}
    (h : m.KeepsTo P first) (hfound : m.scope.lookupFunction name arity = some (callable, home)) :
    (m.callee home name arity).KeepsTo P first :=
  ⟨h.bound, (h.scope.home hfound).enter, h.items,
    (h.functions.lookupFunction hfound).1.enter⟩

/-- A caller goes on with what the call has left. -/
theorem resume (h : m.KeepsTo P first) (h' : m'.KeepsTo P first) :
    (m.resume m').KeepsTo P first :=
  ⟨h'.bound, h.scope.regrow h'.scope.leave, h'.items,
    h.functions.regrow h'.functions.leave⟩

theorem bindParameters : ∀ {parameters : List Parameter} {values : List Value} {m m' : Machine}
    {u : Unit}, m.KeepsTo P first → (∀ value ∈ values, P value) →
    Run.bindParameters parameters values m = .ok u m' → m'.KeepsTo P first
  | [], _, _, _, _, h, _, hbound => by
      obtain ⟨-, rfl⟩ := pure_eq_ok.mp hbound
      exact h
  | _ :: _, [], _, _, _, h, _, hbound => by
      obtain ⟨-, rfl⟩ := pure_eq_ok.mp hbound
      exact h
  | parameter :: parameters, value :: values, m, m', _, h, hvalues, hbound => by
      obtain ⟨_, m₁, hdefine, hrest⟩ := bind_eq_ok.mp hbound
      obtain ⟨scope, hscope, rfl⟩ := define_eq_ok.mp hdefine
      obtain ⟨hvalue, hvalues⟩ := List.forall_mem_cons.mp hvalues
      exact bindParameters (h.define hvalue hscope) hvalues hrest

end Machine.KeepsTo

namespace Run

/-! ## Tasks -/

/-- The literals in a task. -/
def Task.literals : Task → List Literal
  | .expression whole | .receiver whole => whole.literals
  | .expressions parts => literalsOf parts
  | .statement whole => whole.literals
  | .statements parts => literalsOfStatements parts
  | .cases _ parts => literalsOfCases parts

theorem literals_of_step {fuel : Nat} {finish : Finish} {task task' : Task} {m m' : Machine}
    {number : Nat} (hstep : Step fuel finish task m number task' m') :
    ∀ literal ∈ task'.literals, literal ∈ task.literals := by
  intro literal hliteral
  cases hstep <;>
    simp_all [Task.literals, Expression.literals, Statement.literals, literalsOf,
      literalsOfStatements, literalsOfCases]

/-- What a task ends with belongs to a family. -/
def Product.All (P : Value → Prop) : Product → Prop
  | .value v => P v
  | .values vs => ∀ v ∈ vs, P v
  | .target (.slot _ id _) => P (.list id)
  | .target (.whole _) => True
  | .flow ending => P ending.value

/-- A task with literals of a family is there to be done on a machine that keeps to it. -/
structure Ready (P : Value → Prop) (first : ListId) (task : Task) (m : Machine) : Prop where
  literals : ∀ literal ∈ task.literals, P (.ofLiteral literal)
  machine : m.KeepsTo P first

/-- A task has ended with values of a family on a machine that keeps to it. -/
structure Kept (P : Value → Prop) (first : ListId) (product : Product) (m : Machine) : Prop where
  machine : m.KeepsTo P first
  product : product.All P

theorem Kept.leave {product : Product} {m : Machine} (h : Kept P first product m) :
    Kept P first product m.leave :=
  ⟨h.machine.leave, h.product⟩

variable {settings : RunSettings} {fuel : Nat} {calls : Calls} {m m' : Machine}

/-- A task that is ready ends with values of the family, on a machine that keeps to it. -/
theorem kept_of_finishes (hfamily : Value.Family first P) {task : Task} {product : Product}
    (hfinishes : Finishes settings task m product m') (h : Ready P first task m) :
    Kept P first product m' := by
  induction hfinishes with
  | @literal value _ _ => exact ⟨h.machine, h.literals value (List.mem_singleton_self value)⟩
  | group _ ih => exact ih ⟨h.literals, h.machine⟩
  | decided _ _ _ _ ih =>
      obtain ⟨hleft, -⟩ := List.forall_mem_append.mp h.literals
      exact ⟨(ih ⟨hleft, h.machine⟩).machine, hfamily.boolean _⟩
  | undecided _ _ _ _ _ _ ihleft ihright =>
      obtain ⟨hleft, hright⟩ := List.forall_mem_append.mp h.literals
      have left := ihleft ⟨hleft, h.machine⟩
      exact ⟨(ihright ⟨hright, left.machine⟩).machine, hfamily.boolean _⟩
  | operation _ _ _ hfits happly ihleft ihright =>
      obtain ⟨hleft, hright⟩ := List.forall_mem_append.mp h.literals
      have left := ihleft ⟨hleft, h.machine⟩
      have right := ihright ⟨hright, left.machine⟩
      exact ⟨right.machine, hfamily.result left.product right.product hfits happly⟩
  | access hfound => exact ⟨h.machine, h.machine.scope.lookupVariable hfound⟩
  | @element _ _ _ _ _ _ _ _ _ slot hfound hid _ _ ih =>
      have index := ih ⟨h.literals, h.machine⟩
      have hlist := h.machine.scope.lookupVariable hfound
      rw [hid] at hlist
      exact ⟨index.machine, index.machine.item hfamily hlist slot⟩
  | print _ _ hprinted ih =>
      have arguments := ih ⟨h.literals, h.machine⟩
      rw [hprinted]
      exact ⟨⟨arguments.machine.bound, arguments.machine.scope, arguments.machine.items,
        arguments.machine.functions⟩, hfamily.nil⟩
  | call _ hfound hbound _ iharguments ihbody =>
      have arguments := iharguments ⟨h.literals, h.machine⟩
      have hliterals := (arguments.machine.functions.lookupFunction hfound).2 _ rfl
      have body := ihbody
        ⟨hliterals, (arguments.machine.callee hfound).bindParameters arguments.product hbound⟩
      exact ⟨arguments.machine.resume body.machine, body.product⟩
  | list _ ih =>
      have elements := ih ⟨h.literals, h.machine⟩
      exact ⟨elements.machine.add elements.product,
        (hfamily.list _).mpr elements.machine.bound⟩
  | noExpression => exact ⟨h.machine, List.forall_mem_nil _⟩
  | expressions _ _ ihhead ihtail =>
      obtain ⟨hhead, htail⟩ := List.forall_mem_append.mp h.literals
      have head := ihhead ⟨hhead, h.machine⟩
      have tail := ihtail ⟨htail, head.machine⟩
      exact ⟨tail.machine, List.forall_mem_cons.mpr ⟨head.product, tail.product⟩⟩
  | whole _ _ => exact ⟨h.machine, trivial⟩
  | slot hfound _ hid _ ih =>
      have index := ih ⟨h.literals, h.machine⟩
      have hlist := h.machine.scope.lookupVariable hfound
      rw [hid] at hlist
      exact ⟨index.machine, hlist⟩
  | effect _ ih => exact ⟨(ih ⟨h.literals, h.machine⟩).machine, hfamily.nil⟩
  | declaration hdefine =>
      exact ⟨h.machine.define hfamily.nil hdefine, hfamily.nil⟩
  | initialised _ hdefine ih =>
      have value := ih ⟨h.literals, h.machine⟩
      exact ⟨value.machine.define value.product hdefine, hfamily.nil⟩
  | assignment _ _ hstore ihreceiver ihvalue =>
      obtain ⟨hreceiver, hvalue⟩ := List.forall_mem_append.mp h.literals
      have receiver := ihreceiver ⟨hreceiver, h.machine⟩
      have value := ihvalue ⟨hvalue, receiver.machine⟩
      exact ⟨value.machine.store value.product hstore, hfamily.nil⟩
  | branchThen _ _ _ ihtest ihbody =>
      obtain ⟨htest, hbodies⟩ := List.forall_mem_append.mp h.literals
      obtain ⟨hthen, -⟩ := List.forall_mem_append.mp hbodies
      have test := ihtest ⟨htest, h.machine⟩
      exact (ihbody ⟨hthen, test.machine.enter⟩).leave
  | branchElse _ _ _ ihtest ihbody =>
      obtain ⟨htest, hbodies⟩ := List.forall_mem_append.mp h.literals
      obtain ⟨-, helse⟩ := List.forall_mem_append.mp hbodies
      have test := ihtest ⟨htest, h.machine⟩
      exact (ihbody ⟨helse, test.machine.enter⟩).leave
  | switch _ _ ihtest ihcases =>
      obtain ⟨htest, hcases⟩ := List.forall_mem_append.mp h.literals
      have test := ihtest ⟨htest, h.machine⟩
      exact ihcases ⟨hcases, test.machine⟩
  | loopEnd _ _ ih =>
      obtain ⟨htest, -⟩ := List.forall_mem_append.mp h.literals
      exact ⟨(ih ⟨htest, h.machine⟩).machine, hfamily.nil⟩
  | loopReturn _ _ _ ihtest ihbody =>
      obtain ⟨htest, hbody⟩ := List.forall_mem_append.mp h.literals
      have test := ihtest ⟨htest, h.machine⟩
      exact (ihbody ⟨hbody, test.machine.enter⟩).leave
  | loopAgain _ _ _ _ ihtest ihbody ihloop =>
      obtain ⟨htest, hbody⟩ := List.forall_mem_append.mp h.literals
      have test := ihtest ⟨htest, h.machine⟩
      have round := ihbody ⟨hbody, test.machine.enter⟩
      exact ihloop ⟨h.literals, round.machine.leave⟩
  | result _ ih =>
      have value := ih ⟨h.literals, h.machine⟩
      exact ⟨value.machine, value.product⟩
  | noStatement => exact ⟨h.machine, hfamily.nil⟩
  | statements _ _ ihfirst ihrest =>
      obtain ⟨hfirst, hrest⟩ := List.forall_mem_append.mp h.literals
      have first := ihfirst ⟨hfirst, h.machine⟩
      exact ihrest ⟨hrest, first.machine⟩
  | returned _ ih =>
      obtain ⟨hfirst, -⟩ := List.forall_mem_append.mp h.literals
      exact ih ⟨hfirst, h.machine⟩
  | noCase => exact ⟨h.machine, hfamily.nil⟩
  | defaultCase _ ih =>
      obtain ⟨hbody, -⟩ := List.forall_mem_append.mp (List.forall_mem_append.mp h.literals).2
      exact (ih ⟨hbody, h.machine.enter⟩).leave
  | equalCase _ _ _ ihvalue ihbody =>
      obtain ⟨hvalue, hrest⟩ := List.forall_mem_append.mp h.literals
      obtain ⟨hbody, -⟩ := List.forall_mem_append.mp hrest
      have value := ihvalue ⟨hvalue, h.machine⟩
      exact (ihbody ⟨hbody, value.machine.enter⟩).leave
  | otherCase _ _ _ _ ihvalue ihcases =>
      obtain ⟨hvalue, hrest⟩ := List.forall_mem_append.mp h.literals
      obtain ⟨-, hcases⟩ := List.forall_mem_append.mp hrest
      have value := ihvalue ⟨hvalue, h.machine⟩
      exact ihcases ⟨hcases, value.machine⟩

/-! ## Visits -/

section Visits

variable (ordinary : Ordinary settings fuel calls) (hfamily : Value.Family first P)
include ordinary hfamily

theorem kept_of_performs {task : Task} {product : Product}
    (hperforms : performs settings fuel calls task m product m') (h : Ready P first task m) :
    Kept P first product m' :=
  kept_of_finishes hfamily (finishes_of_perform ordinary hperforms) h

theorem keepsTo_of_rounds {test : Expression} {body : List Statement} {rounds : Nat}
    (hrounds : Rounds (performs settings fuel calls) test body m rounds m')
    (h : Ready P first (.statement (.loop test body)) m) : m'.KeepsTo P first := by
  obtain ⟨htest, hbody⟩ := List.forall_mem_append.mp h.literals
  induction hrounds with
  | none => exact h.machine
  | more _ htests _ hbodies ih =>
      have test := kept_of_performs ordinary hfamily htests ⟨htest, ih⟩
      have body := kept_of_performs ordinary hfamily hbodies ⟨hbody, test.machine.enter⟩
      exact body.machine.leave

/-- A part of a task is taken up on a machine that keeps to the family. -/
theorem Ready.step {task task' : Task} {number : Nat} (h : Ready P first task m)
    (hstep : Step fuel (performs settings fuel calls) task m number task' m') :
    Ready P first task' m' := by
  refine ⟨fun literal hliteral => h.literals literal (literals_of_step hstep literal hliteral), ?_⟩
  -- What stands in front of the part is a part itself, and has ended.
  have behind {number : Nat} {front : Task} {product : Product} {m₁ : Machine}
      (hfront : Step fuel (performs settings fuel calls) task m number front m)
      (hperforms : performs settings fuel calls front m product m₁) : m₁.KeepsTo P first := by
    have hliterals literal hliteral := h.literals literal (literals_of_step hfront literal hliteral)
    exact (kept_of_performs ordinary hfamily hperforms ⟨hliterals, h.machine⟩).machine
  cases hstep with
  | right hleft _ => exact behind .left hleft
  | tail hhead => exact behind .head hhead
  | assigned hreceiver => exact behind .receiver hreceiver
  | thenBody htest _ | elseBody htest _ => exact (behind .branchTest htest).enter
  | switchCases htest => exact behind .switchTest htest
  | loopTest hrounds _ => exact keepsTo_of_rounds ordinary hfamily hrounds h
  | loopBody hrounds _ htest _ =>
      obtain ⟨hliterals, -⟩ := List.forall_mem_append.mp h.literals
      have hm₁ := keepsTo_of_rounds ordinary hfamily hrounds h
      exact (kept_of_performs ordinary hfamily htest ⟨hliterals, hm₁⟩).machine.enter
  | rest hfirst => exact behind .first hfirst
  | defaultBody => exact h.machine.enter
  | caseBody hvalue _ => exact (behind .caseValue hvalue).enter
  | otherCases hvalue _ _ => exact behind .caseValue hvalue
  | _ => exact h.machine

end Visits

/-- The body of a function that is called is ready when its arguments are bound. -/
theorem Ready.body {name : String} {values : List Value} {inner : Calls} {function : Function}
    (h : Kept P first (.values values) m)
    (henters : Enters settings fuel calls name values m inner function m') :
    Ready P first (.statements function.body) m' := by
  obtain ⟨hfound, -, hbound⟩ := henters
  exact ⟨(h.machine.functions.lookupFunction hfound).2 function rfl,
    (h.machine.callee hfound).bindParameters h.product hbound⟩

theorem ready_of_visits {start visit : Visit} (hfamily : Value.Family first P)
    (ordinary : Ordinary settings fuel start.calls) (h : Ready P first start.task start.machine)
    (hvisits : Visits settings fuel start visit) :
    Ordinary settings fuel visit.calls ∧ Ready P first visit.task visit.machine := by
  induction hvisits with
  | here => exact ⟨ordinary, h⟩
  | part _ hstep ih =>
      obtain ⟨ordinary, hready⟩ := ih
      exact ⟨ordinary, hready.step ordinary hfamily hstep⟩
  | body _ hvalues henters ih =>
      obtain ⟨ordinary, hready⟩ := ih
      have arguments := kept_of_performs ordinary hfamily (performs_expressions.mpr hvalues)
        (hready.step ordinary hfamily .arguments)
      have hbody := Ready.body arguments henters
      obtain ⟨-, hdeeper, -⟩ := henters
      exact ⟨.deeper hdeeper, hbody⟩

/-- The operands that an operator is applied to at a visit belong to the family. -/
theorem Visit.Operates.operands {visit : Visit} {operator : Operator} {a b : Value}
    (hoperates : visit.Operates settings operator a b m') (hfamily : Value.Family first P)
    (ordinary : Ordinary settings fuel visit.calls) (h : Ready P first visit.task visit.machine) :
    P a ∧ P b := by
  cases hoperates with
  | mk logical hleft hright =>
      have left := kept_of_performs ordinary hfamily (performs_expression.mpr hleft)
        (h.step ordinary hfamily .left)
      have hready := h.step ordinary hfamily (.right (performs_expression.mpr hleft)
        fun isLogical => by simp [logical] at isLogical)
      have right := kept_of_performs ordinary hfamily (performs_expression.mpr hright) hready
      exact ⟨left.product, right.product⟩

end Run

/-! ## Whole runs -/

namespace Program

variable {settings : RunSettings} {fuel : Nat} {program : Program} {machine m : Machine}

/-- A run starts on a machine that keeps to a family if the literals of the program belong to it. -/
theorem keepsTo_of_bindFunctions
    (hliterals : ∀ literal ∈ program.literals, P (.ofLiteral literal))
    (h : Run.bindFunctions program.functions { machine with scope := .initial } = .ok () m) :
    m.KeepsTo P machine.lists.next := by
  have hfunctions : ∀ function ∈ program.functions, ∀ literal ∈ function.literals,
      P (.ofLiteral literal) := fun function hmem literal hliteral =>
    hliterals literal (List.mem_append_right _ (List.mem_flatMap.mpr ⟨function, hmem, hliteral⟩))
  have hbind : Spends (fun function => ∀ literal ∈ function.literals, P (.ofLiteral literal)) True 0
      (Run.bindFunctions program.functions) := spends_bindFunctions hfunctions
  have hspends := hbind { machine with scope := .initial } RunScope.binds_initial
  rw [h] at hspends
  cases hspends with
  | ok hbinds _ =>
      obtain rfl := bindFunctions_eq_ok h rfl
      refine ⟨Nat.le_refl _, nofun, fun id hid item hitem => ?_, hbinds⟩
      have hnone : machine.lists.items id = #[] := Lists.items_of_next_le hid
      rw [hnone] at hitem
      exact absurd hitem (Array.not_mem_empty item)

variable (hfamily : Value.Family machine.lists.next P)
  (hliterals : ∀ literal ∈ program.literals, P (.ofLiteral literal))
include hliterals

theorem ready_of_initial {earlier later : List Global} {global : Global} {start : Visit}
    (hinitial : program.Initial settings fuel machine earlier global later start)
    (h : start.machine.KeepsTo P machine.lists.next) :
    Ready P machine.lists.next start.task start.machine := by
  refine ⟨fun literal hliteral => ?_, h⟩
  obtain ⟨hsplit, hvalue, -⟩ := hinitial
  have hmem : global ∈ program.globals := by
    rw [hsplit]
    exact List.mem_append_right _ List.mem_cons_self
  refine hliterals literal (List.mem_append_left _ (List.mem_flatMap.mpr ⟨global, hmem, ?_⟩))
  rw [Global.literals, hvalue]
  exact hliteral

include hfamily

/-- Behind the first globals of a program the machine keeps to the family. -/
theorem keepsTo_of_initialises {globals : List Global} (hglobals : globals <+: program.globals)
    (h : program.Initialises settings fuel machine globals m) :
    m.KeepsTo P machine.lists.next := by
  -- From the front, since a global is evaluated on the machine behind those in front of it.
  induction globals using List.reverseRecOn generalizing m with
  | nil =>
      obtain ⟨linked, hlinked, hbound⟩ := h
      obtain ⟨-, rfl⟩ := pure_eq_ok.mp hbound
      exact keepsTo_of_bindFunctions hliterals hlinked
  | append_singleton earlier global ih =>
      obtain ⟨linked, hlinked, hbound⟩ := h
      obtain ⟨m₁, hearlier, hlast⟩ := bindGlobals_append hbound
      have hm₁ := ih ((List.prefix_append _ _).trans hglobals) ⟨linked, hlinked, hearlier⟩
      rw [bindGlobals_cons] at hlast
      obtain ⟨v, m₂, hvalue, hlast⟩ := bind_eq_ok.mp hlast
      obtain ⟨_, m₃, hdefine, hlast⟩ := bind_eq_ok.mp hlast
      obtain ⟨scope, hscope, rfl⟩ := define_eq_ok.mp hdefine
      obtain ⟨-, rfl⟩ := pure_eq_ok.mp hlast
      unfold initialValue at hvalue
      cases hglobal : global.value with
      | none =>
          rw [hglobal] at hvalue
          obtain ⟨rfl, rfl⟩ := pure_eq_ok.mp hvalue
          exact hm₁.define hfamily.nil hscope
      | some expression =>
          rw [hglobal] at hvalue
          obtain ⟨later, hglobals⟩ := hglobals
          have hsplit : program.globals = earlier ++ global :: later := by simp [← hglobals]
          have hready := ready_of_initial hliterals
            (.mk hsplit hglobal ⟨linked, hlinked, hearlier⟩) hm₁
          have initial := kept_of_performs .outermost hfamily (performs_expression.mpr hvalue)
            hready
          exact initial.machine.define initial.product hscope

theorem ready_of_main {start : Visit} (hmain : program.Main settings fuel machine start) :
    Ordinary settings fuel start.calls ∧
      Ready P machine.lists.next start.task start.machine := by
  obtain ⟨hinitialises, hfound, hdeeper, hbound⟩ := hmain
  have hm := keepsTo_of_initialises hfamily hliterals (List.prefix_refl _) hinitialises
  have hready : Kept P machine.lists.next (.values []) (program.ready _) :=
    ⟨⟨hm.bound, hm.scope, hm.items, hm.functions⟩, List.forall_mem_nil _⟩
  exact ⟨.deeper hdeeper, .body hready (.mk hfound hdeeper hbound)⟩

/-- Whatever a run takes up, it takes up on a machine that keeps to a family of values, if the
literals of the program belong to the family. -/
theorem ready_of_visits {visit : Visit} (hvisits : program.Visits settings fuel machine visit) :
    Ordinary settings fuel visit.calls ∧
      Ready P machine.lists.next visit.task visit.machine := by
  obtain ⟨start, ⟨earlier, global, later, hinitial⟩ | hmain, hvisits⟩ := hvisits
  · have hstart := hinitial
    obtain ⟨hsplit, -, hinitialises⟩ := hinitial
    have hm := keepsTo_of_initialises hfamily hliterals ⟨global :: later, hsplit.symm⟩ hinitialises
    exact Run.ready_of_visits hfamily .outermost (ready_of_initial hliterals hstart hm) hvisits
  · obtain ⟨ordinary, hready⟩ := ready_of_main hfamily hliterals hmain
    exact Run.ready_of_visits hfamily ordinary hready hvisits

end Program

end TinyScript
