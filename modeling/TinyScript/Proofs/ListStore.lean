import TinyScript.Proofs.Run.Closed

/-!
# The store of lists

Lists are shared, and what a list holds can change through any variable that holds it. Still a run
treats them with discipline: a list keeps the length with which it is made, to the end of the run; a
list literal makes a list that nothing has referred to before; and an assignment to an element finds
its list before anything else, evaluates index and value, and then puts one item into one slot of
that list, or fails and has done no more than evaluate.
-/

namespace TinyScript

open Run

/-! ## Putting an item into a slot -/

/-- One store is another one with an item put into a slot of a list. -/
structure Lists.PutAt (lists : Lists) (id : ListId) (slot : Nat) (item : Value) (lists' : Lists) :
    Prop where
  next : lists'.next = lists.next
  inside : slot < (lists.items id).size
  changed : lists'.items id = (lists.items id).set slot item inside
  others : ∀ other, other ≠ id → lists'.items other = lists.items other

theorem Lists.putAt_put {lists : Lists} {id : ListId} {slot : Nat} {item : Value}
    (hslot : slot < (lists.items id).size) :
    lists.PutAt id slot item (lists.put id slot item) where
  next := by simp [Lists.next, Lists.put]
  inside := hslot
  changed := by rw [Lists.items_put, if_pos rfl, Array.setIfInBounds_def, dif_pos hslot]
  others other hother := by rw [Lists.items_put, if_neg hother]

/-- One store is another one with a list of some values made. -/
structure Lists.Added (lists : Lists) (values : List Value) (lists' : Lists) : Prop where
  next : lists'.next = lists.next + 1
  made : lists'.items lists.next = values.toArray
  others : ∀ other, other ≠ lists.next → lists'.items other = lists.items other

theorem Lists.added_add (lists : Lists) (values : List Value) :
    lists.Added values (lists.add values.toArray) where
  next := by simp [Lists.next, Lists.add]
  made := by rw [Lists.items_add, if_pos rfl]
  others other hother := by rw [Lists.items_add, if_neg hother]

/-- A value that denotes a slot is its number, and the slot is in range. -/
theorem Value.slot_eq_ok {value : Value} {name : String} {length slot : Nat}
    (h : value.slot name length = .ok slot) : value = .integer slot ∧ slot < length := by
  cases value with
  | integer index =>
      simp only [Value.slot] at h
      split at h
      · next hrange =>
          obtain rfl : index.toNat = slot := Except.ok.inj h
          exact ⟨by rw [Int.toNat_of_nonneg hrange.1], by omega⟩
      · cases h
  | _ => cases h

/-! ## Lists that nothing refers to -/

/-- No list has a number, no variable holds a list of that number, and no list from a number on has
one as an item. -/
structure Machine.Unknown (first : ListId) (m : Machine) (id : ListId) : Prop where
  number : m.lists.next ≤ id
  unheld : ∀ frame ∈ m.scope.frames, ∀ name found,
    frame.lookupVariable name = some found → found.value ≠ .list id
  items : ∀ other, first ≤ other → .list id ∉ m.lists.items other

theorem Scope.Holds.frames {P : Value → Prop} {scope : RunScope} (h : Scope.Holds P scope) :
    ∀ frame ∈ scope.frames, frame.Holds P := by
  induction scope with
  | root frame => exact List.forall_mem_singleton.mpr h
  | child frame parent ih => exact List.forall_mem_cons.mpr ⟨h.1, ih h.2⟩

theorem Value.Within.ne_list {first next id : ListId} {value : Value}
    (h : value.Within first next) (hid : next ≤ id) : value ≠ .list id := by
  rintro rfl
  exact absurd h.2 (Nat.not_lt.mpr hid)

/-- A closed machine knows none of the numbers that are still to be given. -/
theorem Machine.Closed.unknown {first id : ListId} {m : Machine} (h : m.Closed first)
    (hid : m.lists.next ≤ id) : m.Unknown first id where
  number := hid
  unheld frame hframe name found hfound :=
    (h.scope.frames frame hframe name found hfound).ne_list hid
  items other hother hmem := (h.items other hother _ hmem).ne_list hid rfl

namespace Run

variable {settings : RunSettings} {fuel : Nat} {calls : Calls} {name : String}
  {index value : Expression} {binding : Option VariableBinding} {ty : Option Ty} {m m' : Machine}

theorem store_slot_eq_ok {id : ListId} {position item : Value} {u : Unit}
    (h : store (.slot name id position) item m = .ok u m') :
    ∃ slot, position.slot name (m.lists.items id).size = .ok slot ∧
      m' = { m with lists := m.lists.put id slot item } := by
  obtain ⟨items, m₁, hitems, h⟩ := bind_eq_ok.mp h
  cases hitems
  obtain ⟨slot, m₂, hchecked, hput⟩ := bind_eq_ok.mp h
  obtain ⟨hslot, rfl⟩ := ofExcept_eq_ok.mp hchecked
  cases hput
  exact ⟨slot, hslot, rfl⟩

theorem store_slot_eq_error {id : ListId} {position item : Value} {halt : Halt}
    (h : store (.slot name id position) item m = .error halt m') : m' = m := by
  rcases bind_eq_error.mp h with hitems | ⟨items, m₁, hitems, h⟩
  · cases hitems
  cases hitems
  rcases bind_eq_error.mp h with hslot | ⟨slot, m₂, -, hput⟩
  · obtain ⟨error, -, -, rfl⟩ := ofExcept_eq_error.mp hslot
    rfl
  · cases hput

/-- A list literal makes a list of the values of its elements, under the next number. -/
theorem evaluate_list_eq_ok {elements : List Expression} {made : Value}
    (h : evaluate settings calls (.list elements ty) m = .ok made m') :
    ∃ values m₁, evaluateAll settings calls elements m = .ok values m₁ ∧
      made = .list m₁.lists.next ∧ m' = { m₁ with lists := m'.lists } ∧
      m₁.lists.Added values m'.lists := by
  rw [evaluate] at h
  obtain ⟨values, m₁, hvalues, hmade⟩ := bind_eq_ok.mp h
  cases hmade
  exact ⟨values, m₁, hvalues, rfl, rfl, Lists.added_add m₁.lists values⟩

/-! ## Assignments to elements -/

theorem locate_element_eq_ok {target : Target}
    (h : locate settings calls (.element name index binding ty) m = .ok target m') :
    ∃ id position, m.scope.lookupVariable name = some ⟨true, .list id⟩ ∧
      evaluate settings calls index m = .ok position m' ∧ target = .slot name id position := by
  obtain ⟨⟨isMutable, held⟩, m₁, hfound, h⟩ := bind_eq_ok.mp h
  obtain ⟨hlookup, hmutable, rfl⟩ := receiver_eq_ok.mp hfound
  obtain ⟨id, m₂, hchecked, h⟩ := bind_eq_ok.mp h
  obtain ⟨hlist, rfl⟩ := ofExcept_eq_ok.mp hchecked
  obtain ⟨position, m₃, hposition, htarget⟩ := bind_eq_ok.mp h
  obtain ⟨rfl, rfl⟩ := pure_eq_ok.mp htarget
  obtain rfl : isMutable = true := hmutable
  obtain rfl : held = .list id := Value.listOf_eq_ok.mp hlist
  exact ⟨id, position, hlookup, hposition, rfl⟩

/-- Unless its name stands for a mutable variable that holds a list, a receiver fails on the spot;
else it fails when its index does. -/
theorem locate_element_eq_error {halt : Halt}
    (h : locate settings calls (.element name index binding ty) m = .error halt m') :
    ((∀ id, m.scope.lookupVariable name ≠ some ⟨true, .list id⟩) ∧ m' = m) ∨
      ∃ id, m.scope.lookupVariable name = some ⟨true, .list id⟩ ∧
        evaluate settings calls index m = .error halt m' := by
  rcases bind_eq_error.mp h with hreceiver | ⟨⟨isMutable, held⟩, m₁, hfound, h⟩
  · refine .inl ?_
    rcases receiver_eq_error.mp hreceiver with ⟨hnone, -, rfl⟩ | ⟨found, hfound, hmutable, -, rfl⟩
    · refine ⟨fun id hlookup => ?_, rfl⟩
      cases hnone.symm.trans hlookup
    · refine ⟨fun id hlookup => ?_, rfl⟩
      obtain rfl := Option.some.inj (hfound.symm.trans hlookup)
      cases hmutable
  obtain ⟨hlookup, hmutable, rfl⟩ := receiver_eq_ok.mp hfound
  obtain rfl : isMutable = true := hmutable
  rcases bind_eq_error.mp h with hfails | ⟨id, m₂, hchecked, hrest⟩
  · obtain ⟨error, herror, -, rfl⟩ := ofExcept_eq_error.mp hfails
    refine .inl ⟨fun id hlookup' => ?_, rfl⟩
    cases hlookup.symm.trans hlookup'
    cases herror
  obtain ⟨hlist, rfl⟩ := ofExcept_eq_ok.mp hchecked
  obtain rfl : held = .list id := Value.listOf_eq_ok.mp hlist
  rcases bind_eq_error.mp hrest with hposition | ⟨position, m₃, -, htarget⟩
  · exact .inr ⟨id, hlookup, hposition⟩
  · exact absurd htarget pure_ne_error

/-- An assignment to an element that succeeds puts one item into one slot of the list that the
variable has held before index and value are evaluated, and does nothing else but evaluate them. -/
theorem execute_element_eq_ok {flow : Flow}
    (h : execute settings fuel calls (.assignment (.element name index binding ty) value) m =
      .ok flow m') :
    ∃ id slot item m₁ m₂, m.scope.lookupVariable name = some ⟨true, .list id⟩ ∧
      evaluate settings calls index m = .ok (.integer (slot : Nat)) m₁ ∧
      evaluate settings calls value m₁ = .ok item m₂ ∧
      m' = { m₂ with lists := m'.lists } ∧ m₂.lists.PutAt id slot item m'.lists := by
  rw [execute, assignTo] at h
  obtain ⟨_, m₃, hassign, hcompleted⟩ := bind_eq_ok.mp h
  obtain ⟨-, rfl⟩ := pure_eq_ok.mp hcompleted
  obtain ⟨target, m₁, hlocate, hassign⟩ := bind_eq_ok.mp hassign
  obtain ⟨item, m₂, hvalue, hstore⟩ := bind_eq_ok.mp hassign
  obtain ⟨id, position, hlookup, hposition, rfl⟩ := locate_element_eq_ok hlocate
  obtain ⟨slot, hslot, rfl⟩ := store_slot_eq_ok hstore
  obtain ⟨rfl, hinside⟩ := Value.slot_eq_ok hslot
  exact ⟨id, slot, item, m₁, m₂, hlookup, hposition, hvalue, rfl, Lists.putAt_put hinside⟩

/-- An assignment to an element that fails has done nothing but evaluate index and value as far as
it has come, and has evaluated neither if its name does not stand for a mutable variable that holds
a list. -/
theorem execute_element_eq_error {halt : Halt}
    (h : execute settings fuel calls (.assignment (.element name index binding ty) value) m =
      .error halt m') :
    ((∀ id, m.scope.lookupVariable name ≠ some ⟨true, .list id⟩) ∧ m' = m) ∨
      ∃ id, m.scope.lookupVariable name = some ⟨true, .list id⟩ ∧
        (evaluate settings calls index m = .error halt m' ∨
          ∃ position m₁, evaluate settings calls index m = .ok position m₁ ∧
            (evaluate settings calls value m₁ = .error halt m' ∨
              ∃ item, evaluate settings calls value m₁ = .ok item m')) := by
  rw [execute, assignTo] at h
  rcases bind_eq_error.mp h with hassign | ⟨_, m₃, -, hcompleted⟩
  · rcases bind_eq_error.mp hassign with hlocate | ⟨target, m₁, hlocate, hrest⟩
    · rcases locate_element_eq_error hlocate with hnone | ⟨id, hlookup, hindex⟩
      · exact .inl hnone
      · exact .inr ⟨id, hlookup, .inl hindex⟩
    · obtain ⟨id, position, hlookup, hposition, rfl⟩ := locate_element_eq_ok hlocate
      refine .inr ⟨id, hlookup, .inr ⟨position, m₁, hposition, ?_⟩⟩
      rcases bind_eq_error.mp hrest with hvalue | ⟨item, m₂, hvalue, hstore⟩
      · exact .inl hvalue
      · obtain rfl := store_slot_eq_error hstore
        exact .inr ⟨item, hvalue⟩
  · exact absurd hcompleted pure_ne_error

/-- It has not even taken them up. -/
theorem visits_element_of_unready {site : Site}
    (hunready : ∀ id, m.scope.lookupVariable name ≠ some ⟨true, .list id⟩) {visit : Visit}
    (hvisits : Visits settings fuel
      ⟨calls, site, .statement (.assignment (.element name index binding ty) value), m⟩ visit) :
    visit = ⟨calls, site, .statement (.assignment (.element name index binding ty) value), m⟩ ∨
      visit = ⟨calls, site.part 0, .receiver (.element name index binding ty), m⟩ := by
  refine visits_assignment_of_stuck (fun target m' hlocate => ?_) (fun number task m' hstep => ?_)
    hvisits
  · obtain ⟨id, position, hlookup, -⟩ := locate_element_eq_ok hlocate
    exact hunready id hlookup
  · cases hstep with
    | @receiverIndex _ _ _ _ _ found id hlookup hmutable hlist =>
        obtain ⟨isMutable, held⟩ := found
        obtain rfl : isMutable = true := hmutable
        obtain rfl : held = .list id := hlist
        exact hunready id hlookup

end Run

/-! ## Whole runs -/

namespace Program

variable {settings : RunSettings} {fuel : Nat} {program : Program} {machine : Machine}

theorem lists_execute : (program.execute settings fuel machine).2.lists =
    ((program.inside settings fuel).behind { machine with scope := .initial }).lists := by
  unfold behind
  cases h : program.inside settings fuel { machine with scope := .initial } with
  | ok result after => rw [execute_of_ok h]
  | error halt after => rw [execute_of_error h]

/-- The discipline that a run keeps with lists. -/
structure ListDiscipline (settings : RunSettings) (fuel : Nat) (program : Program)
    (machine : Machine) : Prop where
  /-- The lists that are there when a task is taken up, and those that are there when it has ended,
  well or badly, have the lengths that they have when the run has ended. -/
  lengths : ∀ visit, program.Visits settings fuel machine visit →
    visit.machine.lists.Keeps (program.execute settings fuel machine).2.lists ∧
      ((perform settings fuel visit.calls visit.task).behind visit.machine).lists.Keeps
        (program.execute settings fuel machine).2.lists
  /-- A list literal makes a list that nothing has known: neither the machine in which it is made,
  nor the values of its elements, nor any machine in which a task has been taken up that the literal
  is a part of. -/
  literals : ∀ calls site elements ty m made m',
    program.Visits settings fuel machine ⟨calls, site, .expression (.list elements ty), m⟩ →
    evaluate settings calls (.list elements ty) m = .ok made m' →
      ∃ values m₁, evaluateAll settings calls elements m = .ok values m₁ ∧
        made = .list m₁.lists.next ∧ m' = { m₁ with lists := m'.lists } ∧
        m₁.lists.Added values m'.lists ∧ made ∉ values ∧
        m₁.Unknown machine.lists.next m₁.lists.next ∧
        ∀ outer, program.Visits settings fuel machine outer →
          Run.Visits settings fuel outer ⟨calls, site, .expression (.list elements ty), m⟩ →
            outer.machine.Unknown machine.lists.next m₁.lists.next
  /-- An assignment to an element that succeeds puts, when index and value are evaluated, one item
  into one slot of the list that the variable has held before, and changes nothing else. -/
  assigned : ∀ calls site name index binding ty value m flow m',
    program.Visits settings fuel machine
      ⟨calls, site, .statement (.assignment (.element name index binding ty) value), m⟩ →
    Run.execute settings fuel calls (.assignment (.element name index binding ty) value) m =
      .ok flow m' →
      ∃ id slot item m₁ m₂, m.scope.lookupVariable name = some ⟨true, .list id⟩ ∧
        id < m.lists.next ∧ evaluate settings calls index m = .ok (.integer (slot : Nat)) m₁ ∧
        evaluate settings calls value m₁ = .ok item m₂ ∧
        m' = { m₂ with lists := m'.lists } ∧ m₂.lists.PutAt id slot item m'.lists
  /-- An assignment to an element that fails has changed nothing itself. It takes up neither index
  nor value when the name does not stand for a mutable variable that holds a list. -/
  failed : ∀ calls site name index binding ty value m halt m',
    program.Visits settings fuel machine
      ⟨calls, site, .statement (.assignment (.element name index binding ty) value), m⟩ →
    Run.execute settings fuel calls (.assignment (.element name index binding ty) value) m =
      .error halt m' →
      ((∀ id, m.scope.lookupVariable name ≠ some ⟨true, .list id⟩) ∧ m' = m ∧
        ∀ visit, Run.Visits settings fuel
            ⟨calls, site, .statement (.assignment (.element name index binding ty) value), m⟩
            visit →
          visit =
            ⟨calls, site, .statement (.assignment (.element name index binding ty) value), m⟩ ∨
          visit = ⟨calls, site.part 0, .receiver (.element name index binding ty), m⟩) ∨
      ∃ id, m.scope.lookupVariable name = some ⟨true, .list id⟩ ∧
        (evaluate settings calls index m = .error halt m' ∨
          ∃ position m₁, evaluate settings calls index m = .ok position m₁ ∧
            (evaluate settings calls value m₁ = .error halt m' ∨
              ∃ item, evaluate settings calls value m₁ = .ok item m'))

/-- Every run of every program keeps the discipline. -/
theorem keeps_list_discipline : program.ListDiscipline settings fuel machine where
  lengths visit hvisit := by
    obtain ⟨hordinary, hplain, -⟩ := (boundBefore_of_visits hvisit).reaches
    have hstart : Ahead visit.machine (program.inside settings fuel)
        { machine with scope := .initial } :=
      ahead_inside_of_visits hvisit (works_perform hordinary visit.task _ hplain).precedes
    have hend := ahead_inside_of_visits hvisit (.refl _)
    rw [lists_execute]
    exact ⟨hstart.lists, hend.lists⟩
  literals calls site elements ty m made m' hvisit h := by
    obtain ⟨values, m₁, hvalues, rfl, hmachine, hadded⟩ := evaluate_list_eq_ok h
    obtain ⟨hordinary, hclosed⟩ := closed_of_visits hvisit
    have helements := closes_of_performs hordinary hclosed (performs_expressions.mpr hvalues)
    refine ⟨values, m₁, hvalues, rfl, hmachine, hadded, ?_, ?_, ?_⟩
    · exact fun hmem => (helements.product _ hmem).ne_list (Nat.le_refl _) rfl
    · exact helements.machine.unknown (Nat.le_refl _)
    · intro outer houter hinside
      obtain ⟨hordinary', hplain, -⟩ := (boundBefore_of_visits houter).reaches
      have hgrows := (reaches_of_visits hordinary' hplain hinside).2.precedes.lists.next
      exact (closed_of_visits houter).2.unknown (Nat.le_trans hgrows helements.next)
  assigned calls site name index binding ty value m flow m' hvisit h := by
    obtain ⟨id, slot, item, m₁, m₂, hlookup, hindex, hvalue, hmachine, hput⟩ :=
      execute_element_eq_ok h
    have hlist := (closed_of_visits hvisit).2.scope.lookupVariable hlookup
    exact ⟨id, slot, item, m₁, m₂, hlookup, hlist.2, hindex, hvalue, hmachine, hput⟩
  failed calls site name index binding ty value m halt m' hvisit h := by
    rcases execute_element_eq_error h with ⟨hunready, hmachine⟩ | hevaluated
    · exact .inl ⟨hunready, hmachine, fun visit hvisits =>
        visits_element_of_unready hunready hvisits⟩
    · exact .inr hevaluated

/-- An assignment to an element of `xs`, whose index comes from a call that makes `xs` hold another
list. -/
def swappingAssignment : Statement :=
  .assignment (.element "xs" (.call "swap" [] none none) none none) (.literal (.integer 3) none)

/-- A program that executes this assignment. -/
def swapping : Program where
  globals :=
    [⟨"xs", none, true, some (.list [.literal (.integer 1) none] none), none⟩,
      ⟨"ys", none, true, some (.list [.literal (.integer 2) none] none), none⟩]
  functions :=
    [⟨"swap", [], some "Integer",
        [.assignment (.access "xs" none none) (.access "ys" none none),
          .result (.literal (.integer 0) none)], none⟩,
      ⟨"main", [], some "Integer", [swappingAssignment], none⟩]

/-- The machine in which the globals of the program are bound. -/
def swappingMachine : Machine :=
  { Machine.initial .unlimited with
    scope := .root ⟨[("ys", ⟨true, .list 1⟩), ("xs", ⟨true, .list 0⟩)], swapping.linked⟩
    lists := ⟨#[#[.integer 1], #[.integer 2]]⟩ }

/-- The machine in which `main` is. -/
def swappingInside : Machine :=
  (swapping.ready swappingMachine).callee swappingMachine.scope "main" 0

/-- The visit of the assignment. -/
def swappingVisit : Visit :=
  ⟨callWithin default 1 9999, (Site.body "main" 0).part 0, .statement swappingAssignment,
    swappingInside⟩

/-- The assignment changes the list that `xs` has held before its index is evaluated, although `xs`
holds the other one by then. -/
theorem keeps_list_discipline_swapping :
    swapping.Visits default 1 (.initial .unlimited) swappingVisit ∧
      ∃ m', Run.execute default 1 swappingVisit.calls swappingAssignment swappingInside =
          .ok .completed m' ∧
        m'.scope.lookupVariable "xs" = some ⟨true, .list 1⟩ ∧
        m'.lists.items 0 = #[.integer 3] ∧ m'.lists.items 1 = #[.integer 2] ∧
        ∃ slot item m₂, Lists.PutAt m₂ 0 slot item m'.lists := by
  have hinitialises : swapping.Initialises default 1 (.initial .unlimited) swapping.globals
      swappingMachine := ⟨_, rfl, rfl⟩
  have hmain : swapping.Main default 1 (.initial .unlimited)
      ⟨callWithin default 1 9999, .body "main" 0, .statements [swappingAssignment],
        swappingInside⟩ := .mk hinitialises (.mk rfl (.outermost rfl) rfl)
  have hvisit : swapping.Visits default 1 (.initial .unlimited) swappingVisit :=
    ⟨_, .inr hmain, .part .here .first⟩
  have hexecute : ∃ m', Run.execute default 1 swappingVisit.calls swappingAssignment
      swappingInside = .ok .completed m' ∧
        m'.scope.lookupVariable "xs" = some ⟨true, .list 1⟩ ∧
        m'.lists.items 0 = #[.integer 3] ∧ m'.lists.items 1 = #[.integer 2] :=
    ⟨_, rfl, rfl, rfl, rfl⟩
  obtain ⟨m', hok, hxs, hfirst, hsecond⟩ := hexecute
  obtain ⟨id, slot, item, m₁, m₂, hlookup, -, -, -, -, hput⟩ :=
    keeps_list_discipline.assigned _ _ _ _ _ _ _ _ _ _ hvisit hok
  obtain rfl : (0 : ListId) = id := by
    have hheld : swappingInside.scope.lookupVariable "xs" = some ⟨true, .list 0⟩ := rfl
    cases hheld.symm.trans hlookup
    rfl
  exact ⟨hvisit, m', hok, hxs, hfirst, hsecond, slot, item, m₂.lists, hput⟩

end Program

end TinyScript
