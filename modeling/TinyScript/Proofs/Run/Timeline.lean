import TinyScript.Proofs.Run.Effects
import TinyScript.Proofs.Run.Outcome

/-!
# The order of the machines of a run

Of two machines that a run comes to, the later one has every variable of the outermost frame that
the earlier one has, no list of the earlier one has another length in it, and text and notices have
only been added (`Machine.Precedes`). A task precedes the tasks that are taken up in its course
(`reaches_of_visits`), and whatever happens in its course precedes its end, however it ends
(`Ahead.of_visits`). So the end of a run is behind everything that happens in it.
-/

namespace TinyScript

open Run

/-- A machine that a run comes to before another one. -/
structure Machine.Precedes (m m' : Machine) : Prop extends Machine.Grows m m' where
  outermost : m.scope.outermost.Extends m'.scope.outermost

namespace Machine

variable {m m₁ m₂ : Machine}

theorem Works.precedes (h : m.Works m₁) : m.Precedes m₁ := ⟨h.toGrows, h.scope.outermost⟩

theorem Precedes.refl (m : Machine) : m.Precedes m := (Works.refl m).precedes

theorem Precedes.trans (h : m.Precedes m₁) (h' : m₁.Precedes m₂) : m.Precedes m₂ :=
  ⟨h.toGrows.trans h'.toGrows, h.outermost.trans h'.outermost⟩

theorem Precedes.enter (m : Machine) : m.Precedes m.enter :=
  ⟨⟨.refl _, (Grows.refl m).sink, List.suffix_refl _⟩, .refl _⟩

/-- What has been done inside a block is over behind it. -/
theorem Works.block (h : m.enter.Works m₁) : m.Works m₁.leave :=
  ⟨⟨h.lists, h.sink, h.notices⟩, h.scope.block.works, h.active⟩

end Machine

namespace Run

variable {settings : RunSettings} {fuel : Nat} {calls : Calls} {m m' mid : Machine}

/-! ## Tasks and their parts -/

theorem works_of_performs (h : Ordinary settings fuel calls) (hplain : m.scope.PlainLocals)
    {task : Task} {product : Product}
    (hperforms : performs settings fuel calls task m product m') : m.Works m' :=
  behind_of_ok hperforms ▸ works_perform h task m hplain

theorem works_of_rounds (h : Ordinary settings fuel calls) (hplain : m.scope.PlainLocals)
    {test : Expression} {body : List Statement} {rounds : Nat}
    (hrounds : Rounds (performs settings fuel calls) test body m rounds m') : m.Works m' := by
  induction hrounds with
  | none => exact .refl m
  | more _ htest _ hbody ih =>
      have hrounds := ih
      have htest := works_of_performs h (hrounds.scope.plainLocals hplain) htest
      have hplain₂ := htest.scope.plainLocals (hrounds.scope.plainLocals hplain)
      exact (hrounds.trans htest).trans (works_of_performs h hplain₂.enter hbody).block

/-- A part of a task is taken up in the block of the task or in a fresh one inside it. -/
theorem works_of_step (h : Ordinary settings fuel calls) (hplain : m.scope.PlainLocals)
    {task task' : Task} {number : Nat}
    (hstep : Step fuel (performs settings fuel calls) task m number task' m') :
    ∃ m₁, m.Works m₁ ∧ (m' = m₁ ∨ m' = m₁.enter) := by
  cases hstep with
  | right hleft _ => exact ⟨_, works_of_performs h hplain hleft, .inl rfl⟩
  | tail hhead => exact ⟨_, works_of_performs h hplain hhead, .inl rfl⟩
  | assigned hreceiver => exact ⟨_, works_of_performs h hplain hreceiver, .inl rfl⟩
  | thenBody htest _ | elseBody htest _ => exact ⟨_, works_of_performs h hplain htest, .inr rfl⟩
  | switchCases htest => exact ⟨_, works_of_performs h hplain htest, .inl rfl⟩
  | loopTest hrounds _ => exact ⟨_, works_of_rounds h hplain hrounds, .inl rfl⟩
  | loopBody hrounds _ htest _ =>
      have hrounds := works_of_rounds h hplain hrounds
      exact ⟨_, hrounds.trans (works_of_performs h (hrounds.scope.plainLocals hplain) htest),
        .inr rfl⟩
  | rest hfirst => exact ⟨_, works_of_performs h hplain hfirst, .inl rfl⟩
  | defaultBody => exact ⟨_, .refl m, .inr rfl⟩
  | caseBody hvalue _ => exact ⟨_, works_of_performs h hplain hvalue, .inr rfl⟩
  | otherCases hvalue _ _ => exact ⟨_, works_of_performs h hplain hvalue, .inl rfl⟩
  | _ => exact ⟨_, .refl m, .inl rfl⟩

/-- The body of a function is executed in a frame inside the outermost one. -/
theorem works_of_enters (hplain : m.scope.PlainLocals) {name : String} {values : List Value}
    {inner : Calls} {function : Function}
    (henters : Enters settings fuel calls name values m inner function m') :
    (m.callee (.root m.scope.outermost) name values.length).Works m' := by
  obtain ⟨hfound, -, hbound⟩ := henters
  obtain rfl := hplain.home hfound
  exact behind_of_ok hbound ▸ works_bindParameters _ _ _ (Scope.PlainLocals.enter nofun)

/-- A machine behind another one, in whose scope, too, only the outermost frame binds functions. -/
structure Reaches (m m' : Machine) : Prop where
  precedes : m.Precedes m'
  plain : m'.scope.PlainLocals

theorem Reaches.trans {m₁ m₂ : Machine} (h : Reaches m m₁) (h' : Reaches m₁ m₂) : Reaches m m₂ :=
  ⟨h.precedes.trans h'.precedes, h'.plain⟩

theorem reaches_of_works (hplain : m.scope.PlainLocals) (h : m.Works m') : Reaches m m' :=
  ⟨h.precedes, h.scope.plainLocals hplain⟩

theorem reaches_of_step (h : Ordinary settings fuel calls) (hplain : m.scope.PlainLocals)
    {task task' : Task} {number : Nat}
    (hstep : Step fuel (performs settings fuel calls) task m number task' m') :
    Reaches m m' := by
  obtain ⟨m₁, hworks, rfl | rfl⟩ := works_of_step h hplain hstep
  · exact reaches_of_works hplain hworks
  · exact ⟨hworks.precedes.trans (.enter m₁), (hworks.scope.plainLocals hplain).enter⟩

theorem reaches_of_enters (hplain : m.scope.PlainLocals) {name : String} {values : List Value}
    {inner : Calls} {function : Function}
    (henters : Enters settings fuel calls name values m inner function m') : Reaches m m' := by
  have hworks := works_of_enters hplain henters
  have hcallee : m.Precedes (m.callee (.root m.scope.outermost) name values.length) :=
    ⟨{ Machine.Grows.refl m with notices := List.suffix_cons _ _ }, .refl _⟩
  exact ⟨hcallee.trans hworks.precedes,
    hworks.scope.plainLocals (Scope.PlainLocals.enter nofun)⟩

/-- A task precedes the tasks that are taken up in its course. -/
theorem reaches_of_visits {start visit : Visit} (h : Ordinary settings fuel start.calls)
    (hplain : start.machine.scope.PlainLocals) (hvisits : Visits settings fuel start visit) :
    Ordinary settings fuel visit.calls ∧ Reaches start.machine visit.machine := by
  induction hvisits with
  | here => exact ⟨h, .refl _, hplain⟩
  | part _ hstep ih =>
      obtain ⟨hordinary, hreaches⟩ := ih
      exact ⟨hordinary, hreaches.trans (reaches_of_step hordinary hreaches.plain hstep)⟩
  | body _ hvalues henters ih =>
      obtain ⟨hordinary, hreaches⟩ := ih
      have hvalues := reaches_of_works hreaches.plain
        (works_of_performs hordinary hreaches.plain (performs_expressions.mpr hvalues))
      have hbody := reaches_of_enters hvalues.plain henters
      obtain ⟨-, hdeeper, -⟩ := henters
      exact ⟨.deeper hdeeper, (hreaches.trans hvalues).trans hbody⟩

/-! ## The ends of tasks -/

/-- A machine precedes the one that an action leaves, however it ends. -/
def Ahead {α : Type} (mid : Machine) (x : Run α) (m : Machine) : Prop := mid.Precedes (x.behind m)

namespace Ahead

variable {α β : Type} {x : Run α}

/-- What happens in the first step of a sequence. -/
theorem bind_of_rest {f : α → Run β} (h : Ahead mid x m)
    (hrest : ∀ a m₁, x m = .ok a m₁ → Ahead m₁ (f a) m₁) : Ahead mid (x >>= f) m := by
  unfold Ahead at h ⊢
  rw [behind_bind]
  cases hx : x m with
  | ok a m₁ => exact (behind_of_ok hx ▸ h).trans (hrest a m₁ hx)
  | error halt m₁ => exact behind_of_error hx ▸ h

theorem bind {f : α → Run β} (h : Ahead mid x m) (hx : Works x) (hplain : m.scope.PlainLocals)
    (hrest : ∀ a, Works (f a)) : Ahead mid (x >>= f) m :=
  h.bind_of_rest fun a m₁ hok =>
    (hrest a m₁ ((behind_of_ok hok ▸ hx m hplain).scope.plainLocals hplain)).precedes

/-- What happens behind the first step of a sequence. -/
theorem bind_of_ok {f : α → Run β} {a : α} {m₁ : Machine} (hx : x m = .ok a m₁)
    (h : Ahead mid (f a) m₁) : Ahead mid (x >>= f) m := by
  unfold Ahead at h ⊢
  rwa [behind_bind, hx]

theorem map_iff {f : α → β} : Ahead mid (f <$> x) m ↔ Ahead mid x m := by
  unfold Ahead
  rw [behind_map]

theorem inBlock (h : Ahead mid x m.enter) : Ahead mid (Run.inBlock x) m := by
  unfold Ahead at h ⊢
  rw [behind_inBlock]
  exact ⟨⟨h.lists, h.sink, h.notices⟩, by
    rw [Machine.leave, Scope.outermost_leave]
    exact h.outermost⟩

theorem inCallee {home : RunScope} (h : Ahead mid x { m with scope := home.enter }) :
    Ahead mid (Run.inCallee home x) m := by
  unfold Ahead at h ⊢
  rw [behind_inCallee]
  exact ⟨⟨h.lists, h.sink, h.notices⟩, by
    rw [Scope.outermost_regrow, Scope.outermost_leave]
    exact h.outermost⟩

theorem counted (h : Ahead mid x { m with active := m.active + 1 }) :
    Ahead mid (Run.counted x) m := by
  unfold Ahead at h ⊢
  rw [behind_counted]
  exact ⟨⟨h.lists, h.sink, h.notices⟩, h.outermost⟩

end Ahead

section Tasks

variable {task task' : Task}

@[simp] theorem ahead_expression {expression : Expression} :
    Ahead mid (perform settings fuel calls (.expression expression)) m ↔
      Ahead mid (evaluate settings calls expression) m := Ahead.map_iff

@[simp] theorem ahead_expressions {expressions : List Expression} :
    Ahead mid (perform settings fuel calls (.expressions expressions)) m ↔
      Ahead mid (evaluateAll settings calls expressions) m := Ahead.map_iff

@[simp] theorem ahead_receiver {receiver : Expression} :
    Ahead mid (perform settings fuel calls (.receiver receiver)) m ↔
      Ahead mid (locate settings calls receiver) m := Ahead.map_iff

@[simp] theorem ahead_statement {statement : Statement} :
    Ahead mid (perform settings fuel calls (.statement statement)) m ↔
      Ahead mid (execute settings fuel calls statement) m := Ahead.map_iff

@[simp] theorem ahead_statements {statements : List Statement} :
    Ahead mid (perform settings fuel calls (.statements statements)) m ↔
      Ahead mid (executeAll settings fuel calls statements) m := Ahead.map_iff

@[simp] theorem ahead_cases {selector : Value} {cases : List Case} :
    Ahead mid (perform settings fuel calls (.cases selector cases)) m ↔
      Ahead mid (executeCases settings fuel calls selector cases) m := Ahead.map_iff

theorem ahead_condition (h : Ordinary settings fuel calls) (hplain : m.scope.PlainLocals)
    {test : Expression} (hmid : Ahead mid (evaluate settings calls test) m) :
    Ahead mid (condition settings calls test) m :=
  hmid.bind (spares_evaluate h.spares test).works hplain fun _ => (Spares.ofExcept _).works

/-- What happens in a round of a loop precedes the end of the loop. -/
theorem ahead_loop {test : Expression} {body : List Statement} {m₁ : Machine} {rounds : Nat}
    (hrounds : Rounds (performs settings fuel calls) test body m rounds m₁) (more : rounds < fuel)
    (hmid : ∀ left, Ahead mid
      (repeatWhile (condition settings calls test)
        (inBlock (executeAll settings fuel calls body)) (left + 1)) m₁) :
    Ahead mid (execute settings fuel calls (.loop test body)) m := by
  have hmid := hmid (fuel - rounds - 1)
  have whole : fuel = rounds + (fuel - rounds - 1 + 1) := by omega
  unfold Ahead behind at hmid ⊢
  rw [← repeatWhile_of_rounds hrounds, ← whole] at hmid
  rwa [execute]

/-! ### Parts of tasks -/

theorem Ordinary.works_evaluate (h : Ordinary settings fuel calls) (expression : Expression) :
    Works (evaluate settings calls expression) := (spares_evaluate h.spares expression).works

/-- What happens in a part of an expression precedes the end of the expression. -/
theorem Ahead.of_expression (h : Ordinary settings fuel calls) (hplain : m.scope.PlainLocals)
    {expression : Expression} {number : Nat}
    (hstep : Step fuel (performs settings fuel calls) (.expression expression) m number task' m')
    (hmid : Ahead mid (perform settings fuel calls task') m') :
    Ahead mid (evaluate settings calls expression) m := by
  cases hstep with
  | group =>
      rw [ahead_expression] at hmid
      rwa [evaluate]
  | @left operator left right ty _ =>
      rw [ahead_expression] at hmid
      rw [evaluate]
      refine hmid.bind (h.works_evaluate left) hplain fun a => ?_
      split
      · refine .bind (Spares.ofExcept _).works fun truth => ?_
        split
        · exact (Spares.pure _).works
        · exact .bind (h.works_evaluate right) fun _ =>
            (Spares.bind (.ofExcept _) fun _ => .pure _).works
      · exact .bind (h.works_evaluate right) fun _ => (spares_operate operator _ _).works
  | @right operator left right ty _ m₁ a hleft hopen =>
      have hplain₁ := (works_of_performs h hplain hleft).scope.plainLocals hplain
      rw [ahead_expression] at hmid
      rw [evaluate]
      refine .bind_of_ok (performs_expression.mp hleft) ?_
      cases logical : operator.isLogical with
      | true =>
          obtain ⟨truth, htruth, hdecided⟩ := hopen logical
          simp only [if_true]
          refine .bind_of_ok (ofExcept_eq_ok.mpr ⟨htruth, rfl⟩) ?_
          simp only [hdecided, Bool.false_eq_true, if_false]
          exact hmid.bind (h.works_evaluate right) hplain₁ fun _ =>
            (Spares.bind (.ofExcept _) fun _ => .pure _).works
      | false =>
          simp only [Bool.false_eq_true, if_false]
          exact hmid.bind (h.works_evaluate right) hplain₁ fun _ =>
            (spares_operate operator _ _).works
  | @index name index binding ty _ found id hfound hid =>
      rw [ahead_expression] at hmid
      rw [evaluate]
      refine .bind_of_ok (variableNamed_eq_ok.mpr ⟨hfound, rfl⟩) ?_
      refine .bind_of_ok (ofExcept_eq_ok.mpr ⟨Value.listOf_eq_ok.mpr hid, rfl⟩) ?_
      exact hmid.bind (h.works_evaluate index) hplain fun _ => (spares_elementOf name _ _).works
  | @arguments name arguments binding ty _ =>
      rw [ahead_expressions] at hmid
      rw [evaluate]
      exact hmid.bind (spares_evaluateAll h.spares arguments).works hplain fun values =>
        (h.spares name values).works
  | @elements elements ty _ =>
      rw [ahead_expressions] at hmid
      rw [evaluate]
      exact hmid.bind (spares_evaluateAll h.spares elements).works hplain fun values =>
        (Spares.newList values).works

theorem Ahead.of_expressions (h : Ordinary settings fuel calls) (hplain : m.scope.PlainLocals)
    {expressions : List Expression} {number : Nat}
    (hstep : Step fuel (performs settings fuel calls) (.expressions expressions) m number task' m')
    (hmid : Ahead mid (perform settings fuel calls task') m') :
    Ahead mid (evaluateAll settings calls expressions) m := by
  cases hstep with
  | @head expression expressions _ =>
      rw [ahead_expression] at hmid
      rw [evaluateAll]
      exact hmid.bind (h.works_evaluate expression) hplain fun _ =>
        (Spares.bind (spares_evaluateAll h.spares expressions) fun _ => .pure _).works
  | @tail expression expressions _ m₁ a hhead =>
      have hplain₁ := (works_of_performs h hplain hhead).scope.plainLocals hplain
      rw [ahead_expressions] at hmid
      rw [evaluateAll]
      refine .bind_of_ok (performs_expression.mp hhead) ?_
      exact hmid.bind (spares_evaluateAll h.spares expressions).works hplain₁ fun _ =>
        (Spares.pure _).works

theorem Ahead.of_receiver (h : Ordinary settings fuel calls) (hplain : m.scope.PlainLocals)
    {receiver : Expression} {number : Nat}
    (hstep : Step fuel (performs settings fuel calls) (.receiver receiver) m number task' m')
    (hmid : Ahead mid (perform settings fuel calls task') m') :
    Ahead mid (locate settings calls receiver) m := by
  cases hstep with
  | @receiverIndex name index binding ty _ found id hfound hmutable hid =>
      rw [ahead_expression] at hmid
      rw [locate]
      refine .bind_of_ok (receiver_eq_ok.mpr ⟨hfound, hmutable, rfl⟩) ?_
      refine .bind_of_ok (ofExcept_eq_ok.mpr ⟨Value.listOf_eq_ok.mpr hid, rfl⟩) ?_
      exact hmid.bind (h.works_evaluate index) hplain fun _ => (Spares.pure _).works

/-- Behind the place of an assignment its value is evaluated and stored. -/
theorem Ahead.of_assignment (h : Ordinary settings fuel calls) (hplain : m.scope.PlainLocals)
    {receiver value : Expression} {number : Nat}
    (hstep : Step fuel (performs settings fuel calls) (.statement (.assignment receiver value)) m
      number task' m')
    (hmid : Ahead mid (perform settings fuel calls task') m') :
    Ahead mid (execute settings fuel calls (.assignment receiver value)) m := by
  cases hstep with
  | @receiver receiver value _ =>
      rw [ahead_receiver] at hmid
      rw [execute, assignTo]
      refine Ahead.bind (hmid.bind_of_rest fun target m₁ htarget => ?_)
        (works_assignTo h.spares receiver value) hplain fun _ => (Spares.pure _).works
      have hplain₁ :=
        (works_of_performs h hplain (performs_receiver.mpr htarget)).scope.plainLocals hplain
      exact (works_assigned h.spares (assignable_of_locate htarget) value hplain₁).precedes
  | @assigned receiver value _ _ target hreceiver =>
      have htarget := performs_receiver.mp hreceiver
      have hplain₁ := (works_of_performs h hplain hreceiver).scope.plainLocals hplain
      rw [ahead_expression] at hmid
      rw [execute]
      refine Ahead.bind (.bind_of_ok htarget (hmid.bind_of_rest fun v m₂ hvalue => ?_))
        (works_assignTo h.spares receiver value) hplain fun _ => (Spares.pure _).works
      have hspares := behind_of_ok hvalue ▸ spares_evaluate h.spares value m' hplain₁
      exact (works_store ((assignable_of_locate htarget).spared hspares) v
        (hspares.scope.keeps.plainLocals hplain₁)).precedes

/-- What happens in a round of a loop precedes the rounds that are left. -/
theorem Ahead.of_loop (h : Ordinary settings fuel calls) (hplain : m.scope.PlainLocals)
    {test : Expression} {body : List Statement} {number : Nat}
    (hstep : Step fuel (performs settings fuel calls) (.statement (.loop test body)) m number
      task' m')
    (hmid : Ahead mid (perform settings fuel calls task') m') :
    Ahead mid (execute settings fuel calls (.loop test body)) m := by
  cases hstep with
  | @loopTest test body _ rounds _ hrounds more =>
      have hplain₁ := (works_of_rounds h hplain hrounds).scope.plainLocals hplain
      rw [ahead_expression] at hmid
      refine ahead_loop hrounds more fun left => ?_
      have hbody : Works (Run.inBlock (executeAll settings fuel calls body)) :=
        .inBlock (works_executeAll h.spares body)
      have htest : Works (condition settings calls test) := (spares_condition h.spares test).works
      rw [repeatWhile]
      refine (ahead_condition h hplain₁ hmid).bind htest hplain₁ fun holds => ?_
      split
      · refine .bind hbody fun flow => ?_
        cases flow with
        | completed => exact works_repeatWhile htest hbody left
        | returned value => exact (Spares.pure _).works
      · exact (Spares.pure _).works
  | @loopBody test body _ rounds m₁ m₂ a hrounds more htest htruth =>
      have hplain₁ := (works_of_rounds h hplain hrounds).scope.plainLocals hplain
      have hplain₂ := (works_of_performs h hplain₁ htest).scope.plainLocals hplain₁
      rw [ahead_statements] at hmid
      refine ahead_loop hrounds more fun left => ?_
      rw [repeatWhile]
      refine .bind_of_ok (condition_of_performs htest htruth) ?_
      simp only [if_true]
      refine hmid.inBlock.bind (.inBlock (works_executeAll h.spares body)) hplain₂ fun flow => ?_
      cases flow with
      | completed =>
          exact works_repeatWhile (spares_condition h.spares test).works
            (.inBlock (works_executeAll h.spares body)) left
      | returned value => exact (Spares.pure _).works

theorem Ahead.of_statement (h : Ordinary settings fuel calls) (hplain : m.scope.PlainLocals)
    {statement : Statement} {number : Nat}
    (hstep : Step fuel (performs settings fuel calls) (.statement statement) m number task' m')
    (hmid : Ahead mid (perform settings fuel calls task') m') :
    Ahead mid (execute settings fuel calls statement) m := by
  cases hstep with
  | @effect expression _ =>
      rw [ahead_expression] at hmid
      rw [execute]
      exact hmid.bind (h.works_evaluate expression) hplain fun _ => (Spares.pure _).works
  | @initial name typeName value binding _ =>
      rw [ahead_expression] at hmid
      rw [execute]
      exact hmid.bind (h.works_evaluate value) hplain fun v =>
        .bind (.define name true v) fun _ => (Spares.pure _).works
  | receiver => exact .of_assignment h hplain .receiver hmid
  | assigned hreceiver => exact .of_assignment h hplain (.assigned hreceiver) hmid
  | @branchTest test thenBody elseBody _ =>
      rw [ahead_expression] at hmid
      rw [execute]
      refine (ahead_condition h hplain hmid).bind (spares_condition h.spares test).works hplain
        fun holds => ?_
      split
      · exact .inBlock (works_executeAll h.spares thenBody)
      · exact .inBlock (works_executeAll h.spares elseBody)
  | @thenBody test thenBody elseBody _ m₁ a htest htruth =>
      rw [ahead_statements] at hmid
      rw [execute]
      exact .bind_of_ok (condition_of_performs htest htruth) hmid.inBlock
  | @elseBody test thenBody elseBody _ m₁ a htest htruth =>
      rw [ahead_statements] at hmid
      rw [execute]
      exact .bind_of_ok (condition_of_performs htest htruth) hmid.inBlock
  | loopTest hrounds more => exact .of_loop h hplain (.loopTest hrounds more) hmid
  | loopBody hrounds more htest htruth =>
      exact .of_loop h hplain (.loopBody hrounds more htest htruth) hmid
  | @switchTest test cases _ =>
      rw [ahead_expression] at hmid
      rw [execute]
      exact hmid.bind (h.works_evaluate test) hplain fun selector =>
        works_executeCases h.spares selector cases
  | @switchCases test cases _ m₁ selector htest =>
      rw [ahead_cases] at hmid
      rw [execute]
      exact .bind_of_ok (performs_expression.mp htest) hmid
  | @result value _ =>
      rw [ahead_expression] at hmid
      rw [execute]
      exact hmid.bind (h.works_evaluate value) hplain fun _ => (Spares.pure _).works

theorem Ahead.of_statements (h : Ordinary settings fuel calls) (hplain : m.scope.PlainLocals)
    {statements : List Statement} {number : Nat}
    (hstep : Step fuel (performs settings fuel calls) (.statements statements) m number task' m')
    (hmid : Ahead mid (perform settings fuel calls task') m') :
    Ahead mid (executeAll settings fuel calls statements) m := by
  cases hstep with
  | @first statement statements _ =>
      rw [ahead_statement] at hmid
      rw [executeAll]
      refine hmid.bind (works_execute h.spares statement) hplain fun flow => ?_
      cases flow with
      | completed => exact works_executeAll h.spares statements
      | returned value => exact (Spares.pure _).works
  | @rest statement statements _ m₁ hfirst =>
      rw [ahead_statements] at hmid
      rw [executeAll]
      exact .bind_of_ok (performs_statement.mp hfirst) hmid

theorem Ahead.of_cases (h : Ordinary settings fuel calls) (hplain : m.scope.PlainLocals)
    {selector : Value} {cases : List Case} {number : Nat}
    (hstep : Step fuel (performs settings fuel calls) (.cases selector cases) m number task' m')
    (hmid : Ahead mid (perform settings fuel calls task') m') :
    Ahead mid (executeCases settings fuel calls selector cases) m := by
  cases hstep with
  | defaultBody =>
      rw [ahead_statements] at hmid
      rw [executeCases]
      exact hmid.inBlock
  | @caseValue selector value body cases _ =>
      rw [ahead_expression] at hmid
      rw [executeCases]
      refine hmid.bind (h.works_evaluate value) hplain fun v =>
        .bind (Spares.ofExcept _).works fun order => ?_
      split
      · exact .inBlock (works_executeAll h.spares body)
      · exact works_executeCases h.spares selector cases
  | @caseBody selector value body cases _ m₁ a hvalue horder =>
      rw [ahead_statements] at hmid
      rw [executeCases]
      refine .bind_of_ok (performs_expression.mp hvalue) ?_
      refine .bind_of_ok (ofExcept_eq_ok.mpr ⟨horder, rfl⟩) ?_
      simp only [if_true]
      exact hmid.inBlock
  | @otherCases selector value body cases _ m₁ a order hvalue horder different =>
      rw [ahead_cases] at hmid
      rw [executeCases]
      refine .bind_of_ok (performs_expression.mp hvalue) ?_
      refine .bind_of_ok (ofExcept_eq_ok.mpr ⟨horder, rfl⟩) ?_
      rwa [if_neg different]

/-- What happens in a part of a task precedes the end of the task. -/
theorem Ahead.of_step (h : Ordinary settings fuel calls) (hplain : m.scope.PlainLocals)
    {number : Nat} (hstep : Step fuel (performs settings fuel calls) task m number task' m')
    (hmid : Ahead mid (perform settings fuel calls task') m') :
    Ahead mid (perform settings fuel calls task) m := by
  cases task with
  | expression expression => exact ahead_expression.mpr (.of_expression h hplain hstep hmid)
  | expressions expressions => exact ahead_expressions.mpr (.of_expressions h hplain hstep hmid)
  | receiver receiver => exact ahead_receiver.mpr (.of_receiver h hplain hstep hmid)
  | statement statement => exact ahead_statement.mpr (.of_statement h hplain hstep hmid)
  | statements statements => exact ahead_statements.mpr (.of_statements h hplain hstep hmid)
  | cases selector cases => exact ahead_cases.mpr (.of_cases h hplain hstep hmid)

theorem callWithin_of_function {room : Nat} {name : String} {values : List Value}
    {home : RunScope} {function : Function}
    (hfound : m.scope.lookupFunction name values.length = some (.function function, home)) :
    callWithin settings fuel (room + 1) name values m =
      counted (invoke settings fuel (callWithin settings fuel room) home function values)
        { m with notices := .call name values.length :: m.notices } := by
  rw [callWithin, dispatch]
  simp only [hfound]
  rfl

/-- What happens in the body of a function precedes the end of the call. -/
theorem Ahead.of_enters (hplain : m.scope.PlainLocals) {name : String} {values : List Value}
    {inner : Calls} {function : Function}
    (henters : Enters settings fuel calls name values m inner function m')
    (hmid : Ahead mid (perform settings fuel inner (.statements function.body)) m') :
    Ahead mid (calls name values) m := by
  have hplain' := (reaches_of_enters hplain henters).plain
  obtain ⟨hfound, hdeeper, hbound⟩ := henters
  rw [ahead_statements] at hmid
  have hinvoke : ∀ room, inner = callWithin settings fuel room →
      Ahead mid (callWithin settings fuel (room + 1) name values) m := by
    rintro room rfl
    unfold Ahead behind
    rw [callWithin_of_function hfound]
    refine Ahead.counted (Ahead.inCallee (.bind_of_ok hbound ?_))
    refine hmid.bind (works_executeAll (Ordinary.within room).spares function.body) hplain'
      fun flow => ?_
    cases flow <;> exact (Spares.pure _).works
  cases hdeeper with
  | within => exact hinvoke _ rfl
  | outermost hroom =>
      unfold Ahead behind call
      rw [hroom]
      exact hinvoke _ rfl

/-- Whatever happens in the course of a task precedes the end of the task. -/
theorem Ahead.of_visits {start visit : Visit} (h : Ordinary settings fuel start.calls)
    (hplain : start.machine.scope.PlainLocals) (hvisits : Visits settings fuel start visit)
    (hmid : Ahead mid (perform settings fuel visit.calls visit.task) visit.machine) :
    Ahead mid (perform settings fuel start.calls start.task) start.machine := by
  induction hvisits with
  | here => exact hmid
  | part hvisits hstep ih =>
      obtain ⟨hordinary, hreaches⟩ := reaches_of_visits h hplain hvisits
      exact ih (.of_step hordinary hreaches.plain hstep hmid)
  | body hvisits hvalues henters ih =>
      obtain ⟨hordinary, hreaches⟩ := reaches_of_visits h hplain hvisits
      have hvalues' := reaches_of_works hreaches.plain
        (works_of_performs hordinary hreaches.plain (performs_expressions.mpr hvalues))
      refine ih (ahead_expression.mpr ?_)
      rw [evaluate]
      exact .bind_of_ok hvalues (.of_enters hvalues'.plain henters hmid)

end Tasks

/-- An assignment whose receiver comes to nothing takes up nothing else. -/
theorem visits_assignment_of_stuck {site : Site} {receiver value : Expression}
    (hlocate : ∀ target m', locate settings calls receiver m ≠ .ok target m')
    (hstuck : ∀ number task m',
      ¬ Step fuel (performs settings fuel calls) (.receiver receiver) m number task m')
    {visit : Visit}
    (hvisits : Visits settings fuel ⟨calls, site, .statement (.assignment receiver value), m⟩
      visit) :
    visit = ⟨calls, site, .statement (.assignment receiver value), m⟩ ∨
      visit = ⟨calls, site.part 0, .receiver receiver, m⟩ := by
  induction hvisits with
  | here => exact .inl rfl
  | part _ hstep ih =>
      rcases ih with hvisit | hvisit <;> cases hvisit
      · cases hstep with
        | receiver => exact .inr rfl
        | assigned hreceiver => exact absurd (performs_receiver.mp hreceiver) (hlocate _ _)
      · exact absurd hstep (hstuck _ _ _)
  | body _ _ _ ih => rcases ih with hvisit | hvisit <;> cases hvisit

end Run

/-! ## Whole runs -/

namespace Program

variable {settings : RunSettings} {fuel : Nat} {program : Program} {machine m m' mid : Machine}

theorem depth_of_initialises {globals : List Global}
    (h : program.Initialises settings fuel machine globals m) : m.scope.depth = 0 := by
  obtain ⟨linked, hlinked, hglobals⟩ := h
  have hscope : linked.scope = .root ⟨[], program.linked⟩ := by
    rw [bindFunctions_eq_ok hlinked rfl]
    rfl
  have hworks := behind_of_ok hglobals ▸ works_bindGlobals globals linked (hscope ▸ nofun)
  rw [hworks.scope.depth, hscope]
  rfl

theorem plain_of_initialises {globals : List Global}
    (h : program.Initialises settings fuel machine globals m) : m.scope.PlainLocals := by
  have hdepth := depth_of_initialises h
  cases hscope : m.scope with
  | root frame => exact nofun
  | child frame parent =>
      rw [hscope] at hdepth
      cases hdepth

theorem plain_of_ready {globals : List Global}
    (h : program.Initialises settings fuel machine globals m) :
    (program.ready m).scope.PlainLocals := by
  have hplain := plain_of_initialises h
  exact hplain

/-- The machine behind some globals precedes the one behind these and more of them. -/
theorem precedes_of_initialises {front globals : List Global} (hfront : front <+: globals)
    (h : program.Initialises settings fuel machine front m)
    (h' : program.Initialises settings fuel machine globals m') : m.Precedes m' := by
  have hplain := plain_of_initialises h
  obtain ⟨linked, hlinked, hbound⟩ := h
  obtain ⟨linked', hlinked', hbound'⟩ := h'
  obtain ⟨more, rfl⟩ := hfront
  rw [hlinked] at hlinked'
  cases hlinked'
  rw [bindGlobals_of_front hbound] at hbound'
  exact (behind_of_ok hbound' ▸ works_bindGlobals more m hplain).precedes

/-- The first globals of a program are bound before a visit. -/
inductive BoundBefore (settings : RunSettings) (fuel : Nat) (program : Program)
    (machine : Machine) (globals : List Global) : Visit → Prop
  | initial {earlier global later start visit} :
      program.Initial settings fuel machine earlier global later start → globals <+: earlier →
      Run.Visits settings fuel start visit →
      BoundBefore settings fuel program machine globals visit
  | main {start visit} :
      program.Main settings fuel machine start → globals <+: program.globals →
      Run.Visits settings fuel start visit →
      BoundBefore settings fuel program machine globals visit

/-- Every visit of a run is one before which some globals are bound, if only none. -/
theorem boundBefore_of_visits {visit : Visit} (h : program.Visits settings fuel machine visit) :
    program.BoundBefore settings fuel machine [] visit := by
  obtain ⟨start, ⟨earlier, global, later, hinitial⟩ | hmain, hvisits⟩ := h
  · exact .initial hinitial List.nil_prefix hvisits
  · exact .main hmain List.nil_prefix hvisits

/-- The machine behind the globals precedes the visit. -/
theorem BoundBefore.reaches {globals : List Global} {visit : Visit}
    (h : program.BoundBefore settings fuel machine globals visit) :
    Ordinary settings fuel visit.calls ∧ visit.machine.scope.PlainLocals ∧
      ∀ m, program.Initialises settings fuel machine globals m → m.Precedes visit.machine := by
  cases h with
  | @initial earlier global later start _ hinitial hglobals hvisits =>
      obtain @⟨value, m₁, hsplit, hvalue, hinitialises⟩ := hinitial
      obtain ⟨hordinary, hreaches⟩ :=
        reaches_of_visits .outermost (plain_of_initialises hinitialises) hvisits
      exact ⟨hordinary, hreaches.plain, fun m h =>
        (precedes_of_initialises hglobals h hinitialises).trans hreaches.precedes⟩
  | @main start _ hmain hglobals hvisits =>
      obtain @⟨m₁, calls, function, m₂, hinitialises, henters⟩ := hmain
      have hready : m₁.Precedes (program.ready m₁) :=
        ⟨{ Machine.Grows.refl m₁ with notices := List.suffix_cons _ _ }, .refl _⟩
      have hbody := reaches_of_enters (plain_of_ready hinitialises) henters
      obtain ⟨-, hdeeper, -⟩ := henters
      obtain ⟨hordinary, hreaches⟩ := reaches_of_visits (.deeper hdeeper) hbody.plain hvisits
      exact ⟨hordinary, hreaches.plain, fun m h =>
        (precedes_of_initialises hglobals h hinitialises).trans
          (hready.trans (hbody.precedes.trans hreaches.precedes))⟩

/-! ## The end of a run -/

theorem ahead_inside_of_globals {linked : Machine}
    (hlinked : bindFunctions program.functions { machine with scope := .initial } = .ok () linked)
    (hmid : Ahead mid (bindGlobals settings fuel program.globals) linked) :
    Ahead mid (program.inside settings fuel) { machine with scope := .initial } := by
  have hscope : linked.scope = .root ⟨[], program.linked⟩ := by
    rw [bindFunctions_eq_ok hlinked rfl]
    rfl
  exact .bind_of_ok hlinked (hmid.bind (works_bindGlobals _) (hscope ▸ nofun) fun _ =>
    (Spares.bind (.notify _) fun _ => .bind (spares_call "main" []) fun _ => .ofExcept _).works)

/-- The machine behind the first globals precedes the end of the run. -/
theorem ahead_inside_of_initialises {globals : List Global} (hglobals : globals <+: program.globals)
    (h : program.Initialises settings fuel machine globals m) :
    Ahead m (program.inside settings fuel) { machine with scope := .initial } := by
  have hplain := plain_of_initialises h
  obtain ⟨linked, hlinked, hbound⟩ := h
  obtain ⟨more, hsplit⟩ := hglobals
  refine ahead_inside_of_globals hlinked ?_
  unfold Ahead behind
  rw [← hsplit, bindGlobals_of_front hbound]
  exact (works_bindGlobals more m hplain).precedes

/-- Whatever happens in the course of a run precedes the end of the run. -/
theorem ahead_inside_of_visits {visit : Visit} (h : program.Visits settings fuel machine visit)
    (hmid : Ahead mid (perform settings fuel visit.calls visit.task) visit.machine) :
    Ahead mid (program.inside settings fuel) { machine with scope := .initial } := by
  obtain ⟨start, ⟨earlier, global, later, hinitial⟩ | hmain, hvisits⟩ := h
  · obtain @⟨value, m, hsplit, hvalue, hinitialises⟩ := hinitial
    have hplain := plain_of_initialises hinitialises
    have hvisited := ahead_expression.mp (Ahead.of_visits .outermost hplain hvisits hmid)
    obtain ⟨linked, hlinked, hearlier⟩ := hinitialises
    refine ahead_inside_of_globals hlinked ?_
    unfold Ahead behind
    rw [hsplit, bindGlobals_of_front hearlier, bindGlobals_cons]
    have hinitial : initialValue settings fuel global = Run.value settings fuel value := by
      rw [initialValue, hvalue]
    rw [hinitial]
    exact Ahead.bind hvisited (spares_value value).works hplain fun v =>
      .bind (.define _ _ v) fun _ => works_bindGlobals later
  · obtain @⟨m, calls, function, m', hinitialises, henters⟩ := hmain
    have hplain := plain_of_ready hinitialises
    have hbody := reaches_of_enters hplain henters
    have hordinary : Ordinary settings fuel calls := by
      obtain ⟨-, hdeeper, -⟩ := henters
      exact .deeper hdeeper
    have hvisited := Ahead.of_enters hplain henters
      (Ahead.of_visits hordinary hbody.plain hvisits hmid)
    obtain ⟨linked, hlinked, hglobals⟩ := hinitialises
    exact .bind_of_ok hlinked (.bind_of_ok hglobals (.bind_of_ok (a := ()) rfl
      (hvisited.bind (spares_call "main" []).works hplain fun _ => (Spares.ofExcept _).works)))

end Program

end TinyScript
