import TinyScript.Proofs.Run.CallStack

/-!
# What actions leave as they found it

Functions are bound in the outermost frame only, so a call runs in a frame inside the outermost one
and never sees the frames of its caller. Evaluating an expression may therefore change the values of
mutable variables of the outermost frame, and what lists hold; lists, printed text and notices can
only become more (`Spares`). What is done inside a block may moreover change the frame of the block
and the values of mutable variables around it (`Works`). Both hold however an action ends.

Here are the rules for the actions of a run and for the ways to put them together.
-/

namespace TinyScript

open Run

/-! ## Frames inside an outermost one -/

namespace Scope

variable {V F : Type}

/-- The outermost frame. -/
def outermost : Scope V F → Frame V F
  | root frame => frame
  | child _ parent => parent.outermost

/-- The frames inside the outermost one, innermost first. -/
def locals : Scope V F → List (Frame V F)
  | root _ => []
  | child frame parent => frame :: parent.locals

/-- The scope of some frames, innermost first, inside an outermost one. -/
def nested (locals : List (Frame V F)) (outermost : Frame V F) : Scope V F :=
  locals.foldr child (root outermost)

@[simp] theorem outermost_nested (locals : List (Frame V F)) (frame : Frame V F) :
    (nested locals frame).outermost = frame := by
  induction locals with
  | nil => rfl
  | cons _ _ ih => exact ih

@[simp] theorem locals_nested (locals : List (Frame V F)) (frame : Frame V F) :
    (nested locals frame).locals = locals := by
  induction locals with
  | nil => rfl
  | cons first _ ih => exact congrArg (first :: ·) ih

@[simp] theorem nested_locals_outermost (scope : Scope V F) :
    nested scope.locals scope.outermost = scope := by
  induction scope with
  | root frame => rfl
  | child frame parent ih => exact congrArg (child frame) ih

theorem length_locals (scope : Scope V F) : scope.locals.length = scope.depth := by
  induction scope with
  | root frame => rfl
  | child frame parent ih => exact congrArg (· + 1) ih

@[simp] theorem outermost_leave (scope : Scope V F) : scope.leave.outermost = scope.outermost := by
  cases scope <;> rfl

@[simp] theorem outermost_regrow (scope outer : Scope V F) :
    (scope.regrow outer).outermost = outer.outermost := by
  induction scope with
  | root frame => rfl
  | child frame parent ih =>
      simp only [regrow]
      split
      · rfl
      · exact ih

theorem regrow_root (scope : Scope V F) (frame : Frame V F) :
    scope.regrow (root frame) = nested scope.locals frame := by
  induction scope with
  | root _ => rfl
  | child first parent ih =>
      simp only [regrow, depth, Nat.not_lt_zero, if_false, ih]
      rfl

/-- A name that no inner frame binds is looked up in the outermost one. -/
theorem lookupVariable_of_locals {scope : Scope V F} {name : String}
    (hfree : ∀ frame ∈ scope.locals, frame.lookupVariable name = none) :
    scope.lookupVariable name = scope.outermost.lookupVariable name := by
  induction scope with
  | root frame => rfl
  | child frame parent ih =>
      simp only [lookupVariable, hfree frame List.mem_cons_self]
      exact ih fun frame' hmem => hfree frame' (List.mem_cons_of_mem _ hmem)

/-- No frame but the outermost one binds functions. -/
def PlainLocals (scope : Scope V F) : Prop := ∀ frame ∈ scope.locals, frame.funs = []

namespace PlainLocals

variable {scope : Scope V F}

theorem enter (h : scope.PlainLocals) : scope.enter.PlainLocals :=
  List.forall_mem_cons.mpr ⟨rfl, h⟩

theorem parent {frame : Frame V F} (h : (child frame scope).PlainLocals) : scope.PlainLocals :=
  (List.forall_mem_cons.mp h).2

/-- A function is found in the outermost frame or nowhere. -/
theorem lookupFunction (h : scope.PlainLocals) (name : String) (arity : Nat) :
    scope.lookupFunction name arity =
      (scope.outermost.lookupFunction name arity).map (·, root scope.outermost) := by
  induction scope with
  | root frame => rfl
  | child frame parent ih =>
      have hnone : frame.lookupFunction name arity = none := by
        rw [Frame.lookupFunction, (List.forall_mem_cons.mp h).1]
        rfl
      simp only [Scope.lookupFunction, hnone]
      exact ih h.parent

theorem home (h : scope.PlainLocals) {name : String} {arity : Nat} {binding : F}
    {home : Scope V F} (hfound : scope.lookupFunction name arity = some (binding, home)) :
    home = root scope.outermost := by
  rw [h.lookupFunction, Option.map_eq_some_iff] at hfound
  obtain ⟨_, -, heq⟩ := hfound
  cases heq
  rfl

end PlainLocals

end Scope

/-! ## What may become of variables -/

/-- What may become of a variable: only a mutable one may come to hold another value. -/
structure Variable.Becomes (found found' : Variable) : Prop where
  isMutable : found'.isMutable = found.isMutable
  value : found.isMutable = false → found'.value = found.value

namespace Variable.Becomes

variable {found found₁ found₂ : Variable}

theorem refl (found : Variable) : found.Becomes found := ⟨rfl, fun _ => rfl⟩

theorem trans (h : found.Becomes found₁) (h' : found₁.Becomes found₂) : found.Becomes found₂ :=
  ⟨h'.isMutable.trans h.isMutable,
    fun himmutable => (h'.value (h.isMutable.trans himmutable)).trans (h.value himmutable)⟩

theorem eq_of_immutable (h : found.Becomes found₁) (himmutable : found.isMutable = false) :
    found₁ = found := by
  obtain ⟨hmutable, hvalue⟩ := h
  cases found
  cases found₁
  simp_all

theorem of_some {result : Option Variable} (h : Option.Rel Variable.Becomes (some found) result) :
    ∃ found', result = some found' ∧ found.Becomes found' := by
  cases h with
  | some hbecomes => exact ⟨_, rfl, hbecomes⟩

end Variable.Becomes

/-- A frame in which only mutable variables may have come to hold other values. -/
structure Frame.Keeps (frame frame' : Frame Variable Callable) : Prop where
  funs : frame'.funs = frame.funs
  vars : ∀ name,
    Option.Rel Variable.Becomes (frame.lookupVariable name) (frame'.lookupVariable name)

/-- A frame in which, beyond that, new variables may be bound. -/
def Frame.Extends (frame frame' : Frame Variable Callable) : Prop :=
  ∀ name found, frame.lookupVariable name = some found →
    ∃ found', frame'.lookupVariable name = some found' ∧ found.Becomes found'

namespace Frame.Extends

variable {frame frame₁ frame₂ : Frame Variable Callable}

theorem refl (frame : Frame Variable Callable) : frame.Extends frame :=
  fun _ found hfound => ⟨found, hfound, .refl found⟩

theorem trans (h : frame.Extends frame₁) (h' : frame₁.Extends frame₂) : frame.Extends frame₂ := by
  intro name found hfound
  obtain ⟨found₁, hfound₁, hfirst⟩ := h name found hfound
  obtain ⟨found₂, hfound₂, hsecond⟩ := h' name found₁ hfound₁
  exact ⟨found₂, hfound₂, hfirst.trans hsecond⟩

/-- An immutable variable is still there, and holds what it held. -/
theorem constant (h : frame.Extends frame₁) {name : String} {value : Value}
    (hfound : frame.lookupVariable name = some ⟨false, value⟩) :
    frame₁.lookupVariable name = some ⟨false, value⟩ := by
  obtain ⟨found₁, hfound₁, hbecomes⟩ := h name _ hfound
  rw [hfound₁, hbecomes.eq_of_immutable rfl]

theorem addVariable {name : String} (hfree : frame.lookupVariable name = none)
    (found : Variable) : frame.Extends (frame.addVariable name found) := by
  intro other old hold
  refine ⟨old, ?_, .refl old⟩
  rw [Frame.lookupVariable_addVariable, if_neg, hold]
  rintro rfl
  rw [hfree] at hold
  cases hold

end Frame.Extends

namespace Frame.Keeps

variable {frame frame₁ frame₂ : Frame Variable Callable}

theorem refl (frame : Frame Variable Callable) : frame.Keeps frame := by
  refine ⟨rfl, fun name => ?_⟩
  cases frame.lookupVariable name with
  | none => exact .none
  | some found => exact .some (.refl found)

theorem trans (h : frame.Keeps frame₁) (h' : frame₁.Keeps frame₂) : frame.Keeps frame₂ := by
  refine ⟨h'.funs.trans h.funs, fun name => ?_⟩
  have hfirst := h.vars name
  have hsecond := h'.vars name
  generalize frame.lookupVariable name = found, frame₁.lookupVariable name = found₁,
    frame₂.lookupVariable name = found₂ at hfirst hsecond
  cases hfirst with
  | none =>
      cases hsecond
      exact .none
  | some hbecomes =>
      cases hsecond with
      | some hbecomes' => exact .some (hbecomes.trans hbecomes')

theorem extended (h : frame.Keeps frame₁) : frame.Extends frame₁ := by
  intro name found hfound
  have hvars := h.vars name
  rw [hfound] at hvars
  exact Variable.Becomes.of_some hvars

/-- Assigning to a mutable variable of a frame. -/
theorem setVariable {name : String} {found : Variable}
    (hfound : frame.lookupVariable name = some found) (hmutable : found.isMutable = true)
    (value : Value) : frame.Keeps (frame.setVariable name ⟨true, value⟩) := by
  refine ⟨rfl, fun other => ?_⟩
  have hfound' : frame.vars.lookup name = some found := hfound
  simp only [Frame.lookupVariable, Frame.setVariable, lookup_replaceEntry]
  by_cases same : other = name
  · subst same
    rw [if_pos (beq_self_eq_true other), hfound']
    exact .some ⟨hmutable.symm, fun himmutable => by rw [hmutable] at himmutable; cases himmutable⟩
  · rw [if_neg (by simpa using same)]
    exact (refl frame).vars other

end Frame.Keeps

/-! ## What may become of scopes -/

/-- A scope in which only mutable variables may have come to hold other values. -/
structure Scope.Keeps (scope scope' : RunScope) : Prop where
  locals : List.Forall₂ Frame.Keeps scope.locals scope'.locals
  outermost : scope.outermost.Keeps scope'.outermost

/-- A scope in which only mutable variables of the outermost frame may have come to hold other
values. -/
structure Scope.Spares (scope scope' : RunScope) : Prop where
  locals : scope'.locals = scope.locals
  outermost : scope.outermost.Keeps scope'.outermost

/-- A scope in whose innermost frame variables may have been bound and changed. In the frames around
it only mutable variables may have come to hold other values. -/
structure Scope.Works (scope scope' : RunScope) : Prop where
  depth : scope'.depth = scope.depth
  funs : scope'.current.funs = scope.current.funs
  outermost : scope.outermost.Extends scope'.outermost
  around : 0 < scope.depth → scope.leave.Keeps scope'.leave

namespace Scope.Keeps

variable {scope scope₁ scope₂ : RunScope}

theorem forall₂_refl (frames : List (Frame Variable Callable)) :
    List.Forall₂ Frame.Keeps frames frames :=
  List.forall₂_same.mpr fun frame _ => .refl frame

theorem forall₂_trans : ∀ {front middle back : List (Frame Variable Callable)},
    List.Forall₂ Frame.Keeps front middle → List.Forall₂ Frame.Keeps middle back →
      List.Forall₂ Frame.Keeps front back
  | _, _, _, .nil, .nil => .nil
  | _, _, _, .cons h hrest, .cons h' hrest' => .cons (h.trans h') (forall₂_trans hrest hrest')

theorem refl (scope : RunScope) : scope.Keeps scope := ⟨forall₂_refl _, .refl _⟩

theorem trans (h : scope.Keeps scope₁) (h' : scope₁.Keeps scope₂) : scope.Keeps scope₂ :=
  ⟨forall₂_trans h.locals h'.locals, h.outermost.trans h'.outermost⟩

theorem depth (h : scope.Keeps scope₁) : scope₁.depth = scope.depth := by
  rw [← length_locals, ← length_locals, h.locals.length_eq]

theorem current (h : scope.Keeps scope₁) : scope.current.Keeps scope₁.current := by
  obtain ⟨hlocals, houtermost⟩ := h
  cases scope with
  | root frame =>
      cases scope₁ with
      | root frame₁ => exact houtermost
      | child frame₁ parent₁ => cases hlocals
  | child frame parent =>
      cases scope₁ with
      | root frame₁ => cases hlocals
      | child frame₁ parent₁ =>
          cases hlocals with
          | cons hframe _ => exact hframe

theorem leave (h : scope.Keeps scope₁) : scope.leave.Keeps scope₁.leave := by
  obtain ⟨hlocals, houtermost⟩ := h
  cases scope with
  | root frame =>
      cases scope₁ with
      | root frame₁ => exact ⟨.nil, houtermost⟩
      | child frame₁ parent₁ => cases hlocals
  | child frame parent =>
      cases scope₁ with
      | root frame₁ => cases hlocals
      | child frame₁ parent₁ =>
          cases hlocals with
          | cons _ hparent => exact ⟨hparent, houtermost⟩

theorem works (h : scope.Keeps scope₁) : scope.Works scope₁ where
  depth := h.depth
  funs := h.current.funs
  outermost := h.outermost.extended
  around _ := h.leave

theorem plainLocals (h : scope.Keeps scope₁) (hplain : scope.PlainLocals) :
    scope₁.PlainLocals := by
  intro frame hmem
  obtain ⟨old, hold, hkeeps⟩ : ∃ old ∈ scope.locals, old.Keeps frame := by
    obtain ⟨place, hplace, rfl⟩ := List.getElem_of_mem hmem
    have hplace' : place < scope.locals.length := h.locals.length_eq ▸ hplace
    exact ⟨scope.locals[place], List.getElem_mem hplace',
      h.locals.get hplace' hplace⟩
  rw [hkeeps.funs, hplain old hold]

/-- Assigning to a mutable variable. -/
theorem setVariable {name : String} {found : Variable}
    (hfound : scope.lookupVariable name = some found) (hmutable : found.isMutable = true)
    (value : Value) : scope.Keeps (scope.setVariable name ⟨true, value⟩) := by
  induction scope with
  | root frame => exact ⟨.nil, .setVariable hfound hmutable value⟩
  | child frame parent ih =>
      simp only [Scope.lookupVariable] at hfound
      simp only [Scope.setVariable]
      cases hframe : frame.lookupVariable name with
      | none =>
          rw [hframe] at hfound
          obtain ⟨hlocals, houtermost⟩ := ih hfound
          exact ⟨.cons (.refl frame) hlocals, houtermost⟩
      | some found' =>
          rw [hframe] at hfound
          cases hfound
          exact ⟨.cons (.setVariable hframe hmutable value) (forall₂_refl _), .refl _⟩

end Scope.Keeps

namespace Scope.Spares

variable {scope scope₁ scope₂ : RunScope}

theorem refl (scope : RunScope) : scope.Spares scope := ⟨rfl, .refl _⟩

theorem trans (h : scope.Spares scope₁) (h' : scope₁.Spares scope₂) : scope.Spares scope₂ :=
  ⟨h'.locals.trans h.locals, h.outermost.trans h'.outermost⟩

theorem keeps (h : scope.Spares scope₁) : scope.Keeps scope₁ :=
  ⟨h.locals ▸ Scope.Keeps.forall₂_refl _, h.outermost⟩

/-- What a name stands for may have changed its value, if it is mutable. -/
theorem lookupVariable (h : scope.Spares scope₁) (name : String) :
    Option.Rel Variable.Becomes (scope.lookupVariable name) (scope₁.lookupVariable name) := by
  obtain ⟨hlocals, houtermost⟩ := h
  rw [← nested_locals_outermost scope, ← nested_locals_outermost scope₁, hlocals]
  generalize scope.locals = locals
  induction locals with
  | nil => exact houtermost.vars name
  | cons frame locals ih =>
      show Option.Rel Variable.Becomes
        (Scope.lookupVariable (.child frame (nested locals scope.outermost)) name)
        (Scope.lookupVariable (.child frame (nested locals scope₁.outermost)) name)
      simp only [Scope.lookupVariable]
      cases frame.lookupVariable name with
      | none => exact ih
      | some found => exact .some (.refl found)

end Scope.Spares

namespace Scope.Works

variable {scope scope₁ scope₂ : RunScope}

theorem trans (h : scope.Works scope₁) (h' : scope₁.Works scope₂) : scope.Works scope₂ where
  depth := h'.depth.trans h.depth
  funs := h'.funs.trans h.funs
  outermost := h.outermost.trans h'.outermost
  around hdepth := (h.around hdepth).trans (h'.around (h.depth ▸ hdepth))

/-- Binding a variable in the innermost frame. -/
theorem define {name : String} {found : Variable}
    (hdefine : scope.defineVariable? name found = some scope₁) : scope.Works scope₁ := by
  obtain ⟨hfree, rfl⟩ := Scope.defineVariable?_eq_some.mp hdefine
  cases scope with
  | root frame => exact ⟨rfl, rfl, .addVariable hfree found, fun h => absurd h (Nat.lt_irrefl 0)⟩
  | child frame parent => exact ⟨rfl, rfl, .refl _, fun _ => .refl parent⟩

/-- Behind a block the scope around it is as the block has left it. -/
theorem block (h : scope.enter.Works scope₁) : scope.Keeps scope₁.leave :=
  h.around (Nat.succ_pos _)

theorem plainLocals (h : scope.Works scope₁) (hplain : scope.PlainLocals) :
    scope₁.PlainLocals := by
  cases scope with
  | root frame =>
      cases scope₁ with
      | root frame₁ => exact nofun
      | child frame₁ parent₁ => cases h.depth
  | child frame parent =>
      cases scope₁ with
      | root frame₁ => cases h.depth
      | child frame₁ parent₁ =>
          have hfuns : frame₁.funs = frame.funs := h.funs
          have hparent : parent₁.PlainLocals :=
            (h.around (Nat.succ_pos _)).plainLocals hplain.parent
          exact List.forall_mem_cons.mpr
            ⟨hfuns.trans (hplain frame List.mem_cons_self), hparent⟩

/-- Behind a call from a scope the frames of the caller are there again, around them what the call
has left of the outermost one. -/
theorem call (h : (Scope.root scope.outermost).enter.Works scope₁) :
    scope.Spares (scope.regrow scope₁.leave) := by
  obtain ⟨hlocals, houtermost⟩ := h.block
  cases hleft : scope₁.leave with
  | root frame =>
      rw [hleft] at houtermost
      rw [regrow_root]
      exact ⟨locals_nested _ _, by rwa [outermost_nested]⟩
  | child frame parent =>
      rw [hleft] at hlocals
      cases hlocals

end Scope.Works

/-! ## What may become of machines -/

/-- A store in which every list is as long as before, and to which lists may have been added. -/
structure Lists.Keeps (lists lists' : Lists) : Prop where
  next : lists.next ≤ lists'.next
  size : ∀ id < lists.next, (lists'.items id).size = (lists.items id).size

namespace Lists.Keeps

variable {lists lists₁ lists₂ : Lists}

theorem refl (lists : Lists) : lists.Keeps lists := ⟨Nat.le_refl _, fun _ _ => rfl⟩

theorem trans (h : lists.Keeps lists₁) (h' : lists₁.Keeps lists₂) : lists.Keeps lists₂ :=
  ⟨Nat.le_trans h.next h'.next,
    fun id hid => (h'.size id (Nat.lt_of_lt_of_le hid h.next)).trans (h.size id hid)⟩

theorem add (lists : Lists) (values : Array Value) : lists.Keeps (lists.add values) := by
  refine ⟨by simp [Lists.next, Lists.add], fun id hid => ?_⟩
  rw [Lists.items_add, if_neg (Nat.ne_of_lt hid)]

theorem put (lists : Lists) (id : ListId) (slot : Nat) (value : Value) :
    lists.Keeps (lists.put id slot value) := by
  refine ⟨by simp [Lists.next, Lists.put], fun other _ => ?_⟩
  rw [Lists.items_put]
  split
  · next same => rw [Array.size_setIfInBounds, same]
  · rfl

end Lists.Keeps

/-- A machine behind another one: there may be more lists, more text, and more notices. -/
structure Machine.Grows (m m' : Machine) : Prop where
  lists : m.lists.Keeps m'.lists
  sink : ∃ printed, m'.sink = { m.sink with text := m.sink.text ++ printed }
  notices : m.notices <:+ m'.notices

/-- A machine behind evaluating an expression: nothing has changed but the values of mutable
variables of the outermost frame, the contents of lists, and what has grown. -/
structure Machine.Spares (m m' : Machine) : Prop extends Machine.Grows m m' where
  scope : m.scope.Spares m'.scope
  active : m'.active = m.active

/-- A machine behind what is done inside a block. -/
structure Machine.Works (m m' : Machine) : Prop extends Machine.Grows m m' where
  scope : m.scope.Works m'.scope
  active : m'.active = m.active

namespace Machine

variable {m m₁ m₂ : Machine}

theorem Grows.refl (m : Machine) : m.Grows m :=
  ⟨.refl _, ⟨"", by rw [String.append_empty]⟩, List.suffix_refl _⟩

theorem Grows.trans (h : m.Grows m₁) (h' : m₁.Grows m₂) : m.Grows m₂ := by
  obtain ⟨printed, hprinted⟩ := h.sink
  obtain ⟨printed', hprinted'⟩ := h'.sink
  refine ⟨h.lists.trans h'.lists, ⟨printed ++ printed', ?_⟩, h.notices.trans h'.notices⟩
  rw [hprinted', hprinted, String.append_assoc]

theorem Spares.refl (m : Machine) : m.Spares m := ⟨.refl m, .refl _, rfl⟩

theorem Spares.trans (h : m.Spares m₁) (h' : m₁.Spares m₂) : m.Spares m₂ :=
  ⟨h.toGrows.trans h'.toGrows, h.scope.trans h'.scope, h'.active.trans h.active⟩

theorem Spares.works (h : m.Spares m₁) : m.Works m₁ :=
  ⟨h.toGrows, h.scope.keeps.works, h.active⟩

theorem Works.refl (m : Machine) : m.Works m := (Spares.refl m).works

theorem Works.trans (h : m.Works m₁) (h' : m₁.Works m₂) : m.Works m₂ :=
  ⟨h.toGrows.trans h'.toGrows, h.scope.trans h'.scope, h'.active.trans h.active⟩

end Machine

namespace Run

variable {α β : Type}

/-- However it ends, an action changes no more than evaluating an expression may. -/
def Spares (x : Run α) : Prop := ∀ m : Machine, m.scope.PlainLocals → m.Spares (x.behind m)

/-- However it ends, an action changes no more than what is done inside a block may. -/
def Works (x : Run α) : Prop := ∀ m : Machine, m.scope.PlainLocals → m.Works (x.behind m)

/-! ## Machines behind actions -/

theorem behind_bind (x : Run α) (f : α → Run β) (m : Machine) :
    (x >>= f).behind m =
      match x m with
      | .ok a after => (f a).behind after
      | .error _ after => after := by
  show (match EStateM.bind x f m with | .ok _ after => after | .error _ after => after) = _
  unfold EStateM.bind
  cases x m <;> rfl

theorem behind_map (x : Run α) (f : α → β) (m : Machine) : (f <$> x).behind m = x.behind m := by
  show (match EStateM.map f x m with | .ok _ after => after | .error _ after => after) = _
  unfold EStateM.map behind
  cases x m <;> rfl

theorem behind_of_ok {x : Run α} {m after : Machine} {a : α} (h : x m = .ok a after) :
    x.behind m = after := by
  unfold behind
  rw [h]

theorem behind_of_error {x : Run α} {m after : Machine} {halt : Halt}
    (h : x m = .error halt after) : x.behind m = after := by
  unfold behind
  rw [h]

theorem behind_inBlock (x : Run α) (m : Machine) :
    (inBlock x).behind m = (x.behind m.enter).leave := by
  unfold behind inBlock Machine.enter
  cases x { m with scope := m.scope.enter } <;> rfl

theorem behind_inCallee (home : RunScope) (x : Run α) (m : Machine) :
    (inCallee home x).behind m =
      { x.behind { m with scope := home.enter } with
        scope := m.scope.regrow (x.behind { m with scope := home.enter }).scope.leave } := by
  unfold behind inCallee
  cases x { m with scope := home.enter } <;> rfl

theorem behind_counted (x : Run α) (m : Machine) :
    (counted x).behind m =
      { x.behind { m with active := m.active + 1 } with active := m.active } := by
  unfold behind counted
  cases x { m with active := m.active + 1 } <;> rfl

/-- However it ends, printing leaves what the sink has room for. -/
theorem behind_print (text : String) (m : Machine) :
    (print text).behind m = { m with sink := m.sink.write text } := by
  unfold behind print
  cases m.sink.refuses text <;> rfl

/-! ## Actions that spare the frames of a block -/

namespace Spares

variable {x : Run α}

theorem works (h : Spares x) : Works x := fun m hplain => (h m hplain).works

theorem pure (a : α) : Spares (Pure.pure a) := fun m _ => .refl m

theorem fail (error : RuntimeError) : Spares (Run.fail error : Run α) := fun m _ => .refl m

theorem ofExcept (checked : Except RuntimeError α) : Spares (Run.ofExcept checked) := by
  cases checked with
  | ok a => exact pure a
  | error error => exact fail error

theorem bind {f : α → Run β} (h : Spares x) (hrest : ∀ a, Spares (f a)) : Spares (x >>= f) := by
  intro m hplain
  have h := h m hplain
  rw [behind_bind]
  unfold behind at h
  generalize x m = result at h
  cases result with
  | ok a m₁ => exact h.trans (hrest a m₁ (h.scope.keeps.plainLocals hplain))
  | error halt m₁ => exact h

theorem notify (notice : RunNotice) : Spares (Run.notify notice) := fun m _ =>
  { Machine.Spares.refl m with notices := List.suffix_cons _ _ }

theorem print (text : String) : Spares (Run.print text) := by
  intro m _
  rw [behind_print]
  exact { Machine.Spares.refl m with sink := ⟨m.sink.fitting text, rfl⟩ }

theorem variableNamed (name : String) : Spares (Run.variableNamed name) := by
  intro m _
  unfold behind Run.variableNamed
  cases m.scope.lookupVariable name <;> exact .refl m

theorem newList (values : List Value) : Spares (Run.newList values) := fun m _ =>
  { Machine.Spares.refl m with lists := .add m.lists values.toArray }

theorem itemsOf (id : ListId) : Spares (Run.itemsOf id) := fun m _ => .refl m

theorem put (id : ListId) (slot : Nat) (value : Value) : Spares (Run.put id slot value) :=
  fun m _ => { Machine.Spares.refl m with lists := .put m.lists id slot value }

theorem piecesOf (value : Value) : Spares (Run.piecesOf value) := fun m _ => .refl m

end Spares

/-! ## Actions inside a block -/

namespace Works

variable {x : Run α}

theorem bind {f : α → Run β} (h : Works x) (hrest : ∀ a, Works (f a)) : Works (x >>= f) := by
  intro m hplain
  have h := h m hplain
  rw [behind_bind]
  unfold behind at h
  generalize x m = result at h
  cases result with
  | ok a m₁ => exact h.trans (hrest a m₁ (h.scope.plainLocals hplain))
  | error halt m₁ => exact h

theorem map {f : α → β} (h : Works x) : Works (f <$> x) := by
  intro m hplain
  rw [behind_map]
  exact h m hplain

theorem define (name : String) (isMutable : Bool) (value : Value) :
    Works (Run.define name isMutable value) := by
  intro m _
  unfold behind Run.define
  cases hscope : m.scope.defineVariable? name ⟨isMutable, value⟩ with
  | none => exact .refl m
  | some scope => exact { Machine.Works.refl m with scope := .define hscope }

theorem inBlock (h : Works x) : Works (Run.inBlock x) := by
  intro m hplain
  have h := h m.enter hplain.enter
  rw [behind_inBlock]
  exact ⟨⟨h.lists, h.sink, h.notices⟩, h.scope.block.works, h.active⟩

/-- A call spares the frames of its caller, whatever is done inside it. -/
theorem inCallee (h : Works x) {m : Machine} :
    m.Spares ((Run.inCallee (.root m.scope.outermost) x).behind m) := by
  have hplain : (Scope.root m.scope.outermost).enter.PlainLocals := Scope.PlainLocals.enter nofun
  have h := h { m with scope := (Scope.root m.scope.outermost).enter } hplain
  rw [behind_inCallee]
  exact ⟨⟨h.lists, h.sink, h.notices⟩, h.scope.call, h.active⟩

end Works

end Run

end TinyScript
