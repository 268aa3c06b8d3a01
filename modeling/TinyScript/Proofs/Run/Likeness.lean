import TinyScript.Proofs.Run.Shift
import TinyScript.Proofs.Run.Visit
import TinyScript.Proofs.Scope

/-!
# Two runs side by side

A `Likeness` says in what the machines of two runs may differ while the runs do the same: lists and
notices from before, sinks that take the same texts, functions that act the same. The first run may
also be one that is cut short where the second goes on (`cuts`). Two actions are `Alike` when from
machines that are alike they come to the same end, in machines that are alike again.

There is one rule for every action of a run and for every way to put actions together, so two
programs are compared by following their code.
-/

namespace TinyScript

open Run

/-- How the machine of a second run may differ from that of a first one. -/
structure Likeness where
  /-- The lists of the second machine in front of those of the first. -/
  earlier : Array (Array Value)
  /-- The notices of the second machine from before those of the first. -/
  told : List RunNotice
  sinks : Sink → Sink → Prop
  functions : Function → Function → Prop
  /-- The ways for the first run to end that say nothing about the second. -/
  cuts : Halt → Prop

namespace Likeness

variable {L : Likeness}

/-! ## What the machines hold -/

/-- The value that the second run has in place of a value of the first. -/
def value (L : Likeness) (value : Value) : Value := value.shift L.earlier.size

/-- The variable of the second run in place of one of the first. -/
def holder (L : Likeness) (found : Variable) : Variable :=
  { found with value := L.value found.value }

/-- The end of a statement of the second run in place of one of the first. -/
def flow (L : Likeness) : Flow → Flow
  | .completed => .completed
  | .returned value => .returned (L.value value)

/-- What a call of the second run may invoke in place of what one of the first does. -/
inductive Callables (L : Likeness) : Callable → Callable → Prop
  | print : Callables L .print .print
  | function {function function' : Function} :
      L.functions function function' → Callables L (.function function) (.function function')

/-- Frames that bind the same names to what may stand for each other. -/
structure Frames (L : Likeness) (frame frame' : Frame Variable Callable) : Prop where
  vars : ∀ name, frame'.lookupVariable name = (frame.lookupVariable name).map L.holder
  funs : ∀ name arity,
    Option.Rel L.Callables (frame.lookupFunction name arity) (frame'.lookupFunction name arity)

/-- Scopes that are alike frame by frame. -/
inductive Scopes (L : Likeness) : RunScope → RunScope → Prop
  | root {frame frame'} : L.Frames frame frame' → Scopes L (.root frame) (.root frame')
  | child {frame frame' parent parent'} :
      L.Frames frame frame' → Scopes L parent parent' →
      Scopes L (.child frame parent) (.child frame' parent')

/-- Machines that are alike but for their scopes. -/
structure Stores (L : Likeness) (m m' : Machine) : Prop where
  lists : m'.lists = m.lists.behind L.earlier
  sink : L.sinks m.sink m'.sink
  active : m'.active = m.active
  notices : m'.notices = m.notices ++ L.told

/-- Machines that are alike. -/
structure Machines (L : Likeness) (m m' : Machine) : Prop extends L.Stores m m' where
  scope : L.Scopes m.scope m'.scope

/-! ## Frames and scopes -/

namespace Frames

variable {frame frame' : Frame Variable Callable}

theorem empty : L.Frames Frame.empty Frame.empty := ⟨fun _ => rfl, fun _ _ => .none⟩

theorem addVariable (h : L.Frames frame frame') (name : String) (found : Variable) :
    L.Frames (frame.addVariable name found) (frame'.addVariable name (L.holder found)) := by
  refine ⟨fun asked => ?_, h.funs⟩
  simp only [Frame.lookupVariable_addVariable, h.vars]
  split <;> rfl

theorem addFunction (h : L.Frames frame frame') (name : String) (arity : Nat)
    {callable callable' : Callable} (hcallable : L.Callables callable callable') :
    L.Frames (frame.addFunction name arity callable) (frame'.addFunction name arity callable') := by
  refine ⟨h.vars, fun asked arity' => ?_⟩
  simp only [Frame.lookupFunction_addFunction]
  split
  · exact .some hcallable
  · exact h.funs asked arity'

theorem setVariable (h : L.Frames frame frame') (name : String) (found : Variable) :
    L.Frames (frame.setVariable name found) (frame'.setVariable name (L.holder found)) := by
  refine ⟨fun asked => ?_, h.funs⟩
  have hvars := h.vars
  simp only [Frame.lookupVariable, Frame.setVariable, lookup_replaceEntry] at hvars ⊢
  rw [hvars, hvars]
  split
  · cases frame.vars.lookup name <;> rfl
  · rfl

end Frames

namespace Scopes

variable {scope scope' : RunScope}

theorem enter (h : L.Scopes scope scope') : L.Scopes scope.enter scope'.enter := .child .empty h

theorem leave (h : L.Scopes scope scope') : L.Scopes scope.leave scope'.leave := by
  cases h with
  | root hframe => exact .root hframe
  | child _ hparent => exact hparent

theorem current (h : L.Scopes scope scope') : L.Frames scope.current scope'.current := by
  cases h <;> assumption

theorem modifyCurrent (h : L.Scopes scope scope')
    {change change' : Frame Variable Callable → Frame Variable Callable}
    (hchange : L.Frames (change scope.current) (change' scope'.current)) :
    L.Scopes (scope.modifyCurrent change) (scope'.modifyCurrent change') := by
  cases h with
  | root _ => exact .root hchange
  | child _ hparent => exact .child hchange hparent

theorem depth_eq (h : L.Scopes scope scope') : scope'.depth = scope.depth := by
  induction h with
  | root _ => rfl
  | child _ _ ih => exact congrArg (· + 1) ih

theorem lookupVariable (h : L.Scopes scope scope') (name : String) :
    scope'.lookupVariable name = (scope.lookupVariable name).map L.holder := by
  induction h with
  | root hframe => exact hframe.vars name
  | @child frame _ _ _ hframe _ ih =>
      simp only [Scope.lookupVariable, hframe.vars name]
      cases frame.lookupVariable name with
      | none => exact ih
      | some found => rfl

theorem lookupFunction (h : L.Scopes scope scope') (name : String) (arity : Nat) :
    Option.Rel (fun found found' => L.Callables found.1 found'.1 ∧ L.Scopes found.2 found'.2)
      (scope.lookupFunction name arity) (scope'.lookupFunction name arity) := by
  induction h with
  | @root frame frame' hframe =>
      have hfuns := hframe.funs name arity
      simp only [Scope.lookupFunction]
      generalize frame.lookupFunction name arity = found,
        frame'.lookupFunction name arity = found' at hfuns
      cases hfuns with
      | none => exact .none
      | some hcallable => exact .some ⟨hcallable, .root hframe⟩
  | @child frame frame' _ _ hframe hparent ih =>
      have hfuns := hframe.funs name arity
      simp only [Scope.lookupFunction]
      generalize frame.lookupFunction name arity = found,
        frame'.lookupFunction name arity = found' at hfuns
      cases hfuns with
      | none => exact ih
      | some hcallable => exact .some ⟨hcallable, .child hframe hparent⟩

theorem defineVariable? (h : L.Scopes scope scope') (name : String) (found : Variable) :
    Option.Rel L.Scopes (scope.defineVariable? name found)
      (scope'.defineVariable? name (L.holder found)) := by
  simp only [Scope.defineVariable?, h.current.vars name]
  cases scope.current.lookupVariable name with
  | some _ => exact .none
  | none => exact .some (h.modifyCurrent (h.current.addVariable name found))

theorem defineFunction? (h : L.Scopes scope scope') (name : String) (arity : Nat)
    {callable callable' : Callable} (hcallable : L.Callables callable callable') :
    Option.Rel L.Scopes (scope.defineFunction? name arity callable)
      (scope'.defineFunction? name arity callable') := by
  have hfuns := h.current.funs name arity
  simp only [Scope.defineFunction?]
  generalize scope.current.lookupFunction name arity = found,
    scope'.current.lookupFunction name arity = found' at hfuns
  cases hfuns with
  | some _ => exact .none
  | none => exact .some (h.modifyCurrent (h.current.addFunction name arity hcallable))

theorem setVariable (h : L.Scopes scope scope') (name : String) (found : Variable) :
    L.Scopes (scope.setVariable name found) (scope'.setVariable name (L.holder found)) := by
  induction h with
  | root hframe => exact .root (hframe.setVariable name found)
  | @child frame _ _ _ hframe hparent ih =>
      simp only [Scope.setVariable, hframe.vars name]
      cases frame.lookupVariable name with
      | none => exact .child hframe ih
      | some _ => exact .child (hframe.setVariable name found) hparent

theorem regrow (h : L.Scopes scope scope') {outer outer' : RunScope}
    (houter : L.Scopes outer outer') : L.Scopes (scope.regrow outer) (scope'.regrow outer') := by
  induction h with
  | root _ => exact houter
  | child hframe hparent ih =>
      simp only [Scope.regrow, hparent.depth_eq, houter.depth_eq]
      split
      · exact houter
      · exact .child hframe ih

end Scopes

/-! ## Machines that hold the same -/

/-- Machines hold the same but for functions that may stand for each other. -/
def sameStores (functions : Function → Function → Prop) (cuts : Halt → Prop) : Likeness :=
  ⟨#[], [], Eq, functions, cuts⟩

section SameStores

variable {functions : Function → Function → Prop} {cuts : Halt → Prop}

theorem stores_refl (m : Machine) : (sameStores functions cuts).Stores m m where
  lists := (Lists.behind_empty m.lists).symm
  sink := rfl
  active := rfl
  notices := (List.append_nil _).symm

theorem Stores.eq {m m' : Machine} (h : (sameStores functions cuts).Stores m m')
    (hscope : m'.scope = m.scope) : m' = m := by
  obtain ⟨hlists, hsink, hactive, hnotices⟩ := h
  obtain ⟨scope, lists, sink, active, notices⟩ := m
  obtain ⟨scope', lists', sink', active', notices'⟩ := m'
  obtain rfl : lists' = lists := hlists.trans (Lists.behind_empty lists)
  obtain rfl : sink = sink' := hsink
  obtain rfl : notices' = notices := hnotices.trans (List.append_nil notices)
  cases hactive
  cases hscope
  rfl

theorem sameStores_takes {sink sink' : Sink} (text : String)
    (h : (sameStores functions cuts).sinks sink sink') :
    sink'.refuses text = sink.refuses text ∧
      (sameStores functions cuts).sinks (sink.write text) (sink'.write text) := by
  obtain rfl : sink = sink' := h
  exact ⟨rfl, rfl⟩

end SameStores

/-- The scope of every program is like itself. -/
theorem scopes_initial : L.Scopes .initial .initial :=
  .root (Frames.empty.addFunction "print" 1 .print)

/-! ## Ends of runs -/

variable {α β γ δ : Type}

/-- The end of a second run beside that of a first one. -/
inductive Ends (L : Likeness) (result : α → β) :
    EStateM.Result Halt Machine α → EStateM.Result Halt Machine β → Prop
  | ok {a m m'} : L.Machines m m' → Ends L result (.ok a m) (.ok (result a) m')
  | error {halt m m'} : L.Machines m m' → Ends L result (.error halt m) (.error halt m')
  | cut {halt m other} : L.cuts halt → Ends L result (.error halt m) other

/-- From machines that are alike, the second action comes to the end of the first, what it gives
being seen through `result`. -/
def Alike (L : Likeness) (result : α → β) (x : Run α) (y : Run β) : Prop :=
  ∀ m m', L.Machines m m' → L.Ends result (x m) (y m')

/-- Calls that do the same with the same arguments. -/
def AlikeCalls (L : Likeness) (calls calls' : Calls) : Prop :=
  ∀ name values, L.Alike L.value (calls name values) (calls' name (values.map L.value))

namespace Alike

variable {result : α → β} {x : Run α} {y : Run β}

/-! ### Putting actions together -/

theorem pure {a : α} {b : β} (h : b = result a) :
    L.Alike result (Pure.pure a : Run α) (Pure.pure b) := by
  intro m m' hm
  subst h
  exact .ok hm

theorem bind {result : α → γ} {y : Run γ} {next : β → δ} {f : α → Run β} {f' : γ → Run δ}
    (h : L.Alike result x y) (hrest : ∀ a, L.Alike next (f a) (f' (result a))) :
    L.Alike next (x >>= f) (y >>= f') := by
  intro m m' hm
  have h := h m m' hm
  show L.Ends next (EStateM.bind x f m) (EStateM.bind y f' m')
  unfold EStateM.bind
  generalize x m = left, y m' = right at h
  cases h with
  | ok hm₁ => exact hrest _ _ _ hm₁
  | error hm₁ => exact .error hm₁
  | cut hcut => exact .cut hcut

theorem andThen {x y : Run Unit} {next : α → β} {f : Unit → Run α} {f' : Unit → Run β}
    (h : L.Alike id x y) (hrest : ∀ u, L.Alike next (f u) (f' u)) :
    L.Alike next (x >>= f) (y >>= f') :=
  h.bind hrest

/-- The first action is cut short wherever it starts. -/
theorem cut {halt : Halt} (hcut : L.cuts halt) (h : ∀ m, ∃ after, x m = .error halt after) :
    L.Alike result x y := by
  intro m m' _
  obtain ⟨after, hafter⟩ := h m
  rw [hafter]
  exact .cut hcut

theorem fail {error : RuntimeError} :
    L.Alike result (Run.fail error : Run α) (Run.fail error : Run β) :=
  fun _ _ hm => .error hm

theorem outOfFuel :
    L.Alike result (throw .outOfFuel : Run α) (throw .outOfFuel : Run β) :=
  fun _ _ hm => .error hm

theorem ofExcept {checked : Except RuntimeError α} :
    L.Alike result (Run.ofExcept checked) (Run.ofExcept (checked.map result)) := by
  cases checked with
  | ok a => exact fun _ _ hm => .ok hm
  | error error => exact fail

theorem ofExcept_self {checked : Except RuntimeError α} :
    L.Alike id (Run.ofExcept checked) (Run.ofExcept checked) := by
  cases checked with
  | ok a => exact fun _ _ hm => .ok hm
  | error error => exact fail

/-! ### Actions of a run -/

theorem notify (notice : RunNotice) : L.Alike id (Run.notify notice) (Run.notify notice) :=
  fun _ _ hm => .ok { hm with notices := congrArg (notice :: ·) hm.notices }

theorem print
    (htakes : ∀ {sink sink'} text, L.sinks sink sink' →
      sink'.refuses text = sink.refuses text ∧ L.sinks (sink.write text) (sink'.write text))
    (text : String) :
    L.Alike id (Run.print text) (Run.print text) := by
  intro m m' hm
  obtain ⟨hrefuses, hsink⟩ := htakes text hm.sink
  simp only [Run.print, hrefuses]
  split
  · exact .error { hm with sink := hsink }
  · exact .ok { hm with sink := hsink }

theorem variableNamed (name : String) :
    L.Alike L.holder (Run.variableNamed name) (Run.variableNamed name) := by
  intro m m' hm
  simp only [Run.variableNamed, hm.scope.lookupVariable name]
  cases m.scope.lookupVariable name with
  | none => exact .error hm
  | some found => exact .ok hm

theorem define (name : String) (isMutable : Bool) (value : Value) :
    L.Alike id (Run.define name isMutable value) (Run.define name isMutable (L.value value)) := by
  intro m m' hm
  have hscope := hm.scope.defineVariable? name ⟨isMutable, value⟩
  simp only [holder] at hscope
  simp only [Run.define]
  generalize m.scope.defineVariable? name ⟨isMutable, value⟩ = defined,
    m'.scope.defineVariable? name ⟨isMutable, L.value value⟩ = defined' at hscope
  cases hscope with
  | none => exact .error hm
  | some hscope => exact .ok { hm with scope := hscope }

theorem assign (name : String) (value : Value) :
    L.Alike id (Run.assign name value) (Run.assign name (L.value value)) :=
  fun _ _ hm => .ok { hm with scope := hm.scope.setVariable name ⟨true, value⟩ }

theorem newList (values : List Value) :
    L.Alike L.value (Run.newList values) (Run.newList (values.map L.value)) := by
  intro m m' hm
  simp only [Run.newList, hm.lists, Lists.next_behind]
  exact .ok { hm with lists := Lists.add_behind m.lists L.earlier values }

theorem itemsOf (id : ListId) :
    L.Alike (·.map L.value) (Run.itemsOf id) (Run.itemsOf (id + L.earlier.size)) := by
  intro m m' hm
  simp only [Run.itemsOf, hm.lists, Lists.items_behind]
  exact .ok hm

theorem put (list : ListId) (slot : Nat) (value : Value) :
    L.Alike id (Run.put list slot value)
      (Run.put (list + L.earlier.size) slot (L.value value)) := by
  intro m m' hm
  simp only [Run.put, hm.lists]
  exact .ok { hm with lists := Lists.put_behind m.lists L.earlier list slot value }

theorem piecesOf (value : Value) :
    L.Alike id (Run.piecesOf value) (Run.piecesOf (L.value value)) := by
  intro m m' hm
  have hpieces : m'.lists.pieces (L.value value) = m.lists.pieces value := by
    rw [hm.lists]
    exact Lists.pieces_behind m.lists L.earlier value
  simp only [Run.piecesOf, hpieces]
  exact .ok hm

/-! ### Acting inside a frame -/

theorem inBlock (h : L.Alike result x y) : L.Alike result (Run.inBlock x) (Run.inBlock y) := by
  intro m m' hm
  have h := h { m with scope := m.scope.enter } { m' with scope := m'.scope.enter }
    { hm with scope := hm.scope.enter }
  simp only [Run.inBlock]
  generalize x { m with scope := m.scope.enter } = left,
    y { m' with scope := m'.scope.enter } = right at h
  cases h with
  | ok hm₁ => exact .ok { hm₁ with scope := hm₁.scope.leave }
  | error hm₁ => exact .error { hm₁ with scope := hm₁.scope.leave }
  | cut hcut => exact .cut hcut

theorem inCallee {home home' : RunScope} (hhome : L.Scopes home home') (h : L.Alike result x y) :
    L.Alike result (Run.inCallee home x) (Run.inCallee home' y) := by
  intro m m' hm
  have h := h { m with scope := home.enter } { m' with scope := home'.enter }
    { hm with scope := hhome.enter }
  simp only [Run.inCallee]
  generalize x { m with scope := home.enter } = left,
    y { m' with scope := home'.enter } = right at h
  cases h with
  | ok hm₁ => exact .ok { hm₁ with scope := hm.scope.regrow hm₁.scope.leave }
  | error hm₁ => exact .error { hm₁ with scope := hm.scope.regrow hm₁.scope.leave }
  | cut hcut => exact .cut hcut

theorem counted (h : L.Alike result x y) : L.Alike result (Run.counted x) (Run.counted y) := by
  intro m m' hm
  have h := h { m with active := m.active + 1 } { m' with active := m'.active + 1 }
    { hm with active := congrArg (· + 1) hm.active }
  simp only [Run.counted]
  generalize x { m with active := m.active + 1 } = left,
    y { m' with active := m'.active + 1 } = right at h
  cases h with
  | ok hm₁ => exact .ok { hm₁ with active := hm.active }
  | error hm₁ => exact .error { hm₁ with active := hm.active }
  | cut hcut => exact .cut hcut

end Alike

end Likeness

end TinyScript
