import TinyScript.Proofs.CallCount
import TinyScript.Proofs.Run.Outcome

/-!
# What a run spends

The calls in a tree bound the calls that evaluating it makes, those inside the called functions
apart. Calls nest no deeper than the settings allow, so when the functions that a run has bound have
at most `K` calls each, one call leads to at most `(K + 1) ^ room` calls in all. `Spends` keeps the
account: what an action adds to the notices, of which every call gives one, that it leaves the
number of calls under way as it was, and whether it may run out of rounds. The costs of actions in
sequence add up, so every function of the evaluator has its account by recursion on the tree.
-/

namespace TinyScript

open Run

/-! ## Functions that a scope binds -/

/-- All functions of a program that a frame binds have a property. -/
def Frame.Binds (P : Function → Prop) (frame : Frame Variable Callable) : Prop :=
  ∀ name arity function, frame.lookupFunction name arity = some (.function function) → P function

/-- All functions of a program that a scope binds have a property. -/
def Scope.Binds (P : Function → Prop) : RunScope → Prop
  | .root frame => frame.Binds P
  | .child frame parent => frame.Binds P ∧ Scope.Binds P parent

variable {P : Function → Prop}

namespace Scope.Binds

variable {scope : RunScope}

theorem enter (h : Scope.Binds P scope) : Scope.Binds P scope.enter := ⟨nofun, h⟩

theorem leave (h : Scope.Binds P scope) : Scope.Binds P scope.leave := by
  cases scope with
  | root frame => exact h
  | child frame parent => exact h.2

theorem current (h : Scope.Binds P scope) : scope.current.Binds P := by
  cases scope with
  | root frame => exact h
  | child frame parent => exact h.1

theorem modifyCurrent (h : Scope.Binds P scope)
    {change : Frame Variable Callable → Frame Variable Callable}
    (hchange : (change scope.current).Binds P) : Scope.Binds P (scope.modifyCurrent change) := by
  cases scope with
  | root frame => exact hchange
  | child frame parent => exact ⟨hchange, h.2⟩

theorem defineVariable? (h : Scope.Binds P scope) {name : String} {found : Variable}
    {scope' : RunScope} (hdefine : scope.defineVariable? name found = some scope') :
    Scope.Binds P scope' := by
  obtain ⟨-, rfl⟩ := Scope.defineVariable?_eq_some.mp hdefine
  exact h.modifyCurrent h.current

theorem defineFunction? (h : Scope.Binds P scope) {name : String} {arity : Nat}
    {function : Function} (hfunction : P function) {scope' : RunScope}
    (hdefine : scope.defineFunction? name arity (.function function) = some scope') :
    Scope.Binds P scope' := by
  obtain ⟨-, rfl⟩ := Scope.defineFunction?_eq_some.mp hdefine
  refine h.modifyCurrent fun asked arity' other hfound => ?_
  rw [Frame.lookupFunction_addFunction] at hfound
  split at hfound
  · cases hfound
    exact hfunction
  · exact h.current asked arity' other hfound

theorem setVariable (h : Scope.Binds P scope) (name : String) (found : Variable) :
    Scope.Binds P (scope.setVariable name found) := by
  induction scope with
  | root frame => exact h
  | child frame parent ih =>
      simp only [Scope.setVariable]
      split
      · exact h
      · exact ⟨h.1, ih h.2⟩

theorem regrow (h : Scope.Binds P scope) {outer : RunScope} (houter : Scope.Binds P outer) :
    Scope.Binds P (scope.regrow outer) := by
  induction scope with
  | root frame => exact houter
  | child frame parent ih =>
      simp only [Scope.regrow]
      split
      · exact houter
      · exact ⟨h.1, ih h.2⟩

theorem lookupFunction (h : Scope.Binds P scope) {name : String} {arity : Nat} {callable : Callable}
    {home : RunScope} (hfound : scope.lookupFunction name arity = some (callable, home)) :
    Scope.Binds P home ∧ ∀ function, callable = .function function → P function := by
  induction scope with
  | root frame =>
      simp only [Scope.lookupFunction, Option.map_eq_some_iff] at hfound
      obtain ⟨_, hframe, heq⟩ := hfound
      cases heq
      exact ⟨h, fun function hcallable => h name arity function (hcallable ▸ hframe)⟩
  | child frame parent ih =>
      simp only [Scope.lookupFunction] at hfound
      cases hframe : frame.lookupFunction name arity with
      | none =>
          rw [hframe] at hfound
          exact ih h.2 hfound
      | some binding =>
          rw [hframe] at hfound
          cases hfound
          exact ⟨h, fun function hcallable => h.1 name arity function (hcallable ▸ hframe)⟩

end Scope.Binds

theorem RunScope.binds_initial : Scope.Binds P .initial := by
  intro name arity function hfound
  simp only [Frame.lookupFunction_addFunction, Frame.lookupFunction_empty] at hfound
  split at hfound <;> cases hfound

/-! ## Accounts -/

/-- A machine that is left where another one started: as many calls are under way, and there are no
more than so many notices more. -/
structure Machine.Spent (count : Nat) (m m' : Machine) : Prop where
  active : m'.active = m.active
  notices : m'.notices.length ≤ m.notices.length + count

namespace Run

variable {α β : Type} {dry : Prop} {count count' : Nat}

/-- How an action ends that costs so many notices, starting from a machine whose scope binds
functions with a property only. It runs out of rounds only if it may. -/
inductive Leaves (P : Function → Prop) (dry : Prop) (count : Nat) (m : Machine) :
    EStateM.Result Halt Machine α → Prop
  | ok {a m'} : Scope.Binds P m'.scope → Machine.Spent count m m' → Leaves P dry count m (.ok a m')
  | error {halt m'} : (halt = .outOfFuel → dry) → Machine.Spent count m m' →
      Leaves P dry count m (.error halt m')

/-- An action costs so many notices. -/
def Spends (P : Function → Prop) (dry : Prop) (count : Nat) (x : Run α) : Prop :=
  ∀ m, Scope.Binds P m.scope → Leaves P dry count m (x m)

end Run

namespace Machine.Spent

variable {count count' : Nat} {m m' m'' : Machine}

theorem refl : Machine.Spent count m m := ⟨rfl, Nat.le_add_right _ _⟩

theorem mono (h : Machine.Spent count m m') (hle : count ≤ count') : Machine.Spent count' m m' :=
  ⟨h.active, Nat.le_trans h.notices (Nat.add_le_add_left hle _)⟩

theorem trans (h : Machine.Spent count m m') (h' : Machine.Spent count' m' m'') :
    Machine.Spent (count + count') m m'' := by
  refine ⟨h'.active.trans h.active, ?_⟩
  have hfirst := h.notices
  have hsecond := h'.notices
  omega

end Machine.Spent

namespace Run.Spends

variable {α β : Type} {dry : Prop} {count count' : Nat} {x : Run α}

/-! ### Putting actions together -/

theorem mono (h : Spends P dry count x) (hle : count ≤ count') : Spends P dry count' x := by
  intro m hm
  have h := h m hm
  generalize x m = result at h
  cases h with
  | ok hbinds hspent => exact .ok hbinds (hspent.mono hle)
  | error hdry hspent => exact .error hdry (hspent.mono hle)

theorem pure (a : α) : Spends P dry count (Pure.pure a) := fun _ hm => .ok hm .refl

theorem bind {f : α → Run β} (h : Spends P dry count x) (hrest : ∀ a, Spends P dry count' (f a)) :
    Spends P dry (count + count') (x >>= f) := by
  intro m hm
  have h := h m hm
  show Leaves P dry (count + count') m (EStateM.bind x f m)
  unfold EStateM.bind
  generalize x m = result at h
  cases h with
  | @ok a m₁ hbinds hspent =>
      have hrest := hrest a m₁ hbinds
      simp only
      generalize f a m₁ = result at hrest
      cases hrest with
      | ok hbinds' hspent' => exact .ok hbinds' (hspent.trans hspent')
      | error hdry hspent' => exact .error hdry (hspent.trans hspent')
  | error hdry hspent => exact .error hdry (hspent.mono (Nat.le_add_right _ _))

/-- What is done behind an action that costs nothing is all that counts. -/
theorem free_bind {f : α → Run β} (h : Spends P dry 0 x) (hrest : ∀ a, Spends P dry count (f a)) :
    Spends P dry count (x >>= f) :=
  Nat.zero_add count ▸ h.bind hrest

/-- What is done in front of an action that costs nothing is all that counts. -/
theorem bind_free {f : α → Run β} (h : Spends P dry count x) (hrest : ∀ a, Spends P dry 0 (f a)) :
    Spends P dry count (x >>= f) :=
  h.bind hrest

theorem map {f : α → β} (h : Spends P dry count x) : Spends P dry count (f <$> x) := by
  intro m hm
  have h := h m hm
  show Leaves P dry count m (EStateM.map f x m)
  unfold EStateM.map
  generalize x m = result at h
  cases h with
  | ok hbinds hspent => exact .ok hbinds hspent
  | error hdry hspent => exact .error hdry hspent

theorem fail (error : RuntimeError) : Spends P dry count (Run.fail error : Run α) :=
  fun _ _ => .error nofun .refl

theorem ofExcept (checked : Except RuntimeError α) : Spends P dry count (Run.ofExcept checked) := by
  cases checked with
  | ok a => exact pure a
  | error error => exact fail error

/-! ### Actions of a run -/

theorem notify (notice : RunNotice) : Spends P dry 1 (Run.notify notice) :=
  fun _ hm => .ok hm ⟨rfl, Nat.le_refl _⟩

theorem print (text : String) : Spends P dry count (Run.print text) := by
  intro m hm
  simp only [Run.print]
  split
  · exact .error (fun hdry => Halt.noConfusion hdry) ⟨rfl, Nat.le_add_right _ _⟩
  · exact .ok hm ⟨rfl, Nat.le_add_right _ _⟩

theorem variableNamed (name : String) : Spends P dry count (Run.variableNamed name) := by
  intro m hm
  unfold Run.variableNamed
  split
  · exact .ok hm .refl
  · exact .error nofun .refl

theorem define (name : String) (isMutable : Bool) (value : Value) :
    Spends P dry count (Run.define name isMutable value) := by
  intro m hm
  unfold Run.define
  split
  · next hdefine => exact .ok (hm.defineVariable? hdefine) ⟨rfl, Nat.le_add_right _ _⟩
  · exact .error nofun .refl

theorem assign (name : String) (value : Value) : Spends P dry count (Run.assign name value) :=
  fun _ hm => .ok (hm.setVariable name _) ⟨rfl, Nat.le_add_right _ _⟩

theorem newList (values : List Value) : Spends P dry count (Run.newList values) :=
  fun _ hm => .ok hm ⟨rfl, Nat.le_add_right _ _⟩

theorem itemsOf (id : ListId) : Spends P dry count (Run.itemsOf id) := fun _ hm => .ok hm .refl

theorem put (id : ListId) (slot : Nat) (value : Value) :
    Spends P dry count (Run.put id slot value) :=
  fun _ hm => .ok hm ⟨rfl, Nat.le_add_right _ _⟩

theorem piecesOf (value : Value) : Spends P dry count (Run.piecesOf value) :=
  fun _ hm => .ok hm .refl

/-! ### Acting inside a frame -/

theorem inBlock (h : Spends P dry count x) : Spends P dry count (Run.inBlock x) := by
  intro m hm
  have h := h { m with scope := m.scope.enter } hm.enter
  unfold Run.inBlock
  generalize x { m with scope := m.scope.enter } = result at h
  cases h with
  | ok hbinds hspent => exact .ok hbinds.leave ⟨hspent.active, hspent.notices⟩
  | error hdry hspent => exact .error hdry ⟨hspent.active, hspent.notices⟩

theorem inCallee {home : RunScope} (hhome : Scope.Binds P home) (h : Spends P dry count x) :
    Spends P dry count (Run.inCallee home x) := by
  intro m hm
  have h := h { m with scope := home.enter } hhome.enter
  unfold Run.inCallee
  generalize x { m with scope := home.enter } = result at h
  cases h with
  | ok hbinds hspent =>
      exact .ok (hm.regrow hbinds.leave) ⟨hspent.active, hspent.notices⟩
  | error hdry hspent => exact .error hdry ⟨hspent.active, hspent.notices⟩

theorem counted (h : Spends P dry count x) : Spends P dry count (Run.counted x) := by
  intro m hm
  have h := h { m with active := m.active + 1 } hm
  unfold Run.counted
  generalize x { m with active := m.active + 1 } = result at h
  cases h with
  | ok hbinds hspent => exact .ok hbinds ⟨rfl, hspent.notices⟩
  | error hdry hspent => exact .error hdry ⟨rfl, hspent.notices⟩

end Run.Spends

end TinyScript
