import Mathlib.Data.Option.Basic
import TinyScript.Proofs.Run.Outcome

/-!
# Frames that only one of two runs has

The second of two runs may have frames among those of the first, empty ones and ones that hold a
variable which the first run never asks for. A `Layout` tells where they are. A `Hiding` names that
variable and tells which functions may stand for each other, and two actions are `Alike` if they
come to the same end, and to machines that differ in such frames and functions only.

As in a comparison of runs frame by frame, there is one rule for every action and for every way to
put actions together. Here an action may also be put into a frame of its own on one side only.
-/

namespace TinyScript

open Run

/-! ## Layouts -/

/-- What a frame of the second run is. -/
inductive Layer where
  /-- A frame that both runs have. -/
  | shared
  /-- A frame that only the second run has, with what the hidden variable holds if it is bound. -/
  | hidden (value : Option Value)

/-- The frames of the second run inside the outermost one, innermost first. -/
abbrev Layout := List Layer

namespace Layout

/-- Whether what is bound next is bound in both runs. -/
def IsOpen : Layout → Prop
  | .hidden _ :: _ => False
  | _ => True

/-- Whether the hidden variable is found to hold a value, in front of all frames of both runs. -/
def Holds (value : Value) : Layout → Prop
  | .hidden (some held) :: _ => held = value
  | .hidden none :: layout => Holds value layout
  | _ => False

end Layout

/-- What a second run has that a first one has not. -/
structure Hiding where
  /-- The variable that only the second run knows. -/
  name : String
  functions : Function → Function → Prop

namespace Hiding

/-- A frame that binds the hidden variable at most. -/
def frame (H : Hiding) : Option Value → Frame Variable Callable
  | none => .empty
  | some value => Frame.empty.addVariable H.name ⟨true, value⟩

/-- What a call of the second run may invoke in place of what one of the first does. -/
inductive Callables (H : Hiding) : Callable → Callable → Prop
  | print : Callables H .print .print
  | function {function function' : Function} :
      H.functions function function' → Callables H (.function function) (.function function')

/-- Scopes that differ in frames of the second run alone and in what functions do. No function is
bound but in the outermost frame. -/
inductive Scopes (H : Hiding) : Layout → RunScope → RunScope → Prop
  | root {frame frame' : Frame Variable Callable} (vars : frame'.vars = frame.vars)
      (funs : ∀ name arity, Option.Rel H.Callables (frame.lookupFunction name arity)
        (frame'.lookupFunction name arity)) : Scopes H [] (.root frame) (.root frame')
  | shared {layout : Layout} {frame : Frame Variable Callable} {scope scope' : RunScope}
      (plain : frame.funs = []) (parent : Scopes H layout scope scope') :
      Scopes H (.shared :: layout) (.child frame scope) (.child frame scope')
  | hidden {layout : Layout} {scope scope' : RunScope} (value : Option Value)
      (parent : Scopes H layout scope scope') :
      Scopes H (.hidden value :: layout) scope (.child (H.frame value) scope')

variable {H : Hiding} {layout layout' layout'' : Layout}

/-! ## Frames and scopes -/

theorem lookupVariable_frame {name : String} (hname : name ≠ H.name) (value : Option Value) :
    (H.frame value).lookupVariable name = none := by
  cases value with
  | none => rfl
  | some value =>
      rw [frame, Frame.lookupVariable_addVariable, if_neg hname, Frame.lookupVariable_empty]

theorem lookupFunction_frame (value : Option Value) (name : String) (arity : Nat) :
    (H.frame value).lookupFunction name arity = none := by
  cases value <;> rfl

theorem lookupFunction_of_plain {frame : Frame Variable Callable} (plain : frame.funs = [])
    (name : String) (arity : Nat) : frame.lookupFunction name arity = none := by
  rw [Frame.lookupFunction, plain]
  rfl

namespace Scopes

variable {scope scope' : RunScope}

/-- The scope of every program is like itself. -/
theorem initial : H.Scopes [] .initial .initial := by
  refine .root rfl fun name arity => ?_
  rw [Frame.lookupFunction_addFunction]
  split
  · exact .some .print
  · exact .none

theorem enter (h : H.Scopes layout scope scope') :
    H.Scopes (.shared :: layout) scope.enter scope'.enter := .shared rfl h

theorem leave (h : H.Scopes (.shared :: layout) scope scope') :
    H.Scopes layout scope.leave scope'.leave := by
  cases h with
  | shared _ parent => exact parent

theorem leaveHidden {value : Option Value}
    (h : H.Scopes (.hidden value :: layout) scope scope') :
    H.Scopes layout scope scope'.leave := by
  cases h with
  | hidden _ parent => exact parent

theorem lookupVariable (h : H.Scopes layout scope scope') {name : String} (hname : name ≠ H.name) :
    scope'.lookupVariable name = scope.lookupVariable name := by
  induction h with
  | root vars _ =>
      simp only [Scope.lookupVariable, Frame.lookupVariable, vars]
  | @shared _ frame _ _ _ _ ih =>
      simp only [Scope.lookupVariable, ih]
  | hidden value _ ih =>
      simp only [Scope.lookupVariable, lookupVariable_frame hname value, ih]

theorem lookupHidden {value : Value} (h : H.Scopes layout scope scope')
    (hholds : layout.Holds value) : scope'.lookupVariable H.name = some ⟨true, value⟩ := by
  induction h with
  | root _ _ => cases hholds
  | shared _ _ => cases hholds
  | hidden held _ ih =>
      cases held with
      | none => exact ih hholds
      | some held =>
          cases hholds
          simp [Scope.lookupVariable, frame]

theorem lookupFunction (h : H.Scopes layout scope scope') (name : String) (arity : Nat) :
    Option.Rel (fun found found' => H.Callables found.1 found'.1 ∧ H.Scopes [] found.2 found'.2)
      (scope.lookupFunction name arity) (scope'.lookupFunction name arity) := by
  induction h with
  | @root frame frame' vars funs =>
      have hfuns := funs name arity
      simp only [Scope.lookupFunction]
      generalize frame.lookupFunction name arity = found,
        frame'.lookupFunction name arity = found' at hfuns
      cases hfuns with
      | none => exact .none
      | some hcallable => exact .some ⟨hcallable, .root vars funs⟩
  | shared plain _ ih =>
      simp only [Scope.lookupFunction, lookupFunction_of_plain plain]
      exact ih
  | hidden value _ ih =>
      simp only [Scope.lookupFunction, lookupFunction_frame value]
      exact ih

theorem setVariable (h : H.Scopes layout scope scope') {name : String} (hname : name ≠ H.name)
    (found : Variable) :
    H.Scopes layout (scope.setVariable name found) (scope'.setVariable name found) := by
  induction h with
  | root vars funs =>
      exact .root (congrArg (replaceEntry name found) vars) funs
  | @shared _ frame _ _ plain parent ih =>
      simp only [Scope.setVariable]
      split
      · exact .shared plain parent
      · exact .shared plain ih
  | hidden value _ ih =>
      simp only [Scope.setVariable, lookupVariable_frame hname value]
      exact .hidden value ih

theorem defineVariable? (h : H.Scopes layout scope scope') (hopen : layout.IsOpen) (name : String)
    (found : Variable) :
    Option.Rel (H.Scopes layout) (scope.defineVariable? name found)
      (scope'.defineVariable? name found) := by
  cases h with
  | @root frame frame' vars funs =>
      simp only [Scope.defineVariable?, Scope.current, Frame.lookupVariable, vars]
      split
      · exact .none
      · exact .some (.root (congrArg ((name, found) :: ·) vars) funs)
  | shared plain parent =>
      simp only [Scope.defineVariable?, Scope.current]
      split
      · exact .none
      · exact .some (.shared plain parent)
  | hidden _ _ => cases hopen

theorem defineFunction? (h : H.Scopes [] scope scope') (name : String) (arity : Nat)
    {callable callable' : Callable} (hcallable : H.Callables callable callable') :
    Option.Rel (H.Scopes []) (scope.defineFunction? name arity callable)
      (scope'.defineFunction? name arity callable') := by
  cases h with
  | @root frame frame' vars funs =>
      have hfuns := funs name arity
      simp only [Scope.defineFunction?, Scope.current]
      generalize frame.lookupFunction name arity = found,
        frame'.lookupFunction name arity = found' at hfuns
      cases hfuns with
      | some _ => exact .none
      | none =>
          refine .some (.root vars fun asked arity' => ?_)
          rw [Frame.lookupFunction_addFunction, Frame.lookupFunction_addFunction]
          split
          · exact .some hcallable
          · exact funs asked arity'

theorem regrow (h : H.Scopes layout scope scope') {outer outer' : RunScope}
    (houter : H.Scopes [] outer outer') :
    H.Scopes layout (scope.regrow outer) (scope'.regrow outer') := by
  have hdepth : outer.depth = 0 ∧ outer'.depth = 0 := by
    cases houter
    exact ⟨rfl, rfl⟩
  induction h with
  | root _ _ => exact houter
  | shared plain _ ih =>
      simp only [Scope.regrow, hdepth, Nat.not_lt_zero, if_false]
      exact .shared plain ih
  | hidden value _ ih =>
      simp only [Scope.regrow, hdepth, Nat.not_lt_zero, if_false]
      exact .hidden value ih

end Scopes

/-! ## Ends of runs -/

variable {α β : Type}

/-- The end of a second run beside that of a first one. The machines differ in their scopes only;
behind a failure these are of no interest. -/
inductive Ends (H : Hiding) (layout : Layout) :
    EStateM.Result Halt Machine α → EStateM.Result Halt Machine α → Prop
  | ok {a : α} {m : Machine} {scope : RunScope} (h : H.Scopes layout m.scope scope) :
      Ends H layout (.ok a m) (.ok a { m with scope })
  | error {halt : Halt} {m : Machine} {scope : RunScope} :
      Ends H layout (.error halt m) (.error halt { m with scope })

/-- The second run leaves a frame of its own. -/
theorem Ends.leaveHidden {value : Option Value} {left right : EStateM.Result Halt Machine α} :
    H.Ends (.hidden value :: layout) left right →
      H.Ends layout left (match right with
        | .ok a after => .ok a { after with scope := after.scope.leave }
        | .error halt after => .error halt { after with scope := after.scope.leave })
  | .ok hscope => .ok hscope.leaveHidden
  | .error => .error

/-- From machines that differ in the frames of a layout only, two actions come to the same end, in
machines that differ in the frames of another layout. -/
def Alike (H : Hiding) (layout layout' : Layout) (x y : Run α) : Prop :=
  ∀ (m : Machine) (scope : RunScope), H.Scopes layout m.scope scope →
    H.Ends layout' (x m) (y { m with scope })

namespace Alike

variable {x y : Run α}

/-! ### Putting actions together -/

protected theorem pure (a : α) : H.Alike layout layout (pure a) (pure a) := fun _ _ h => .ok h

protected theorem bind {f g : α → Run β} (h : H.Alike layout layout' x y)
    (hrest : ∀ a, H.Alike layout' layout'' (f a) (g a)) :
    H.Alike layout layout'' (x >>= f) (y >>= g) := by
  intro m scope hscope
  have h := h m scope hscope
  show H.Ends layout'' (EStateM.bind x f m) (EStateM.bind y g { m with scope })
  unfold EStateM.bind
  generalize x m = left, y { m with scope } = right at h
  cases h with
  | ok hscope => exact hrest _ _ _ hscope
  | error => exact .error

theorem fail {error : RuntimeError} :
    H.Alike layout layout' (Run.fail error : Run α) (Run.fail error) := fun _ _ _ => .error

theorem outOfFuel : H.Alike layout layout' (throw .outOfFuel : Run α) (throw .outOfFuel) :=
  fun _ _ _ => .error

theorem ofExcept (checked : Except RuntimeError α) :
    H.Alike layout layout (Run.ofExcept checked) (Run.ofExcept checked) := by
  cases checked with
  | ok a => exact .pure a
  | error error => exact .fail

/-! ### Actions of a run -/

theorem notify (notice : RunNotice) :
    H.Alike layout layout (Run.notify notice) (Run.notify notice) := fun _ _ h => .ok h

theorem print (text : String) : H.Alike layout layout (Run.print text) (Run.print text) := by
  intro m scope h
  simp only [Run.print]
  split
  · exact .error
  · exact .ok h

theorem newList (values : List Value) :
    H.Alike layout layout (Run.newList values) (Run.newList values) := fun _ _ h => .ok h

theorem itemsOf (id : ListId) : H.Alike layout layout (Run.itemsOf id) (Run.itemsOf id) :=
  fun _ _ h => .ok h

theorem put (id : ListId) (slot : Nat) (value : Value) :
    H.Alike layout layout (Run.put id slot value) (Run.put id slot value) := fun _ _ h => .ok h

theorem piecesOf (value : Value) :
    H.Alike layout layout (Run.piecesOf value) (Run.piecesOf value) := fun _ _ h => .ok h

theorem operate (settings : RunSettings) (operator : Operator) (a b : Value) :
    H.Alike layout layout (Run.operate settings operator a b)
      (Run.operate settings operator a b) := by
  intro m scope h
  simp only [Run.operate]
  split
  · exact .error
  · exact ofExcept _ m scope h

theorem variableNamed {name : String} (hname : name ≠ H.name) :
    H.Alike layout layout (Run.variableNamed name) (Run.variableNamed name) := by
  intro m scope h
  simp only [Run.variableNamed, h.lookupVariable hname]
  cases m.scope.lookupVariable name with
  | none => exact .error
  | some found => exact .ok h

theorem define (hopen : layout.IsOpen) (name : String) (isMutable : Bool) (value : Value) :
    H.Alike layout layout (Run.define name isMutable value) (Run.define name isMutable value) := by
  intro m scope h
  have hdefined := h.defineVariable? hopen name ⟨isMutable, value⟩
  simp only [Run.define]
  generalize m.scope.defineVariable? name ⟨isMutable, value⟩ = defined,
    scope.defineVariable? name ⟨isMutable, value⟩ = defined' at hdefined
  cases hdefined with
  | none => exact .error
  | some hscope => exact .ok hscope

theorem assign {name : String} (hname : name ≠ H.name) (value : Value) :
    H.Alike layout layout (Run.assign name value) (Run.assign name value) :=
  fun _ _ h => .ok (h.setVariable hname ⟨true, value⟩)

/-! ### Acting inside a frame -/

theorem inBlock (h : H.Alike (.shared :: layout) (.shared :: layout) x y) :
    H.Alike layout layout (Run.inBlock x) (Run.inBlock y) := by
  intro m scope hscope
  have h := h { m with scope := m.scope.enter } scope.enter hscope.enter
  simp only [Run.inBlock]
  generalize x { m with scope := m.scope.enter } = left,
    y { m with scope := scope.enter } = right at h
  cases h with
  | ok hscope => exact .ok hscope.leave
  | error => exact .error

theorem inCallee {home home' : RunScope} (hhome : H.Scopes [] home home')
    (h : H.Alike [.shared] [.shared] x y) :
    H.Alike layout layout (Run.inCallee home x) (Run.inCallee home' y) := by
  intro m scope hscope
  have h := h { m with scope := home.enter } home'.enter hhome.enter
  simp only [Run.inCallee]
  generalize x { m with scope := home.enter } = left,
    y { m with scope := home'.enter } = right at h
  cases h with
  | ok hafter => exact .ok (hscope.regrow hafter.leave)
  | error => exact .error

theorem counted (h : H.Alike layout layout x y) :
    H.Alike layout layout (Run.counted x) (Run.counted y) := by
  intro m scope hscope
  have h := h { m with active := m.active + 1 } scope hscope
  simp only [Run.counted]
  generalize x { m with active := m.active + 1 } = left,
    y { m with active := m.active + 1, scope := scope } = right at h
  cases h with
  | ok hscope => exact .ok hscope
  | error => exact .error

/-! ### What only the second run does -/

/-- The second run acts in an empty frame of its own. -/
theorem hide (h : H.Alike (.hidden none :: layout) (.hidden none :: layout) x y) :
    H.Alike layout layout x (Run.inBlock y) :=
  fun m scope hscope => (h m scope.enter (.hidden none hscope)).leaveHidden

/-- The second run keeps a value, which both have, in a frame of its own. -/
theorem keep {x y : Run Value} {f g : Value → Run α}
    (h : H.Alike (.hidden none :: layout) (.hidden none :: layout) x y)
    (hrest : ∀ value, H.Alike (.hidden (some value) :: layout) (.hidden (some value) :: layout)
      (f value) (g value)) :
    H.Alike layout layout (x >>= f)
      (Run.inBlock (y >>= fun value => Run.define H.name true value >>= fun _ => g value)) := by
  intro m scope hscope
  have h := h m scope.enter (.hidden none hscope)
  show H.Ends layout (EStateM.bind x f m) (Run.inBlock (EStateM.bind y _) { m with scope })
  simp only [Run.inBlock]
  unfold EStateM.bind
  generalize x m = left, y { m with scope := scope.enter } = right at h
  cases h with
  | error => exact .error
  | @ok value after _ hscope =>
      cases hscope with
      | hidden _ parent =>
          exact (hrest value after _ (.hidden (some value) parent)).leaveHidden

/-- The second run reads the hidden variable. -/
theorem readHidden {value : Value} (hholds : layout.Holds value) :
    H.Alike layout layout (pure ⟨true, value⟩) (Run.variableNamed H.name) := by
  intro m scope hscope
  simp only [Run.variableNamed, hscope.lookupHidden hholds]
  exact .ok hscope

end Alike

end Hiding

end TinyScript
