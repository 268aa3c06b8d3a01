import Mathlib.Data.List.Induction
import Mathlib.Data.Sum.Basic
import Mathlib.Logic.Function.Iterate
import TinyScript.Proofs.Scope

/-!
# A scope answers by its history

A scope is handed on from one operation to the next: frames are opened inside it and dropped again,
names are bound, functions are changed in place. What it answers can be told from these operations
alone. A binding lives as long as the frame that was current when it was made, so for every
definition in the history it counts how many frames are open inside that frame now
(`Operation.follow`); of the definitions of a key that were taken and are still followed, the one
with the fewest frames inside answers. Main statement: `answers_by_history`. The induction is on the
history, from the end: `holdsAt_apply` says what one operation does to the frames, and
`bound_concat` says the same of the definitions in a history.
-/

namespace TinyScript

/-! ## Keys -/

/-- What a scope can be asked for. -/
inductive Key where
  | ofVariable (name : String)
  | ofFunction (name : String) (arity : Nat)
deriving DecidableEq

/-- The binding of a key. -/
def Frame.find? {V F : Type} (frame : Frame V F) : Key → Option (V ⊕ F)
  | .ofVariable name => (frame.lookupVariable name).map .inl
  | .ofFunction name arity => (frame.lookupFunction name arity).map .inr

namespace Scope

variable {V F : Type}

/-- What a scope tells about a key: its binding and, of a function, how deep the scope is that holds
it. -/
def ask (scope : Scope V F) : Key → Option ((V ⊕ F) × Option Nat)
  | .ofVariable name => (scope.lookupVariable name).map fun binding => (.inl binding, none)
  | .ofFunction name arity =>
    (scope.lookupFunction name arity).map fun (binding, home) => (.inr binding, some home.depth)

/-! ## Operations -/

/-- What can be done to a scope. -/
inductive Operation (V F : Type) where
  | enter
  | leave
  | defineVariable (name : String) (binding : V)
  | defineFunction (name : String) (arity : Nat) (binding : F)
  /-- Changes a function of the innermost frame in place. -/
  | updateFunction (name : String) (arity : Nat) (change : F → F)

namespace Operation

/-- The scope behind an operation. -/
def apply : Operation V F → Scope V F → Scope V F
  | enter, scope => scope.enter
  | leave, scope => scope.leave
  | defineVariable name binding, scope => (scope.defineVariable? name binding).getD scope
  | defineFunction name arity binding, scope =>
    (scope.defineFunction? name arity binding).getD scope
  | updateFunction name arity change, scope =>
    match scope.current.lookupFunction name arity with
    | some binding => scope.setFunction name arity (change binding)
    | none => scope

/-- Whether a scope takes an operation. Only definitions can be refused. -/
def isTaken : Operation V F → Scope V F → Bool
  | defineVariable name binding, scope => (scope.defineVariable? name binding).isSome
  | defineFunction name arity binding, scope => (scope.defineFunction? name arity binding).isSome
  | _, _ => true

/-- What an operation defines. -/
def definition? : Operation V F → Option (Key × (V ⊕ F))
  | defineVariable name binding => some (.ofVariable name, .inl binding)
  | defineFunction name arity binding => some (.ofFunction name arity, .inr binding)
  | _ => none

/-- The number of frames inside a given one when there were so many before. There is none when the
frame itself is dropped. -/
def level : Operation V F → Nat → Option Nat
  | enter, inside => some (inside + 1)
  | leave, 0 => none
  | leave, inside + 1 => some inside
  | _, inside => some inside

/-- What an operation makes of the binding of a key in the innermost frame. -/
def revise : Operation V F → Key → V ⊕ F → V ⊕ F
  | updateFunction name arity change, key, binding =>
    if key = .ofFunction name arity then binding.map id change else binding
  | _, _, binding => binding

/-- What becomes of a binding: how many frames are inside its frame, and what it is now. -/
def follow (key : Key) (state : Nat × (V ⊕ F)) (operation : Operation V F) :
    Option (Nat × (V ⊕ F)) :=
  (operation.level state.1).map fun inside =>
    (inside, if state.1 = 0 then operation.revise key state.2 else state.2)

end Operation

/-! ## Histories -/

/-- The scope that operations make of another one. -/
def behind (scope : Scope V F) (history : List (Operation V F)) : Scope V F :=
  history.foldl (fun scope operation => operation.apply scope) scope

/-- The number of frames that operations leave open inside the frame in which they begin, if they do
not drop that frame. -/
def opened (history : List (Operation V F)) : Option Nat :=
  history.foldlM (fun inside operation => operation.level inside) 0

/-- In the course of a history a key has been defined, the definition was taken, and its frame is
still open with so many frames inside it; behind all changes made in place since then, the key has
the given binding there. -/
def Bound (history : List (Operation V F)) (inside : Nat) (key : Key) (binding : V ⊕ F) : Prop :=
  ∃ front operation first back,
    history = front ++ operation :: back ∧ operation.definition? = some (key, first) ∧
      operation.isTaken (empty.behind front) = true ∧
      back.foldlM (Operation.follow key) (0, first) = some (inside, binding)

/-- Of the frames that are still open no frame further inside has the key. -/
def Innermost (history : List (Operation V F)) (inside : Nat) (key : Key) (binding : V ⊕ F) :
    Prop :=
  Bound history inside key binding ∧ ∀ further < inside, ∀ other, ¬ Bound history further key other

/-- What a scope answers is told by a history. -/
structure AnswersBy (scope : Scope V F) (history : List (Operation V F)) : Prop where
  depth : opened history = some scope.depth
  lookupVariable : ∀ name binding, scope.lookupVariable name = some binding ↔
    ∃ inside, Innermost history inside (.ofVariable name) (.inl binding)
  lookupFunction : ∀ name arity binding home,
    scope.lookupFunction name arity = some (binding, home) ↔
      ∃ inside, Innermost history inside (.ofFunction name arity) (.inr binding) ∧
        home = leave^[inside] scope
  refuses : ∀ (operation : Operation V F) key binding, operation.definition? = some (key, binding) →
    (operation.isTaken scope = false ↔ ∃ old, Bound history 0 key old)

/-- What is defined or changed in a scope changes what the scope tells about its own key only, and
what is refused changes nothing. -/
structure ChangesByKey (scope : Scope V F) : Prop where
  refused : ∀ operation : Operation V F, operation.isTaken scope = false →
    ∀ key, (operation.apply scope).ask key = scope.ask key
  defined : ∀ (operation : Operation V F) key binding, operation.definition? = some (key, binding) →
    operation.isTaken scope = true →
      ((operation.apply scope).ask key).map Prod.fst = some binding ∧
        ∀ other, other ≠ key → (operation.apply scope).ask other = scope.ask other
  updated : ∀ name arity change other, other ≠ .ofFunction name arity →
    ((Operation.updateFunction name arity change).apply scope).ask other = scope.ask other

end Scope

/-! ## Frames of a scope -/

namespace Frame

variable {V F : Type}

@[simp] theorem find?_empty (key : Key) : (empty : Frame V F).find? key = none := by
  cases key <;> rfl

theorem find?_addVariable (frame : Frame V F) (name : String) (binding : V) (key : Key) :
    (frame.addVariable name binding).find? key =
      if key = .ofVariable name then some (.inl binding) else frame.find? key := by
  cases key with
  | ofVariable other => by_cases same : other = name <;> simp [find?, same]
  | ofFunction other arity => simp [find?]

theorem find?_addFunction (frame : Frame V F) (name : String) (arity : Nat) (binding : F)
    (key : Key) :
    (frame.addFunction name arity binding).find? key =
      if key = .ofFunction name arity then some (.inr binding) else frame.find? key := by
  cases key with
  | ofVariable other => simp [find?]
  | ofFunction other asked =>
      by_cases same : other = name ∧ asked = arity <;> simp [find?, same]

theorem find?_setFunction {frame : Frame V F} {name : String} {arity : Nat} {old : F}
    (hold : frame.lookupFunction name arity = some old) (binding : F) (key : Key) :
    (frame.setFunction name arity binding).find? key =
      if key = .ofFunction name arity then some (.inr binding) else frame.find? key := by
  cases key with
  | ofVariable other => simp [find?, setFunction, lookupVariable]
  | ofFunction other asked =>
      unfold lookupFunction at hold
      by_cases same : other = name ∧ asked = arity <;>
        simp [find?, setFunction, lookupFunction, lookup_replaceEntry, same, hold]

end Frame

namespace Scope

variable {V F : Type}

/-- The binding of a key in the frame that so many frames are inside of. -/
def holdsAt (scope : Scope V F) (inside : Nat) (key : Key) : Option (V ⊕ F) :=
  scope.frames[inside]?.bind (·.find? key)

@[simp] theorem holdsAt_root_zero (frame : Frame V F) (key : Key) :
    (root frame).holdsAt 0 key = frame.find? key := rfl

@[simp] theorem holdsAt_root_succ (frame : Frame V F) (inside : Nat) (key : Key) :
    (root frame).holdsAt (inside + 1) key = none := rfl

@[simp] theorem holdsAt_child_zero (frame : Frame V F) (parent : Scope V F) (key : Key) :
    (child frame parent).holdsAt 0 key = frame.find? key := rfl

@[simp] theorem holdsAt_child_succ (frame : Frame V F) (parent : Scope V F) (inside : Nat)
    (key : Key) : (child frame parent).holdsAt (inside + 1) key = parent.holdsAt inside key := rfl

theorem holdsAt_zero (scope : Scope V F) (key : Key) :
    scope.holdsAt 0 key = scope.current.find? key := by
  cases scope <;> rfl

theorem holdsAt_modifyCurrent (change : Frame V F → Frame V F) (scope : Scope V F) (inside : Nat)
    (key : Key) :
    (scope.modifyCurrent change).holdsAt inside key =
      if inside = 0 then (change scope.current).find? key else scope.holdsAt inside key := by
  cases scope <;> cases inside <;> rfl

/-- The frame inside of which so many frames are has the key, and none of these frames has. -/
def Nearest (scope : Scope V F) (inside : Nat) (key : Key) (binding : V ⊕ F) : Prop :=
  scope.holdsAt inside key = some binding ∧ ∀ further < inside, scope.holdsAt further key = none

theorem nearest_root {frame : Frame V F} {inside : Nat} {key : Key} {binding : V ⊕ F} :
    (root frame).Nearest inside key binding ↔ inside = 0 ∧ frame.find? key = some binding := by
  cases inside with
  | zero => simp [Nearest]
  | succ inside => simp [Nearest]

theorem nearest_child_of_some {frame : Frame V F} {parent : Scope V F} {inside : Nat} {key : Key}
    {binding old : V ⊕ F} (hold : frame.find? key = some old) :
    (child frame parent).Nearest inside key binding ↔ inside = 0 ∧ old = binding := by
  cases inside with
  | zero => simp [Nearest, hold]
  | succ inside =>
      simp only [Nearest, Nat.succ_ne_zero, false_and, iff_false, not_and, not_forall]
      exact fun _ => ⟨0, Nat.succ_pos inside, by simp [hold]⟩

theorem nearest_child_of_none {frame : Frame V F} {parent : Scope V F} {inside : Nat} {key : Key}
    {binding : V ⊕ F} (hnone : frame.find? key = none) :
    (child frame parent).Nearest inside key binding ↔
      ∃ outer, inside = outer + 1 ∧ parent.Nearest outer key binding := by
  cases inside with
  | zero => simp [Nearest, hnone]
  | succ inside =>
      simp only [Nearest, holdsAt_child_succ, Nat.add_right_cancel_iff, exists_eq_left']
      refine and_congr_right fun _ => ⟨fun h further hfurther => ?_, fun h further hfurther => ?_⟩
      · exact h (further + 1) (Nat.succ_lt_succ hfurther)
      · cases further with
        | zero => exact hnone
        | succ further => exact h further (Nat.lt_of_succ_lt_succ hfurther)

theorem lookupVariable_eq_some {scope : Scope V F} {name : String} {binding : V} :
    scope.lookupVariable name = some binding ↔
      ∃ inside, scope.Nearest inside (.ofVariable name) (.inl binding) := by
  induction scope with
  | root frame => simp [lookupVariable, nearest_root, Frame.find?]
  | child frame parent ih =>
      cases hframe : frame.lookupVariable name with
      | some old =>
          have hold : frame.find? (.ofVariable name) = some (.inl old) := by
            simp [Frame.find?, hframe]
          simp [lookupVariable, hframe, nearest_child_of_some hold]
      | none =>
          have hnone : frame.find? (.ofVariable name) = none := by simp [Frame.find?, hframe]
          simp [lookupVariable, hframe, nearest_child_of_none hnone, ih]

theorem lookupFunction_eq_some {scope home : Scope V F} {name : String} {arity : Nat}
    {binding : F} :
    scope.lookupFunction name arity = some (binding, home) ↔
      ∃ inside, scope.Nearest inside (.ofFunction name arity) (.inr binding) ∧
        home = leave^[inside] scope := by
  induction scope with
  | root frame =>
      cases hframe : frame.lookupFunction name arity <;>
        simp [lookupFunction, nearest_root, Frame.find?, hframe, eq_comm]
  | child frame parent ih =>
      cases hframe : frame.lookupFunction name arity with
      | some old =>
          have hold : frame.find? (.ofFunction name arity) = some (.inr old) := by
            simp [Frame.find?, hframe]
          simp [lookupFunction, hframe, nearest_child_of_some hold, eq_comm]
      | none =>
          have hnone : frame.find? (.ofFunction name arity) = none := by
            simp [Frame.find?, hframe]
          simp [lookupFunction, hframe, nearest_child_of_none hnone, ih, leave]

/-! ## One operation -/

variable {scope : Scope V F} {operation : Operation V F} {key : Key}

theorem apply_of_refused (hrefused : operation.isTaken scope = false) :
    operation.apply scope = scope := by
  cases operation with
  | defineVariable name binding =>
      have hnone : scope.defineVariable? name binding = none :=
        Option.isSome_eq_false_iff.mp hrefused |> Option.isNone_iff_eq_none.mp
      rw [Operation.apply, hnone, Option.getD_none]
  | defineFunction name arity binding =>
      have hnone : scope.defineFunction? name arity binding = none :=
        Option.isSome_eq_false_iff.mp hrefused |> Option.isNone_iff_eq_none.mp
      rw [Operation.apply, hnone, Option.getD_none]
  | _ => cases hrefused

/-- A definition that is taken adds to the innermost frame what was missing there. -/
theorem apply_of_taken {binding : V ⊕ F} (hdefines : operation.definition? = some (key, binding))
    (htaken : operation.isTaken scope = true) :
    ∃ change, operation.apply scope = scope.modifyCurrent change ∧
      scope.current.find? key = none ∧
        ∀ other, (change scope.current).find? other =
          if other = key then some binding else scope.current.find? other := by
  cases operation with
  | defineVariable name value =>
      cases hdefines
      obtain ⟨scope', hdefine⟩ := Option.isSome_iff_exists.mp htaken
      obtain ⟨hnone, rfl⟩ := defineVariable?_eq_some.mp hdefine
      refine ⟨(·.addVariable name value), by rw [Operation.apply, hdefine, Option.getD_some], ?_,
        scope.current.find?_addVariable name value⟩
      rw [Frame.find?, hnone, Option.map_none]
  | defineFunction name arity value =>
      cases hdefines
      obtain ⟨scope', hdefine⟩ := Option.isSome_iff_exists.mp htaken
      obtain ⟨hnone, rfl⟩ := defineFunction?_eq_some.mp hdefine
      refine ⟨(·.addFunction name arity value), by rw [Operation.apply, hdefine, Option.getD_some],
        ?_, scope.current.find?_addFunction name arity value⟩
      rw [Frame.find?, hnone, Option.map_none]
  | _ => cases hdefines

/-- A definition is refused when the innermost frame has the key. -/
theorem isTaken_eq_false {binding : V ⊕ F}
    (hdefines : operation.definition? = some (key, binding)) :
    operation.isTaken scope = false ↔ ∃ old, scope.current.find? key = some old := by
  cases operation with
  | defineVariable name value =>
      cases hdefines
      simp [Operation.isTaken, defineVariable?_eq_none, Frame.find?]
  | defineFunction name arity value =>
      cases hdefines
      simp [Operation.isTaken, defineFunction?_eq_none, Frame.find?]
  | _ => cases hdefines

theorem revise_of_ne {name : String} {arity : Nat} {change : F → F}
    (hother : key ≠ .ofFunction name arity) :
    (Operation.updateFunction name arity change : Operation V F).revise key = id := by
  funext binding
  rw [Operation.revise, if_neg hother, id]

/-- A change in place revises the innermost frame. -/
theorem apply_update (scope : Scope V F) (name : String) (arity : Nat) (change : F → F) :
    ∃ revised, (Operation.updateFunction name arity change).apply scope =
        scope.modifyCurrent revised ∧
      ∀ key, (revised scope.current).find? key =
        (scope.current.find? key).map
          ((Operation.updateFunction name arity change).revise key) := by
  cases hold : scope.current.lookupFunction name arity with
  | none =>
      refine ⟨fun frame => frame, by simp [Operation.apply, hold], fun key => ?_⟩
      by_cases same : key = .ofFunction name arity
      · simp [same, Frame.find?, hold]
      · rw [revise_of_ne same, Option.map_id, id]
  | some old =>
      refine ⟨(·.setFunction name arity (change old)), ?_, fun key => ?_⟩
      · simp only [Operation.apply, hold]
        rfl
      · rw [Frame.find?_setFunction hold]
        by_cases same : key = .ofFunction name arity
        · simp [same, Frame.find?, hold, Operation.revise]
        · rw [if_neg same, revise_of_ne same, Option.map_id, id]

/-- What a definition makes of the innermost frame: it adds the binding if it is taken. -/
theorem apply_definition {own : Key × (V ⊕ F)} (hdefines : operation.definition? = some own)
    (hrevise : ∀ key old, operation.revise key old = old) :
    ∃ change, operation.apply scope = scope.modifyCurrent change ∧
      ∀ key binding, (change scope.current).find? key = some binding ↔
        (∃ old, scope.current.find? key = some old ∧ operation.revise key old = binding) ∨
          operation.definition? = some (key, binding) ∧ operation.isTaken scope = true := by
  obtain ⟨key₀, first⟩ := own
  cases htaken : operation.isTaken scope with
  | true =>
      obtain ⟨change, happly, hnone, hfind⟩ := apply_of_taken hdefines htaken
      refine ⟨change, happly, fun key binding => ?_⟩
      by_cases same : key = key₀
      · simp [hfind, same, hnone, hdefines]
      · simp [hfind, same, hrevise, hdefines, Ne.symm same]
  | false =>
      refine ⟨fun frame => frame, ?_, fun key binding => by simp [hrevise]⟩
      rw [apply_of_refused htaken, modifyCurrent_id]

/-- What an operation makes of the innermost frame when it keeps the chain: it revises the bindings
and adds what it defines. -/
theorem apply_of_level (scope : Scope V F)
    (hlevel : ∀ inside, operation.level inside = some inside) :
    ∃ change, operation.apply scope = scope.modifyCurrent change ∧
      ∀ key binding, (change scope.current).find? key = some binding ↔
        (∃ old, scope.current.find? key = some old ∧ operation.revise key old = binding) ∨
          operation.definition? = some (key, binding) ∧ operation.isTaken scope = true := by
  cases operation with
  | enter => cases hlevel 0
  | leave => cases hlevel 0
  | updateFunction name arity change =>
      obtain ⟨revised, happly, hfind⟩ := apply_update scope name arity change
      exact ⟨revised, happly, fun key binding => by simp [hfind, Operation.definition?]⟩
  | defineVariable name value => exact apply_definition rfl fun _ _ => rfl
  | defineFunction name arity value => exact apply_definition rfl fun _ _ => rfl

theorem depth_apply {depth : Nat} (hlevel : operation.level scope.depth = some depth) :
    (operation.apply scope).depth = depth := by
  have kept (hkept : ∀ inside, operation.level inside = some inside) :
      (operation.apply scope).depth = depth := by
    obtain ⟨change, happly, -⟩ := apply_of_level scope hkept
    rw [happly, depth_modifyCurrent]
    exact Option.some.inj ((hkept _).symm.trans hlevel)
  cases operation with
  | enter => exact Option.some.inj hlevel
  | leave =>
      cases scope with
      | root frame => cases hlevel
      | child frame parent => exact Option.some.inj hlevel
  | _ => exact kept fun _ => rfl

/-- What an operation makes of the frames: of each frame that stays it keeps or revises the
bindings, and to the innermost one it adds what it defines. -/
theorem holdsAt_apply (hstays : (operation.level scope.depth).isSome) {inside : Nat}
    {binding : V ⊕ F} :
    (operation.apply scope).holdsAt inside key = some binding ↔
      (∃ before old, scope.holdsAt before key = some old ∧
          operation.follow key (before, old) = some (inside, binding)) ∨
        operation.definition? = some (key, binding) ∧ operation.isTaken scope = true ∧
          inside = 0 := by
  have kept (hkept : ∀ inside, operation.level inside = some inside) :
      (operation.apply scope).holdsAt inside key = some binding ↔
        (∃ before old, scope.holdsAt before key = some old ∧
            operation.follow key (before, old) = some (inside, binding)) ∨
          operation.definition? = some (key, binding) ∧ operation.isTaken scope = true ∧
            inside = 0 := by
    obtain ⟨change, happly, hfind⟩ := apply_of_level scope hkept
    have hfollow : ∀ before old, operation.follow key (before, old) = some (inside, binding) ↔
        before = inside ∧ (if inside = 0 then operation.revise key old else old) = binding := by
      intro before old
      simp only [Operation.follow, hkept, Option.map_some, Option.some.injEq, Prod.mk.injEq]
      exact and_congr_right fun same => by rw [same]
    simp only [hfollow, happly, holdsAt_modifyCurrent]
    cases inside with
    | zero => simp [hfind, holdsAt_zero]
    | succ inside => simp
  cases operation with
  | enter =>
      cases inside <;>
        simp [Operation.apply, enter, Operation.follow, Operation.level, Operation.revise,
          Operation.definition?]
  | leave =>
      cases scope with
      | root frame => cases hstays
      | child frame parent =>
          have hfollow : ∀ before old,
              Operation.leave.follow key (before, old) = some (inside, binding) ↔
                before = inside + 1 ∧ old = binding := by
            intro before old
            cases before <;> simp [Operation.follow, Operation.level, Operation.revise]
          simp [hfollow, Operation.apply, leave, Operation.definition?]
  | _ => exact kept fun _ => rfl

/-- What a scope tells about a key that a change of the innermost frame leaves alone. -/
theorem ask_modifyCurrent {change : Frame V F → Frame V F}
    (hfind : (change scope.current).find? key = scope.current.find? key) :
    (scope.modifyCurrent change).ask key = scope.ask key := by
  cases key with
  | ofVariable name =>
      have hfound : (change scope.current).lookupVariable name =
          scope.current.lookupVariable name := Option.map_injective Sum.inl_injective hfind
      cases scope with
      | root frame => exact congrArg (Option.map _) hfound
      | child frame parent =>
          simp only [current] at hfound
          simp only [modifyCurrent, ask, lookupVariable, hfound]
  | ofFunction name arity =>
      have hfound : (change scope.current).lookupFunction name arity =
          scope.current.lookupFunction name arity :=
        Option.map_injective Sum.inr_injective hfind
      cases scope with
      | root frame =>
          simp only [current] at hfound
          simp only [modifyCurrent, ask, lookupFunction, hfound, Option.map_map]
          rfl
      | child frame parent =>
          simp only [current] at hfound
          simp only [modifyCurrent, ask, lookupFunction, hfound]
          cases frame.lookupFunction name arity <;> rfl

/-- The innermost frame answers first. -/
theorem ask_of_current {binding : V ⊕ F} (hfind : scope.current.find? key = some binding) :
    (scope.ask key).map Prod.fst = some binding := by
  cases key with
  | ofVariable name =>
      obtain ⟨value, hvalue, rfl⟩ := Option.map_eq_some_iff.mp hfind
      have hfound := lookupVariable_eq_some.mpr ⟨0, by rw [holdsAt_zero, hfind], by simp⟩
      simp [ask, hfound]
  | ofFunction name arity =>
      obtain ⟨value, hvalue, rfl⟩ := Option.map_eq_some_iff.mp hfind
      have hfound := lookupFunction_eq_some.mpr ⟨0, ⟨by rw [holdsAt_zero, hfind], by simp⟩, rfl⟩
      simp [ask, hfound]

theorem changesByKey (scope : Scope V F) : scope.ChangesByKey where
  refused := fun operation hrefused key => by rw [apply_of_refused hrefused]
  defined := by
    intro operation key binding hdefines htaken
    obtain ⟨change, happly, -, hfind⟩ := apply_of_taken hdefines htaken
    rw [happly]
    refine ⟨ask_of_current ?_, fun other hother => ask_modifyCurrent ?_⟩
    · rw [current_modifyCurrent, hfind, if_pos rfl]
    · rw [hfind, if_neg hother]
  updated := by
    intro name arity change other hother
    obtain ⟨revised, happly, hfind⟩ := apply_update scope name arity change
    rw [happly]
    refine ask_modifyCurrent ?_
    rw [hfind, revise_of_ne hother, Option.map_id, id]

/-! ## One operation more -/

variable {history : List (Operation V F)}

theorem behind_append (scope : Scope V F) (front back : List (Operation V F)) :
    scope.behind (front ++ back) = (scope.behind front).behind back :=
  List.foldl_append

theorem behind_cons (scope : Scope V F) (operation : Operation V F)
    (history : List (Operation V F)) :
    scope.behind (operation :: history) = (operation.apply scope).behind history := rfl

theorem behind_concat (scope : Scope V F) (history : List (Operation V F))
    (operation : Operation V F) :
    scope.behind (history ++ [operation]) = operation.apply (scope.behind history) :=
  behind_append scope history [operation]

theorem opened_concat {opens : Nat} :
    opened (history ++ [operation]) = some opens ↔
      ∃ before, opened history = some before ∧ operation.level before = some opens := by
  simp [opened, List.foldlM_append, Option.bind_eq_some_iff]

theorem depth_behind {opens : Nat} (hopened : opened history = some opens) :
    (empty.behind history : Scope V F).depth = opens := by
  induction history using List.reverseRecOn generalizing opens with
  | nil => exact Option.some.inj hopened
  | append_singleton history operation ih =>
      obtain ⟨before, hbefore, hlevel⟩ := opened_concat.mp hopened
      rw [behind_concat]
      exact depth_apply (by rw [ih hbefore, hlevel])

/-- The definitions that are followed to the end of a history: those that were followed so far and
whose frame stays, and the one at the end. -/
theorem bound_concat {inside : Nat} {binding : V ⊕ F} :
    Bound (history ++ [operation]) inside key binding ↔
      (∃ before old, Bound history before key old ∧
          operation.follow key (before, old) = some (inside, binding)) ∨
        operation.definition? = some (key, binding) ∧
          operation.isTaken (empty.behind history) = true ∧ inside = 0 := by
  constructor
  · rintro ⟨front, defining, first, back, hsplit, hdefines, htaken, hfollow⟩
    obtain rfl | ⟨back, last, rfl⟩ := List.eq_nil_or_concat' back
    · obtain ⟨rfl, hlast⟩ := List.append_inj' hsplit rfl
      obtain rfl := List.head_eq_of_cons_eq hlast
      obtain ⟨rfl, rfl⟩ := Prod.mk.inj (Option.some.inj hfollow)
      exact .inr ⟨hdefines, htaken, rfl⟩
    · rw [← List.cons_append, ← List.append_assoc] at hsplit
      obtain ⟨rfl, hlast⟩ := List.append_inj' hsplit rfl
      obtain rfl := List.head_eq_of_cons_eq hlast
      rw [List.foldlM_append] at hfollow
      obtain ⟨⟨before, old⟩, hold, hend⟩ := Option.bind_eq_some_iff.mp hfollow
      refine .inl ⟨before, old, ⟨front, defining, first, back, rfl, hdefines, htaken, hold⟩, ?_⟩
      simpa using hend
  · rintro (⟨before, old, ⟨front, defining, first, back, rfl, hdefines, htaken, hold⟩, hend⟩ |
      ⟨hdefines, htaken, rfl⟩)
    · refine ⟨front, defining, first, back ++ [operation], by simp, hdefines, htaken, ?_⟩
      rw [List.foldlM_append, hold]
      simpa using hend
    · exact ⟨history, operation, binding, [], rfl, hdefines, htaken, rfl⟩

/-- The frames hold the definitions that are followed to the end. -/
theorem holdsAt_behind (hopened : (opened history).isSome) {inside : Nat} {binding : V ⊕ F} :
    (empty.behind history).holdsAt inside key = some binding ↔
      Bound history inside key binding := by
  induction history using List.reverseRecOn generalizing inside binding with
  | nil =>
      constructor
      · cases inside <;> simp [behind, empty]
      · rintro ⟨front, operation, first, back, hsplit, -⟩
        simp at hsplit
  | append_singleton history operation ih =>
      obtain ⟨opens, hopens⟩ := Option.isSome_iff_exists.mp hopened
      obtain ⟨before, hbefore, hlevel⟩ := opened_concat.mp hopens
      have hstays : (operation.level (empty.behind history : Scope V F).depth).isSome := by
        rw [depth_behind hbefore, hlevel]
        rfl
      rw [behind_concat, holdsAt_apply hstays, bound_concat]
      simp only [ih (Option.isSome_of_mem hbefore)]

theorem nearest_behind (hopened : (opened history).isSome) {inside : Nat} {binding : V ⊕ F} :
    (empty.behind history).Nearest inside key binding ↔ Innermost history inside key binding := by
  refine and_congr (holdsAt_behind hopened) (forall₂_congr fun further _ => ?_)
  rw [Option.eq_none_iff_forall_not_mem]
  exact forall_congr' fun other => not_congr (holdsAt_behind hopened)

theorem answersBy (hopened : (opened history).isSome) :
    (empty.behind history).AnswersBy history where
  depth := by
    obtain ⟨opens, hopens⟩ := Option.isSome_iff_exists.mp hopened
    rw [hopens, depth_behind hopens]
  lookupVariable := fun _ _ =>
    lookupVariable_eq_some.trans (exists_congr fun _ => nearest_behind hopened)
  lookupFunction := fun _ _ _ _ =>
    lookupFunction_eq_some.trans (exists_congr fun _ => and_congr_left' (nearest_behind hopened))
  refuses := fun operation key binding hdefines => by
    rw [isTaken_eq_false hdefines, ← holdsAt_zero]
    exact exists_congr fun _ => holdsAt_behind hopened

/-! ## Dropped frames -/

theorem leave_modifyCurrent {change : Frame V F → Frame V F} {frame : Frame V F}
    {parent : Scope V F} {inside : Nat} (hleave : leave^[inside] scope = child frame parent) :
    ∃ frame', leave^[inside] (scope.modifyCurrent change) = child frame' parent := by
  cases inside with
  | zero =>
      obtain rfl : scope = child frame parent := hleave
      exact ⟨change frame, rfl⟩
  | succ inside =>
      cases scope with
      | root outermost =>
          have hfixed : leave (root outermost) = root outermost := rfl
          rw [Function.iterate_fixed hfixed] at hleave
          cases hleave
      | child inner outer => exact ⟨frame, hleave⟩

/-- Operations that keep a frame open keep what is around it. -/
theorem leave_behind {inside : Nat} (hopened : opened history = some inside) (frame : Frame V F)
    (parent : Scope V F) :
    ∃ frame', leave^[inside] ((child frame parent).behind history) = child frame' parent := by
  induction history using List.reverseRecOn generalizing inside with
  | nil =>
      obtain rfl : 0 = inside := Option.some.inj hopened
      exact ⟨frame, rfl⟩
  | append_singleton history operation ih =>
      obtain ⟨before, hbefore, hlevel⟩ := opened_concat.mp hopened
      obtain ⟨frame', hframe⟩ := ih hbefore
      have kept (hkept : ∀ inside, operation.level inside = some inside) :
          ∃ frame', leave^[inside] (operation.apply ((child frame parent).behind history)) =
            child frame' parent := by
        obtain ⟨change, happly, -⟩ := apply_of_level ((child frame parent).behind history) hkept
        obtain rfl : before = inside := Option.some.inj ((hkept _).symm.trans hlevel)
        rw [happly]
        exact leave_modifyCurrent hframe
      rw [behind_concat]
      cases operation with
      | enter =>
          obtain rfl : before + 1 = inside := Option.some.inj hlevel
          exact ⟨frame', hframe⟩
      | leave =>
          cases before with
          | zero => cases hlevel
          | succ before =>
              obtain rfl : before = inside := Option.some.inj hlevel
              exact ⟨frame', hframe⟩
      | _ => exact kept fun _ => rfl

theorem behind_excursion (scope : Scope V F) {inside : List (Operation V F)}
    (hopened : opened inside = some 0) :
    scope.behind (.enter :: inside ++ [.leave]) = scope := by
  obtain ⟨frame', hframe⟩ := leave_behind hopened Frame.empty scope
  rw [behind_concat, behind_cons]
  exact congrArg leave hframe

/-- A scope answers by its history: its depth is the number of frames left open, a name gets the
binding that was defined and taken in the innermost frame left open that has one, with the changes
made to it in place, a function comes with the scope that holds it, and a definition is refused when
its key is bound in the innermost frame. What is refused changes no answer, what is taken changes
the answer to its own key, and behind an inner frame the scope is the one it was before. -/
theorem answers_by_history {history : List (Operation V F)} (hopened : (opened history).isSome) :
    (empty.behind history).AnswersBy history ∧ (empty.behind history).ChangesByKey ∧
      ∀ inside, opened inside = some 0 →
        empty.behind (history ++ .enter :: inside ++ [.leave]) = empty.behind history := by
  refine ⟨answersBy hopened, changesByKey _, fun inside hinside => ?_⟩
  rw [List.append_assoc, behind_append]
  exact behind_excursion _ hinside

/-- A variable and a function are defined again in an inner frame: there the second definition of
the variable is taken and the third is refused, and the function of one parameter is changed. -/
def redefinitions : List (Operation Nat Nat) :=
  [.defineVariable "x" 1, .defineFunction "f" 0 10, .enter, .defineVariable "x" 2,
    .defineVariable "x" 3, .defineFunction "f" 1 20, .updateFunction "f" 1 (· + 1)]

theorem answers_by_history_redefinitions :
    opened redefinitions = some 1 ∧ (empty.behind redefinitions).AnswersBy redefinitions ∧
      (empty.behind redefinitions).ChangesByKey ∧
      (empty.behind redefinitions).ask (.ofVariable "x") = some (.inl 2, none) ∧
      (empty.behind redefinitions).ask (.ofFunction "f" 0) = some (.inr 10, some 0) ∧
      (empty.behind redefinitions).ask (.ofFunction "f" 1) = some (.inr 21, some 1) ∧
      empty.behind (redefinitions ++ .enter :: [.defineVariable "x" 4] ++ [.leave]) =
        empty.behind redefinitions := by
  have hopened : opened redefinitions = some 1 := rfl
  obtain ⟨answers, changes, dropped⟩ := answers_by_history (Option.isSome_of_mem hopened)
  exact ⟨hopened, answers, changes, rfl, rfl, rfl, dropped [.defineVariable "x" 4] rfl⟩

end Scope

end TinyScript
