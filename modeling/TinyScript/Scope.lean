/-!
# Chains of frames

A frame binds variable names to `V` and pairs of a name and an arity to `F`; the two name spaces
do not meet. A `Scope` is a frame with the frames around it, innermost first. The checker keeps
types and signatures in scopes, a run keeps values and callables; looking a name up is the same
for both: the innermost frame that binds it answers.

A scope is a value. What happens to the frames around a call is put back into the caller's chain
by `regrow`, which replaces the outer part of a chain and keeps the frames inside it.
-/

namespace TinyScript

/-! ## Entries -/

/-- Replaces the value of a key in a list of entries. Nothing changes when the key is absent. -/
def replaceEntry {κ α : Type} [BEq κ] (key : κ) (value : α) : List (κ × α) → List (κ × α)
  | [] => []
  | (k, v) :: entries =>
    if key == k then (k, value) :: entries else (k, v) :: replaceEntry key value entries

theorem lookup_entry_cons {κ α : Type} [DecidableEq κ] [BEq κ] [LawfulBEq κ] (key other : κ)
    (value : α) (entries : List (κ × α)) :
    ((key, value) :: entries).lookup other =
      if other = key then some value else entries.lookup other := by
  by_cases same : other = key
  · simp [same]
  · simp [List.lookup_cons, same, beq_eq_false_iff_ne.mpr same]

theorem lookup_replaceEntry {κ α : Type} [BEq κ] [LawfulBEq κ] (key other : κ) (value : α)
    (entries : List (κ × α)) :
    (replaceEntry key value entries).lookup other =
      if other == key then (entries.lookup key).map fun _ => value else entries.lookup other := by
  induction entries with
  | nil => simp [replaceEntry]
  | cons entry entries ih =>
    obtain ⟨k, v⟩ := entry
    by_cases same : key = k <;> by_cases asked : other = key <;> by_cases here : other = k <;>
      simp_all [replaceEntry, List.lookup_cons, beq_eq_false_iff_ne.mpr]

/-! ## Frames -/

/-- The bindings of one block or call. -/
structure Frame (V F : Type) where
  vars : List (String × V)
  funs : List ((String × Nat) × F)

namespace Frame

variable {V F : Type}

/-- The frame without bindings. -/
def empty : Frame V F := ⟨[], []⟩

/-- The binding of a variable. -/
def lookupVariable (frame : Frame V F) (name : String) : Option V := frame.vars.lookup name

/-- The binding of a function. -/
def lookupFunction (frame : Frame V F) (name : String) (arity : Nat) : Option F :=
  frame.funs.lookup (name, arity)

/-- Adds a variable. -/
def addVariable (frame : Frame V F) (name : String) (binding : V) : Frame V F :=
  { frame with vars := (name, binding) :: frame.vars }

/-- Adds a function. -/
def addFunction (frame : Frame V F) (name : String) (arity : Nat) (binding : F) : Frame V F :=
  { frame with funs := ((name, arity), binding) :: frame.funs }

/-- Rebinds a variable of this frame. -/
def setVariable (frame : Frame V F) (name : String) (binding : V) : Frame V F :=
  { frame with vars := replaceEntry name binding frame.vars }

/-- Rebinds a function of this frame. -/
def setFunction (frame : Frame V F) (name : String) (arity : Nat) (binding : F) : Frame V F :=
  { frame with funs := replaceEntry (name, arity) binding frame.funs }

@[simp] theorem lookupVariable_empty (name : String) :
    (empty : Frame V F).lookupVariable name = none := rfl

@[simp] theorem lookupFunction_empty (name : String) (arity : Nat) :
    (empty : Frame V F).lookupFunction name arity = none := rfl

@[simp] theorem lookupVariable_addVariable (frame : Frame V F) (name other : String) (binding : V) :
    (frame.addVariable name binding).lookupVariable other =
      if other = name then some binding else frame.lookupVariable other := by
  simp [lookupVariable, addVariable, lookup_entry_cons]

@[simp] theorem lookupFunction_addFunction (frame : Frame V F) (name other : String)
    (arity asked : Nat) (binding : F) :
    (frame.addFunction name arity binding).lookupFunction other asked =
      if other = name ∧ asked = arity then some binding else frame.lookupFunction other asked := by
  simp [lookupFunction, addFunction, lookup_entry_cons]

@[simp] theorem lookupFunction_addVariable (frame : Frame V F) (name other : String) (arity : Nat)
    (binding : V) :
    (frame.addVariable name binding).lookupFunction other arity =
      frame.lookupFunction other arity := rfl

@[simp] theorem lookupVariable_addFunction (frame : Frame V F) (name other : String) (arity : Nat)
    (binding : F) :
    (frame.addFunction name arity binding).lookupVariable other =
      frame.lookupVariable other := rfl

end Frame

/-! ## Scopes -/

/-- A frame and the frames around it. -/
inductive Scope (V F : Type) where
  | root (frame : Frame V F)
  | child (frame : Frame V F) (parent : Scope V F)

namespace Scope

variable {V F : Type}

/-- The scope of one frame without bindings. -/
def empty : Scope V F := root Frame.empty

/-- A fresh frame inside a scope. -/
def enter (scope : Scope V F) : Scope V F := child Frame.empty scope

/-- The scope around the innermost frame. The outermost frame has none around it and stays. -/
def leave : Scope V F → Scope V F
  | root frame => root frame
  | child _ parent => parent

/-- The number of frames around the innermost one. -/
def depth : Scope V F → Nat
  | root _ => 0
  | child _ parent => parent.depth + 1

/-- The innermost frame. -/
def current : Scope V F → Frame V F
  | root frame => frame
  | child frame _ => frame

/-- Changes the innermost frame. -/
def modifyCurrent (change : Frame V F → Frame V F) : Scope V F → Scope V F
  | root frame => root (change frame)
  | child frame parent => child (change frame) parent

/-- The innermost binding of a variable. -/
def lookupVariable : Scope V F → String → Option V
  | root frame, name => frame.lookupVariable name
  | child frame parent, name =>
    match frame.lookupVariable name with
    | some binding => some binding
    | none => parent.lookupVariable name

/-- The innermost binding of a function, with the scope whose innermost frame holds it. -/
def lookupFunction : Scope V F → String → Nat → Option (F × Scope V F)
  | root frame, name, arity => (frame.lookupFunction name arity).map (·, root frame)
  | child frame parent, name, arity =>
    match frame.lookupFunction name arity with
    | some binding => some (binding, child frame parent)
    | none => parent.lookupFunction name arity

/-- Binds a variable in the innermost frame, unless that frame binds it already. -/
def defineVariable? (scope : Scope V F) (name : String) (binding : V) : Option (Scope V F) :=
  match scope.current.lookupVariable name with
  | some _ => none
  | none => some (scope.modifyCurrent (·.addVariable name binding))

/-- Binds a function in the innermost frame, unless that frame binds it already. -/
def defineFunction? (scope : Scope V F) (name : String) (arity : Nat) (binding : F) :
    Option (Scope V F) :=
  match scope.current.lookupFunction name arity with
  | some _ => none
  | none => some (scope.modifyCurrent (·.addFunction name arity binding))

/-- Rebinds a function of the innermost frame. -/
def setFunction (scope : Scope V F) (name : String) (arity : Nat) (binding : F) : Scope V F :=
  scope.modifyCurrent (·.setFunction name arity binding)

/-- Rebinds a variable in the innermost frame that binds it. -/
def setVariable : Scope V F → String → V → Scope V F
  | root frame, name, binding => root (frame.setVariable name binding)
  | child frame parent, name, binding =>
    match frame.lookupVariable name with
    | some _ => child (frame.setVariable name binding) parent
    | none => child frame (parent.setVariable name binding)

/-- Puts a scope in the place of the outer part of a chain that is as deep as it. -/
def regrow (scope outer : Scope V F) : Scope V F :=
  match scope with
  | root _ => outer
  | child frame parent =>
    -- A frame stays only when it is deeper than everything that takes the outer part's place.
    if parent.depth < outer.depth then outer else child frame (parent.regrow outer)

@[simp] theorem leave_enter (scope : Scope V F) : scope.enter.leave = scope := rfl

@[simp] theorem depth_enter (scope : Scope V F) : scope.enter.depth = scope.depth + 1 := rfl

@[simp] theorem lookupVariable_enter (scope : Scope V F) (name : String) :
    scope.enter.lookupVariable name = scope.lookupVariable name := rfl

@[simp] theorem lookupFunction_enter (scope : Scope V F) (name : String) (arity : Nat) :
    scope.enter.lookupFunction name arity = scope.lookupFunction name arity := rfl

@[simp] theorem depth_modifyCurrent (change : Frame V F → Frame V F) (scope : Scope V F) :
    (scope.modifyCurrent change).depth = scope.depth := by
  cases scope <;> rfl

@[simp] theorem depth_setVariable (scope : Scope V F) (name : String) (binding : V) :
    (scope.setVariable name binding).depth = scope.depth := by
  induction scope with
  | root frame => rfl
  | child frame parent ih =>
    simp only [setVariable]
    split <;> simp [depth, ih]

end Scope

end TinyScript
