import TinyScript.Run.Evaluate
import TinyScript.Typing.Statement

/-!
# Taking computations apart

Runs and checks are sequences of steps that may fail. The lemmas here say of each way to put steps
together what the steps have done when the whole has ended well (`_eq_ok`) or badly (`_eq_error`),
so that no later proof has to open a sequence by itself.
-/

namespace TinyScript

/-! ## Steps on a state -/

section State

variable {ε σ α β : Type}

theorem bind_eq_ok {x : EStateM ε σ α} {f : α → EStateM ε σ β} {s s' : σ} {b : β} :
    (x >>= f) s = .ok b s' ↔ ∃ a s₁, x s = .ok a s₁ ∧ f a s₁ = .ok b s' := by
  show EStateM.bind x f s = _ ↔ _
  unfold EStateM.bind
  cases x s with
  | ok a s₁ => exact ⟨fun h => ⟨a, s₁, rfl, h⟩, fun ⟨_, _, rfl, h⟩ => h⟩
  | error e s₁ => simp

theorem bind_eq_error {x : EStateM ε σ α} {f : α → EStateM ε σ β} {s s' : σ} {e : ε} :
    (x >>= f) s = .error e s' ↔
      x s = .error e s' ∨ ∃ a s₁, x s = .ok a s₁ ∧ f a s₁ = .error e s' := by
  show EStateM.bind x f s = _ ↔ _
  unfold EStateM.bind
  cases x s with
  | ok a s₁ =>
      refine ⟨fun h => .inr ⟨a, s₁, rfl, h⟩, ?_⟩
      rintro (h | ⟨_, _, h, rest⟩)
      · cases h
      · cases h
        exact rest
  | error e s₁ => simp

/-- A sequence whose first step has ended well goes on with the second one. -/
theorem bind_of_ok {x : EStateM ε σ α} {f : α → EStateM ε σ β} {s s₁ : σ} {a : α}
    (h : x s = .ok a s₁) : (x >>= f) s = f a s₁ := by
  show EStateM.bind x f s = _
  unfold EStateM.bind
  rw [h]

theorem map_eq_ok {x : EStateM ε σ α} {f : α → β} {s s' : σ} {b : β} :
    (f <$> x) s = .ok b s' ↔ ∃ a, x s = .ok a s' ∧ f a = b := by
  show EStateM.map f x s = _ ↔ _
  unfold EStateM.map
  cases x s with
  | ok a s₁ =>
      constructor
      · intro h
        cases h
        exact ⟨a, rfl, rfl⟩
      · rintro ⟨_, h, rfl⟩
        cases h
        rfl
  | error e s₁ => simp

theorem map_eq_error {x : EStateM ε σ α} {f : α → β} {s s' : σ} {e : ε} :
    (f <$> x) s = .error e s' ↔ x s = .error e s' := by
  show EStateM.map f x s = _ ↔ _
  unfold EStateM.map
  cases x s <;> simp

theorem pure_eq_ok {a b : α} {s s' : σ} :
    (pure a : EStateM ε σ α) s = .ok b s' ↔ a = b ∧ s = s' := by
  show EStateM.Result.ok a s = _ ↔ _
  simp

theorem pure_ne_error {a : α} {s s' : σ} {e : ε} :
    ¬ (pure a : EStateM ε σ α) s = .error e s' := by
  show ¬ EStateM.Result.ok a s = _
  simp

end State

/-! ## Steps without a state -/

section Except

variable {ε α β : Type}

theorem Except.bind_eq_ok {x : Except ε α} {f : α → Except ε β} {b : β} :
    (x >>= f) = .ok b ↔ ∃ a, x = .ok a ∧ f a = .ok b := by
  cases x with
  | ok a =>
      refine ⟨fun h => ⟨a, rfl, h⟩, ?_⟩
      rintro ⟨_, h, rest⟩
      cases h
      exact rest
  | error e =>
      constructor
      · intro h
        cases h
      · rintro ⟨_, h, _⟩
        cases h

theorem Except.pure_eq_ok {a b : α} : (pure a : Except ε α) = .ok b ↔ a = b := by
  show Except.ok a = _ ↔ _
  simp

theorem Except.map_eq_ok {f : α → β} {x : Except ε α} {b : β} :
    x.map f = .ok b ↔ ∃ a, x = .ok a ∧ f a = b := by
  cases x <;> simp [Except.map]

theorem Except.map_eq_error {f : α → β} {x : Except ε α} {e : ε} :
    x.map f = .error e ↔ x = .error e := by
  cases x <;> simp [Except.map]

theorem Except.mapError_eq_ok {ε' : Type} {f : ε → ε'} {x : Except ε α} {a : α} :
    x.mapError f = .ok a ↔ x = .ok a := by
  cases x with
  | ok value =>
      constructor
      · intro h
        cases h
        rfl
      · intro h
        cases h
        rfl
  | error error =>
      constructor
      · intro h
        cases h
      · intro h
        cases h

theorem Except.mapError_eq_error {ε' : Type} {f : ε → ε'} {x : Except ε α} {e' : ε'} :
    x.mapError f = .error e' ↔ ∃ e, x = .error e ∧ f e = e' := by
  cases x with
  | ok value =>
      constructor
      · intro h
        cases h
      · rintro ⟨e, h, -⟩
        cases h
  | error e =>
      constructor
      · intro h
        cases h
        exact ⟨e, rfl, rfl⟩
      · rintro ⟨_, h, rfl⟩
        cases h
        rfl

end Except

/-! ## Runs -/

namespace Run

variable {α : Type} {m m' : Machine}

theorem ofExcept_eq_ok {result : Except RuntimeError α} {a : α} :
    ofExcept result m = .ok a m' ↔ result = .ok a ∧ m = m' := by
  cases result <;> simp [ofExcept, fail]

theorem ofExcept_eq_error {result : Except RuntimeError α} {halt : Halt} :
    ofExcept result m = .error halt m' ↔
      ∃ error, result = .error error ∧ halt = .failed error ∧ m = m' := by
  cases result <;> simp [ofExcept, fail, eq_comm]

theorem fail_ne_ok {error : RuntimeError} {a : α} : ¬ fail error m = .ok a m' := by
  simp [fail]

theorem fail_eq_error {error : RuntimeError} {halt : Halt} :
    (fail error : Run α) m = .error halt m' ↔ halt = .failed error ∧ m = m' := by
  simp [fail, eq_comm]

theorem variableNamed_eq_ok {name : String} {found : Variable} :
    variableNamed name m = .ok found m' ↔ m.scope.lookupVariable name = some found ∧ m = m' := by
  unfold variableNamed
  cases h : m.scope.lookupVariable name <;> simp [fail]

theorem variableNamed_eq_error {name : String} {halt : Halt} :
    variableNamed name m = .error halt m' ↔
      m.scope.lookupVariable name = none ∧ halt = .failed (.undeclared name) ∧ m = m' := by
  unfold variableNamed
  cases h : m.scope.lookupVariable name <;> simp [fail, eq_comm]

theorem receiver_eq_ok {name : String} {found : Variable} :
    receiver name m = .ok found m' ↔
      m.scope.lookupVariable name = some found ∧ found.isMutable = true ∧ m = m' := by
  unfold receiver
  rw [bind_eq_ok]
  constructor
  · rintro ⟨found', _, h, h'⟩
    obtain ⟨hfound, rfl⟩ := variableNamed_eq_ok.mp h
    split at h'
    · next hmutable =>
        obtain ⟨rfl, rfl⟩ := pure_eq_ok.mp h'
        exact ⟨hfound, hmutable, rfl⟩
    · exact absurd h' fail_ne_ok
  · rintro ⟨hfound, hmutable, rfl⟩
    exact ⟨found, m, variableNamed_eq_ok.mpr ⟨hfound, rfl⟩, by simp [hmutable, pure_eq_ok]⟩

theorem receiver_eq_error {name : String} {halt : Halt} :
    receiver name m = .error halt m' ↔
      (m.scope.lookupVariable name = none ∧ halt = .failed (.undeclared name) ∧ m = m') ∨
        ∃ found, m.scope.lookupVariable name = some found ∧ found.isMutable = false ∧
          halt = .failed (.immutableReceiver name) ∧ m = m' := by
  unfold receiver
  rw [bind_eq_error, variableNamed_eq_error]
  refine or_congr_right ⟨?_, ?_⟩
  · rintro ⟨found, _, h, h'⟩
    obtain ⟨hfound, rfl⟩ := variableNamed_eq_ok.mp h
    split at h'
    · exact absurd h' pure_ne_error
    · next hmutable =>
        obtain ⟨rfl, rfl⟩ := fail_eq_error.mp h'
        exact ⟨found, hfound, by simpa using hmutable, rfl, rfl⟩
  · rintro ⟨found, hfound, hmutable, rfl, rfl⟩
    exact ⟨found, m, variableNamed_eq_ok.mpr ⟨hfound, rfl⟩, by simp [hmutable, fail]⟩

theorem define_eq_ok {name : String} {isMutable : Bool} {value : Value} {u : Unit} :
    define name isMutable value m = .ok u m' ↔
      ∃ scope, m.scope.defineVariable? name ⟨isMutable, value⟩ = some scope ∧
        m' = { m with scope } := by
  unfold define
  cases h : m.scope.defineVariable? name ⟨isMutable, value⟩ <;> simp [fail, eq_comm]

theorem define_eq_error {name : String} {isMutable : Bool} {value : Value} {halt : Halt} :
    define name isMutable value m = .error halt m' ↔
      m.scope.defineVariable? name ⟨isMutable, value⟩ = none ∧
        halt = .failed (.variableRedefined name) ∧ m = m' := by
  unfold define
  cases h : m.scope.defineVariable? name ⟨isMutable, value⟩ <;> simp [fail, eq_comm]

theorem operate_eq_ok {settings : RunSettings} {operator : Operator} {a b c : Value} :
    operate settings operator a b m = .ok c m' ↔
      operator.overflows a b = false ∧
        operator.apply settings.negativeExponent m.lists.text a b = .ok c ∧ m = m' := by
  unfold operate
  cases operator.overflows a b <;> simp [ofExcept_eq_ok]

theorem operate_eq_error {settings : RunSettings} {operator : Operator} {a b : Value}
    {halt : Halt} :
    operate settings operator a b m = .error halt m' ↔
      (operator.overflows a b = true ∧ halt = .scaleOverflow ∧ m = m') ∨
        (operator.overflows a b = false ∧
          ∃ error, operator.apply settings.negativeExponent m.lists.text a b = .error error ∧
            halt = .failed error ∧ m = m') := by
  unfold operate
  cases operator.overflows a b with
  | true => simp [eq_comm]
  | false => simp [ofExcept_eq_error]

end Run

/-! ## Checks -/

namespace Typing

section Trees

variable {Part Whole Tree α : Type}

theorem within_eq_ok {rebuild : Part → Whole} {checked : Except (Fault Part) α} {a : α} :
    within rebuild checked = .ok a ↔ checked = .ok a :=
  Except.mapError_eq_ok

theorem demand_eq_ok {tree : Tree} {result : Except TypeError α} {a : α} :
    demand tree result = .ok a ↔ result = .ok a :=
  Except.mapError_eq_ok

theorem requireExact_eq_ok {expected received : Ty} {u : Unit} :
    requireExact expected received = .ok u ↔ expected = received := by
  unfold requireExact
  split <;> simp_all

theorem requireAssignable_eq_ok {target source : Ty} {u : Unit} :
    requireAssignable target source = .ok u ↔ isAssignable target source = true := by
  unfold requireAssignable
  split <;> simp_all

end Trees

namespace Check

variable {Part Whole Tree α : Type} {c c' : Context}

theorem expression_eq_ok {settings : Settings} {rebuild : Expression → Tree}
    {expression expression' : Expression} {ty : Ty} :
    Check.expression settings rebuild expression c = .ok (expression', ty) c' ↔
      annotateExpression settings c.scope expression = .ok (expression', ty) ∧ c = c' := by
  unfold Check.expression
  cases annotateExpression settings c.scope expression <;> simp

theorem part_eq_ok {rebuild : Part → Whole} {check : Check Part α} {a : α} :
    Check.part rebuild check c = .ok a c' ↔ check c = .ok a c' := by
  unfold Check.part
  cases check c <;> simp

theorem require_eq_ok {tree : Tree} {result : Except TypeError α} {a : α} :
    Check.require tree result c = .ok a c' ↔ result = .ok a ∧ c = c' := by
  unfold Check.require
  cases result <;> simp

theorem define_eq_ok {tree : Tree} {binding : VariableBinding} {u : Unit} :
    Check.define tree binding c = .ok u c' ↔
      ∃ scope, c.scope.defineVariable? binding.name binding = some scope ∧
        c' = { c with scope } := by
  unfold Check.define
  cases c.scope.defineVariable? binding.name binding <;> simp [eq_comm]

end Check

end Typing

end TinyScript
