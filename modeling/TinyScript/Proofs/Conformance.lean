import TinyScript.Proofs.Sequencing
import TinyScript.Run.Operator

/-!
# Values and static types

A value conforms to a static type when the checker's view of it is right, up to nil: nil conforms
to every type, since declared variables start with it and functions without a result return it.
What operators compute from conforming operands conforms to the type that the checker gives to the
result, and where they compute nothing for want of suitable kinds, one operand is nil.
-/

namespace TinyScript

open Typing

/-! ## Conformance -/

namespace Value

/-- A value is as its static type says, or nil. -/
def Conforms (value : Value) (ty : Ty) : Prop :=
  value = nil ∨ ty = .any ∨ ty = .comparable ∧ value.kind.isComparable = true ∨ value.kind = ty

instance (value : Value) (ty : Ty) : Decidable (value.Conforms ty) := by
  unfold Conforms
  infer_instance

variable {value : Value} {ty : Ty}

@[simp] theorem conforms_nil (ty : Ty) : Conforms nil ty := .inl rfl

@[simp] theorem conforms_any (value : Value) : value.Conforms .any := .inr (.inl rfl)

theorem conforms_kind (value : Value) : value.Conforms value.kind := .inr (.inr (.inr rfl))

/-- A value may stand wherever its type may. -/
theorem Conforms.of_isAssignable {target : Ty} (h : value.Conforms ty)
    (hassignable : isAssignable target ty = true) : value.Conforms target := by
  simp only [isAssignable, Bool.or_eq_true, Bool.and_eq_true, decide_eq_true_eq] at hassignable
  rcases hassignable with (rfl | rfl) | ⟨rfl, hcomparable⟩
  · exact h
  · exact conforms_any value
  rcases h with rfl | rfl | ⟨rfl, -⟩ | rfl
  · exact conforms_nil _
  · cases hcomparable
  · cases hcomparable
  · exact .inr (.inr (.inl ⟨rfl, hcomparable⟩))

/-- A value of a type that stands for one kind is nil or of that kind. -/
theorem Conforms.nil_or_kind (h : value.Conforms ty) (hany : ty ≠ .any)
    (hcomparable : ty ≠ .comparable) : value = nil ∨ value.kind = ty := by
  rcases h with h | h | ⟨h, -⟩ | h
  · exact .inl h
  · exact absurd h hany
  · exact absurd h hcomparable
  · exact .inr h

theorem Conforms.boolean (h : value.Conforms .boolean) :
    value = nil ∨ ∃ truth, value = .boolean truth := by
  rcases h.nil_or_kind (by decide) (by decide) with hnil | hkind
  · exact .inl hnil
  · cases value <;> first | exact .inr ⟨_, rfl⟩ | cases hkind

theorem Conforms.integer (h : value.Conforms .integer) : value = nil ∨ ∃ n, value = .integer n := by
  rcases h.nil_or_kind (by decide) (by decide) with hnil | hkind
  · exact .inl hnil
  · cases value <;> first | exact .inr ⟨_, rfl⟩ | cases hkind

theorem Conforms.decimal (h : value.Conforms .decimal) : value = nil ∨ ∃ d, value = .decimal d := by
  rcases h.nil_or_kind (by decide) (by decide) with hnil | hkind
  · exact .inl hnil
  · cases value <;> first | exact .inr ⟨_, rfl⟩ | cases hkind

theorem Conforms.string (h : value.Conforms .string) : value = nil ∨ ∃ s, value = .string s := by
  rcases h.nil_or_kind (by decide) (by decide) with hnil | hkind
  · exact .inl hnil
  · cases value <;> first | exact .inr ⟨_, rfl⟩ | cases hkind

theorem conforms_ofLiteral {literal : Literal} (h : literalType literal = .ok ty) :
    (ofLiteral literal).Conforms ty := by
  cases literal with
  | integer n =>
      simp only [literalType] at h
      split at h
      · cases h
        exact conforms_kind _
      · cases h
  | decimal d =>
      simp only [literalType] at h
      split at h
      · cases h
        exact conforms_kind _
      · cases h
  | _ =>
      cases h
      exact conforms_kind _

/-! ## Demands on values -/

theorem truth_eq_error {error : RuntimeError} (h : value.truth = .error error) :
    error = .notBoolean value.kind := by
  cases value <;> cases h <;> rfl

theorem slot_eq_error {name : String} {length : Nat} {error : RuntimeError}
    (h : value.slot name length = .error error) :
    (∃ index, error = .indexOutOfRange index name length) ∨
      (∀ n, value ≠ .integer n) ∧ error = .indexNotInteger value.kind := by
  cases value with
  | integer index =>
      simp only [slot] at h
      split at h
      · cases h
      · cases h
        exact .inl ⟨index, rfl⟩
  | _ =>
      cases h
      exact .inr ⟨by simp, rfl⟩

theorem listOf_eq_error {name : String} {error : RuntimeError}
    (h : value.listOf name = .error error) : error = .notIndexable name value.kind := by
  cases value <;> cases h <;> rfl

theorem order_eq_error {other : Value} {error : RuntimeError}
    (h : value.order other = .error error) : error = .incomparable value.kind other.kind := by
  unfold order at h
  split at h
  · cases h
  · cases h
    rfl

end Value

/-! ## Operators -/

namespace Operator

/-- How arithmetic ends on operands that are nil or numbers of the types that the checker wants:
with a number of the type of the left one, with an arithmetic error, or without a result because
an operand is nil. -/
inductive Computes (ty : Ty) : Except RuntimeError Value → Prop
  | value {c} : c.Conforms ty → Computes ty (.ok c)
  | arithmetic {reason} : Computes ty (.error (.arithmetic reason))
  | nil {verb left right} :
      left = .nil ∨ right = .nil → Computes ty (.error (.noResult verb left right))

theorem computes_mapped {α : Type} {make : α → Value} {ty : Ty}
    (hmake : ∀ x, (make x).Conforms ty) (result : Except ArithmeticError α) :
    Computes ty ((result.map make).mapError RuntimeError.arithmetic) := by
  cases result with
  | ok x => exact .value (hmake x)
  | error reason => exact .arithmetic

variable {negative : NegativeExponent} {operator : Operator} {a b : Value}

theorem computes_integers (ha : a.Conforms .integer) (hb : b.Conforms .integer) :
    Computes .integer (operator.applyNumbers negative a b) := by
  rcases ha.integer with rfl | ⟨n, rfl⟩
  · exact .nil (.inl rfl)
  rcases hb.integer with rfl | ⟨k, rfl⟩
  · exact .nil (.inr rfl)
  · exact computes_mapped (fun n => Value.conforms_kind (.integer n)) _

theorem computes_decimals (ha : a.Conforms .decimal) (hb : b.Conforms .decimal)
    (hoperator : ∀ x y, (operator.applyDecimals x y).isSome) :
    Computes .decimal (operator.applyNumbers negative a b) := by
  rcases ha.decimal with rfl | ⟨x, rfl⟩
  · exact .nil (.inl rfl)
  rcases hb.decimal with rfl | ⟨y, rfl⟩
  · exact .nil (.inr rfl)
  obtain ⟨result, hresult⟩ := Option.isSome_iff_exists.mp (hoperator x y)
  simp only [applyNumbers, hresult]
  exact computes_mapped (fun d => Value.conforms_kind (.decimal d)) _

theorem computes_decimalPower (ha : a.Conforms .decimal) (hb : b.Conforms .integer) :
    Computes .decimal (power.applyNumbers negative a b) := by
  rcases ha.decimal with rfl | ⟨x, rfl⟩
  · exact .nil (.inl rfl)
  rcases hb.integer with rfl | ⟨n, rfl⟩
  · exact .nil (.inr rfl)
  · exact computes_mapped (fun d => Value.conforms_kind (.decimal d)) _

theorem arithmeticType_eq_ok {left right ty : Ty} (h : arithmeticType left right = .ok ty) :
    (left = .integer ∨ left = .decimal) ∧ right = left ∧ ty = left := by
  cases left <;> cases right <;> cases h <;> simp

theorem computes_of_arithmeticType {left right ty : Ty} (h : arithmeticType left right = .ok ty)
    (ha : a.Conforms left) (hb : b.Conforms right)
    (hoperator : ∀ x y, (operator.applyDecimals x y).isSome) :
    Computes ty (operator.applyNumbers negative a b) := by
  obtain ⟨rfl | rfl, rfl, rfl⟩ := arithmeticType_eq_ok h
  · exact computes_integers ha hb
  · exact computes_decimals ha hb hoperator

/-- Joining wants a string on one side at run time; without one, both operands are nil or one of
them is, whatever the other is. -/
theorem computes_joined {left right : Ty} (h : left = .string ∨ right = .string)
    (ha : a.Conforms left) (hb : b.Conforms right) (hastring : isString a = false)
    (hbstring : isString b = false) : Computes .string (add.applyNumbers negative a b) := by
  rcases h with rfl | rfl
  · rcases ha.string with rfl | ⟨s, rfl⟩
    · exact .nil (.inl rfl)
    · cases hastring
  · rcases hb.string with rfl | ⟨s, rfl⟩
    · cases a <;> exact .nil (.inr rfl)
    · cases hbstring

/-- What an operator computes from conforming operands. Comparisons may also meet values of two
kinds, or nil. -/
theorem computes_of_operatorType (negative : NegativeExponent) (text : Value → String)
    {left right ty : Ty} (h : operatorType operator left right = .ok ty)
    (hlogical : operator.isLogical = false)
    (ha : a.Conforms left) (hb : b.Conforms right) :
    Computes ty (operator.apply negative text a b) ∨
      operator.apply negative text a b = .error (.incomparable a.kind b.kind) := by
  have comparison : ∀ (holds : Ordering → Bool), requireAssignable .comparable left >>=
      (fun _ => requireAssignable .comparable right >>= fun _ => pure Ty.boolean) = .ok ty →
      Computes ty ((a.order b).map fun order => .boolean (holds order)) ∨
        ((a.order b).map fun order => Value.boolean (holds order)) =
          .error (.incomparable a.kind b.kind) := by
    intro holds h
    simp only [Except.bind_eq_ok, Except.pure_eq_ok] at h
    obtain ⟨_, -, _, -, rfl⟩ := h
    cases horder : a.order b with
    | ok order => exact .inl (.value (Value.conforms_kind (.boolean (holds order))))
    | error error =>
        rw [Value.order_eq_error horder]
        exact .inr rfl
  cases operator with
  | and => cases hlogical
  | or => cases hlogical
  | less => exact comparison _ h
  | greater => exact comparison _ h
  | equal => exact comparison _ h
  | notEqual => exact comparison _ h
  | add =>
      refine .inl ?_
      simp only [operatorType] at h
      simp only [apply]
      split at h
      · next hstring =>
          cases h
          split
          · exact .value (Value.conforms_kind (.string _))
          · next hnone =>
              simp only [Bool.or_eq_true, not_or, Bool.not_eq_true] at hnone
              exact computes_joined hstring ha hb hnone.1 hnone.2
      · -- Neither type is that of strings, so on conforming operands `+` is plain arithmetic.
        have hcomputes : Computes ty (add.applyNumbers negative a b) :=
          computes_of_arithmeticType h ha hb fun _ _ => rfl
        obtain ⟨rfl | rfl, rfl, rfl⟩ := arithmeticType_eq_ok h
        · rcases ha.integer with rfl | ⟨_, rfl⟩ <;> rcases hb.integer with rfl | ⟨_, rfl⟩ <;>
            exact hcomputes
        · rcases ha.decimal with rfl | ⟨_, rfl⟩ <;> rcases hb.decimal with rfl | ⟨_, rfl⟩ <;>
            exact hcomputes
  | subtract => exact .inl (computes_of_arithmeticType h ha hb fun _ _ => rfl)
  | multiply => exact .inl (computes_of_arithmeticType h ha hb fun _ _ => rfl)
  | divide => exact .inl (computes_of_arithmeticType h ha hb fun _ _ => rfl)
  | power =>
      refine .inl ?_
      simp only [operatorType, Except.bind_eq_ok, requireExact_eq_ok, Except.pure_eq_ok] at h
      obtain ⟨_, hnumeric, _, rfl, rfl⟩ := h
      cases left <;> try cases hnumeric
      · exact computes_integers ha hb
      · exact computes_decimalPower ha hb

theorem applyNumbers_ne_list {c : Value} (h : operator.applyNumbers negative a b = .ok c)
    (id : ListId) : c ≠ .list id := by
  unfold applyNumbers at h
  split at h
  · next x y =>
      cases hresult : applyIntegers negative operator x y <;> rw [hresult] at h <;> cases h
      simp
  · next x y =>
      cases hresult : operator.applyDecimals x y with
      | none =>
          rw [hresult] at h
          cases h
      | some result =>
          rw [hresult] at h
          cases result <;> cases h
          simp
  · next x n =>
      split at h
      · cases hresult : Arithmetic.decimalPower x n <;> rw [hresult] at h <;> cases h
        simp
      · cases h
  · cases h

/-- No operator makes a list. -/
theorem apply_ne_list {text : Value → String} {c : Value}
    (h : operator.apply negative text a b = .ok c) (id : ListId) : c ≠ .list id := by
  unfold apply at h
  split at h
  iterate 4
    · cases horder : a.order b <;> rw [horder] at h <;> cases h
      simp
  · split at h
    · cases h
      simp
    · exact applyNumbers_ne_list h id
  · exact applyNumbers_ne_list h id

/-- What operators fail with: nothing but what operands or their kinds are to blame for. -/
theorem apply_eq_error {text : Value → String} {error : RuntimeError}
    (h : operator.apply negative text a b = .error error) :
    (∃ reason, error = .arithmetic reason) ∨
      (∃ verb left right, error = .noResult verb left right) ∨
      ∃ left right, error = .incomparable left right := by
  have numbers : ∀ {error}, operator.applyNumbers negative a b = .error error →
      (∃ reason, error = .arithmetic reason) ∨
        (∃ verb left right, error = .noResult verb left right) ∨
        ∃ left right, error = .incomparable left right := by
    intro error h
    unfold applyNumbers at h
    split at h
    · cases hresult : applyIntegers negative operator _ _ <;> rw [hresult] at h <;> cases h
      exact .inl ⟨_, rfl⟩
    · split at h
      · next result _ =>
          cases result <;> cases h
          exact .inl ⟨_, rfl⟩
      · cases h
        exact .inr (.inl ⟨_, _, _, rfl⟩)
    · split at h
      · cases hresult : Arithmetic.decimalPower _ _ <;> rw [hresult] at h <;> cases h
        exact .inl ⟨_, rfl⟩
      · cases h
        exact .inr (.inl ⟨_, _, _, rfl⟩)
    · cases h
      exact .inr (.inl ⟨_, _, _, rfl⟩)
  unfold apply at h
  split at h
  iterate 4
    · cases horder : a.order b <;> rw [horder] at h <;> cases h
      exact .inr (.inr ⟨_, _, Value.order_eq_error horder⟩)
  · split at h
    · cases h
    · exact numbers h
  · exact numbers h

theorem operatorType_of_isLogical {left right ty : Ty} (hlogical : operator.isLogical = true)
    (h : operatorType operator left right = .ok ty) :
    left = .boolean ∧ right = .boolean ∧ ty = .boolean := by
  cases operator <;> try cases hlogical
  all_goals
    simp only [operatorType, Except.bind_eq_ok, requireExact_eq_ok, Except.pure_eq_ok] at h
    obtain ⟨_, rfl, _, rfl, rfl⟩ := h
    exact ⟨rfl, rfl, rfl⟩

end Operator

end TinyScript
