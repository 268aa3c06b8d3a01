import TinyScript.Proofs.Conformance
import TinyScript.Proofs.Decimal.Order
import TinyScript.Proofs.Sequencing
import TinyScript.Proofs.TextOrder

/-!
# Values are ordered consistently

Values of one kind with an order compare as what they stand for: numbers by size, whatever the
scale of a decimal is, texts by their code points from the front. `Value.Compares` says so kind by
kind. Each of these orders is a linear one, so reversal and transitivity come kind by kind, and
values that compare as equal can stand for each other in every comparison. A comparison of operands
is read off the order of their values: of `<`, `==` and `>` exactly one holds, or all of them and
`!=` fail alike.
-/

namespace TinyScript

/-! ## Laws of a comparison -/

section Laws

variable {α : Type} {cmp : α → α → Ordering} {a b c : α} {order : Ordering}

theorem cmp_swap [Std.OrientedCmp cmp] (h : cmp a b = order) : cmp b a = order.swap :=
  Std.OrientedCmp.eq_swap.trans (congrArg Ordering.swap h)

theorem cmp_trans [Std.TransCmp cmp] (h : cmp a b = order) (h' : cmp b c = order) :
    cmp a c = order := by
  cases order with
  | lt => exact Std.TransCmp.lt_trans h h'
  | eq => exact Std.TransCmp.eq_trans h h'
  | gt => exact Std.TransCmp.gt_trans h h'

end Laws

/-! ## What values compare as -/

namespace Value

/-- How two values of one kind compare, by what they stand for. -/
inductive Compares : Value → Value → Ordering → Prop
  | boolean {a b : Bool} {order} : compare a b = order → Compares (.boolean a) (.boolean b) order
  | integer {a b : Int} {order} : compare a b = order → Compares (.integer a) (.integer b) order
  | decimal {a b : Decimal} {order} : compare a.value b.value = order →
      Compares (.decimal a) (.decimal b) order
  | character {a b : Char} {order} : compare a.toNat b.toNat = order →
      Compares (.character a) (.character b) order
  | string {a b : String} {order} : compare (codePoints a) (codePoints b) = order →
      Compares (.string a) (.string b) order

variable {a b c : Value} {order : Ordering}

theorem order_eq_ok_iff : a.order b = .ok order ↔ a.Compares b order := by
  constructor
  · intro h
    unfold Value.order at h
    cases a <;> cases b <;> cases h
    · exact .boolean rfl
    · exact .integer rfl
    · exact .decimal (Decimal.compareValue_eq _ _).symm
    · exact .character rfl
    · exact .string (compare_string _ _).symm
  · intro h
    cases h with
    | boolean h => exact congrArg Except.ok h
    | integer h => exact congrArg Except.ok h
    | decimal h => exact congrArg Except.ok ((Decimal.compareValue_eq _ _).trans h)
    | character h => exact congrArg Except.ok h
    | string h => exact congrArg Except.ok ((compare_string _ _).trans h)

/-- Texts have the order of their bytes, too. -/
theorem order_string (a b : String) :
    Value.order (.string a) (.string b) = .ok (compare (utf8Bytes a) (utf8Bytes b)) :=
  order_eq_ok_iff.mpr (.string (compare_utf8Bytes a b).symm)

namespace Compares

theorem swap (h : a.Compares b order) : b.Compares a order.swap := by
  cases h with
  | boolean h => exact .boolean (cmp_swap h)
  | integer h => exact .integer (cmp_swap h)
  | decimal h => exact .decimal (cmp_swap h)
  | character h => exact .character (cmp_swap h)
  | string h => exact .string (cmp_swap h)

theorem trans (h : a.Compares b order) (h' : b.Compares c order) : a.Compares c order := by
  cases h with
  | boolean h => cases h' with | boolean h' => exact .boolean (cmp_trans h h')
  | integer h => cases h' with | integer h' => exact .integer (cmp_trans h h')
  | decimal h => cases h' with | decimal h' => exact .decimal (cmp_trans h h')
  | character h => cases h' with | character h' => exact .character (cmp_trans h h')
  | string h => cases h' with | string h' => exact .string (cmp_trans h h')

theorem kind_eq (h : a.Compares b order) : a.kind = b.kind := by
  cases h <;> rfl

/-- A value that compares as equal to another can take its place on the left. -/
theorem congr_left (h : a.Compares b .eq) (h' : b.Compares c order) : a.Compares c order := by
  cases h with
  | boolean h =>
      cases h' with | boolean h' => exact .boolean ((Std.TransCmp.congr_left h).trans h')
  | integer h =>
      cases h' with | integer h' => exact .integer ((Std.TransCmp.congr_left h).trans h')
  | decimal h =>
      cases h' with | decimal h' => exact .decimal ((Std.TransCmp.congr_left h).trans h')
  | character h =>
      cases h' with | character h' => exact .character ((Std.TransCmp.congr_left h).trans h')
  | string h =>
      cases h' with | string h' => exact .string ((Std.TransCmp.congr_left h).trans h')

end Compares

/-! ## The order of values -/

theorem order_eq_ok (h : a.kind = b.kind) (hnil : a.kind ≠ .nil) (hlist : a.kind ≠ .list) :
    ∃ order, a.order b = .ok order := by
  cases a <;> cases b <;> cases h
  · exact absurd rfl hnil
  iterate 5 exact ⟨_, rfl⟩
  · exact absurd rfl hlist

/-- Two values have no order if they are of two kinds or of a kind without one. -/
theorem order_eq_error_iff :
    a.order b = .error (.incomparable a.kind b.kind) ↔
      a.kind ≠ b.kind ∨ a.kind = .nil ∨ a.kind = .list := by
  constructor
  · intro herror
    by_contra hordered
    simp only [not_or, not_not] at hordered
    obtain ⟨hkind, hnil, hlist⟩ := hordered
    obtain ⟨order, hok⟩ := order_eq_ok hkind hnil hlist
    rw [herror] at hok
    cases hok
  · intro h
    cases horder : a.order b with
    | error error => rw [order_eq_error horder]
    | ok order =>
        have hcompares := order_eq_ok_iff.mp horder
        rcases h with hkind | hnil | hlist
        · exact absurd hcompares.kind_eq hkind
        · cases hcompares <;> cases hnil
        · cases hcompares <;> cases hlist

theorem order_swap (h : a.order b = .ok order) : b.order a = .ok order.swap :=
  order_eq_ok_iff.mpr (order_eq_ok_iff.mp h).swap

theorem order_trans (h : a.order b = .ok order) (h' : b.order c = .ok order) :
    a.order c = .ok order :=
  order_eq_ok_iff.mpr ((order_eq_ok_iff.mp h).trans (order_eq_ok_iff.mp h'))

/-- Values that compare as equal have the same order with every value, or none with it. -/
theorem order_congr_left (h : a.order b = .ok .eq) (c : Value) : a.order c = b.order c := by
  have hequal := order_eq_ok_iff.mp h
  cases horder : b.order c with
  | ok order => exact order_eq_ok_iff.mpr (hequal.congr_left (order_eq_ok_iff.mp horder))
  | error error =>
      obtain rfl := order_eq_error horder
      rw [← hequal.kind_eq]
      refine order_eq_error_iff.mpr ?_
      rw [hequal.kind_eq]
      exact order_eq_error_iff.mp horder

end Value

/-! ## Comparisons of operands -/

/-- The operators that compare. -/
def Operator.comparisons : List Operator := [.less, .greater, .equal, .notEqual]

theorem Operator.apply_of_mem_comparisons {operator : Operator} (h : operator ∈ comparisons)
    (negative : NegativeExponent) (text : Value → String) (a b : Value) :
    operator.apply negative text a b =
      (a.order b).map fun order => .boolean (operator.holds order) := by
  simp only [comparisons, List.mem_cons, List.not_mem_nil, or_false] at h
  rcases h with rfl | rfl | rfl | rfl <;> rfl

/-- A comparison computes no scale. -/
theorem Operator.overflows_of_mem_comparisons {operator : Operator} (h : operator ∈ comparisons)
    (a b : Value) : operator.overflows a b = false := by
  simp only [comparisons, List.mem_cons, List.not_mem_nil, or_false] at h
  rcases h with rfl | rfl | rfl | rfl <;> rfl

/-- In every order exactly one of `<`, `==` and `>` holds. -/
theorem Ordering.count_beq (order : Ordering) :
    [order == .lt, order == .eq, order == .gt].count true = 1 := by
  cases order <;> rfl

namespace Run

variable {settings : RunSettings} {calls : Calls} {left right : Expression} {operator : Operator}
  {ty : Option Ty} {a b : Value} {m m₁ m₂ : Machine}

theorem evaluate_comparison (hleft : evaluate settings calls left m = .ok a m₁)
    (hright : evaluate settings calls right m₁ = .ok b m₂)
    (hoperator : operator ∈ Operator.comparisons) :
    evaluate settings calls (.binary operator left right ty) m =
      ofExcept ((a.order b).map fun order => .boolean (operator.holds order)) m₂ := by
  have hlogical : operator.isLogical = false := by
    simp only [Operator.comparisons, List.mem_cons, List.not_mem_nil, or_false] at hoperator
    rcases hoperator with rfl | rfl | rfl | rfl <;> rfl
  rw [evaluate, bind_of_ok hleft, hlogical, if_neg Bool.false_ne_true, bind_of_ok hright, operate,
    Operator.overflows_of_mem_comparisons hoperator, if_neg Bool.false_ne_true,
    Operator.apply_of_mem_comparisons hoperator]

end Run

open Run

/-- Comparing values is a consistent order. It fails exactly for values of two kinds, for nil and
for lists. Where it succeeds it is the order of what the values stand for: decimals by the rational
number, whatever their scales are, texts by code points, which is the order of their bytes. The
other way around the order is the reverse one, it is transitive, and values that compare as equal
are the same in every comparison. So of operands whose values have an order exactly one of `<`, `==`
and `>` holds, the one that the order says, and `!=` is the negation of `==`; operands without one
make all four fail in the same way. -/
theorem comparison_is_consistent :
    (∀ a b : Value, (∃ error, a.order b = .error error) ↔
        a.kind ≠ b.kind ∨ a.kind = .nil ∨ a.kind = .list) ∧
      (∀ (a b : Value) order, a.order b = .ok order ↔ a.Compares b order) ∧
      (∀ a b : String, Value.order (.string a) (.string b) =
        .ok (compare (utf8Bytes a) (utf8Bytes b))) ∧
      (∀ (a b : Value) order, a.order b = .ok order → b.order a = .ok order.swap) ∧
      (∀ (a b c : Value) order,
        a.order b = .ok order → b.order c = .ok order → a.order c = .ok order) ∧
      (∀ a b : Value, a.order b = .ok .eq → ∀ c : Value, a.order c = b.order c) ∧
      ∀ settings calls left right m a m₁ b m₂,
        evaluate settings calls left m = .ok a m₁ → evaluate settings calls right m₁ = .ok b m₂ →
        (∃ error, a.order b = .error error ∧ ∀ operator ∈ Operator.comparisons, ∀ ty,
          evaluate settings calls (.binary operator left right ty) m =
            .error (.failed error) m₂) ∨
        ∃ order, a.order b = .ok order ∧
          [order == .lt, order == .eq, order == .gt].count true = 1 ∧ ∀ ty,
            evaluate settings calls (.binary .less left right ty) m =
              .ok (.boolean (order == .lt)) m₂ ∧
            evaluate settings calls (.binary .equal left right ty) m =
              .ok (.boolean (order == .eq)) m₂ ∧
            evaluate settings calls (.binary .greater left right ty) m =
              .ok (.boolean (order == .gt)) m₂ ∧
            evaluate settings calls (.binary .notEqual left right ty) m =
              .ok (.boolean !(order == .eq)) m₂ := by
  refine ⟨fun a b => ?_, fun _ _ _ => Value.order_eq_ok_iff, Value.order_string,
    fun _ _ _ => Value.order_swap, fun _ _ _ _ => Value.order_trans,
    fun _ _ => Value.order_congr_left, ?_⟩
  · rw [← Value.order_eq_error_iff]
    refine ⟨?_, fun h => ⟨_, h⟩⟩
    rintro ⟨error, h⟩
    rw [h, Value.order_eq_error h]
  · intro settings calls left right m a m₁ b m₂ hleft hright
    cases horder : a.order b with
    | error error =>
        refine .inl ⟨error, rfl, fun operator hoperator ty => ?_⟩
        rw [evaluate_comparison hleft hright hoperator, horder]
        rfl
    | ok order =>
        have hresult : ∀ operator ∈ Operator.comparisons, ∀ ty,
            evaluate settings calls (.binary operator left right ty) m =
              .ok (.boolean (operator.holds order)) m₂ := by
          intro operator hoperator ty
          rw [evaluate_comparison hleft hright hoperator, horder]
          rfl
        exact .inr ⟨order, rfl, Ordering.count_beq order, fun ty =>
          ⟨hresult .less (by decide) ty, hresult .equal (by decide) ty,
            hresult .greater (by decide) ty, hresult .notEqual (by decide) ty⟩⟩

/-- Two thousand at three scales, one of them negative, compares as equal all through, so of the
four comparisons of the first two `==` holds alone. Nil has no order with itself, so all four
comparisons fail. -/
theorem comparison_is_consistent_thousands :
    Value.order (.decimal ⟨2, -3⟩) (.decimal ⟨2000, 0⟩) = .ok .eq ∧
      Value.order (.decimal ⟨2000, 0⟩) (.decimal ⟨200000, 2⟩) = .ok .eq ∧
      Value.order (.decimal ⟨2, -3⟩) (.decimal ⟨200000, 2⟩) = .ok .eq ∧
      Value.order (.decimal ⟨2000, 0⟩) (.decimal ⟨2, -3⟩) = .ok .eq ∧
      Value.order (.string "\u00ff") (.string "\uffff") = .ok .lt ∧
      Value.order (.string "\uffff") (.string "\u00ff") = .ok .gt ∧
      (∀ operator ∈ Operator.comparisons,
        evaluate default (fun _ _ => throw .outOfFuel)
            (.binary operator (.literal (.decimal ⟨2, -3⟩) none)
              (.literal (.decimal ⟨2000, 0⟩) none) none) (.initial .unlimited) =
          .ok (.boolean (operator = .equal)) (.initial .unlimited)) ∧
      ∃ error, ∀ operator ∈ Operator.comparisons,
        evaluate default (fun _ _ => throw .outOfFuel)
            (.binary operator (.literal .nil none) (.literal .nil none) none)
            (.initial .unlimited) =
          .error (.failed error) (.initial .unlimited) := by
  obtain ⟨-, -, -, hswap, htrans, -, hoperators⟩ := comparison_is_consistent
  have hcoarse : Value.order (.decimal ⟨2, -3⟩) (.decimal ⟨2000, 0⟩) = .ok .eq := by decide +kernel
  have hfine : Value.order (.decimal ⟨2000, 0⟩) (.decimal ⟨200000, 2⟩) = .ok .eq := by
    decide +kernel
  have htext : Value.order (.string "\u00ff") (.string "\uffff") = .ok .lt := by decide +kernel
  refine ⟨hcoarse, hfine, htrans _ _ _ _ hcoarse hfine, hswap _ _ _ hcoarse, htext,
    hswap _ _ _ htext, ?_, ?_⟩
  · rcases hoperators default (fun _ _ => throw .outOfFuel)
      (.literal (.decimal ⟨2, -3⟩) none) (.literal (.decimal ⟨2000, 0⟩) none)
      (.initial .unlimited) _ _ _ _ rfl rfl
      with ⟨error, herror, -⟩ | ⟨order, horder, -, hresults⟩
    · cases hcoarse.symm.trans herror
    · cases hcoarse.symm.trans horder
      obtain ⟨hless, hequal, hgreater, hnotEqual⟩ := hresults none
      intro operator hoperator
      simp only [Operator.comparisons, List.mem_cons, List.not_mem_nil, or_false] at hoperator
      rcases hoperator with rfl | rfl | rfl | rfl
      · exact hless
      · exact hgreater
      · exact hequal
      · exact hnotEqual
  · rcases hoperators default (fun _ _ => throw .outOfFuel) (.literal .nil none)
      (.literal .nil none) (.initial .unlimited) _ _ _ _ rfl rfl
      with ⟨error, -, hfails⟩ | ⟨order, horder, -⟩
    · exact ⟨error, fun operator hoperator => hfails operator hoperator none⟩
    · cases horder

end TinyScript
