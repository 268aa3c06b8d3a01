import TinyScript.Proofs.Run.Outcome

/-!
# Where runs break off

A run breaks off exactly if somewhere in its course an operator is applied to two values for which a
scale leaves 64 bits (`execute_eq_scaleOverflow_iff`): nothing else makes it break off, and no
construct of a program goes on behind it.
-/

namespace TinyScript

open Run

namespace Run

variable {settings : RunSettings} {fuel : Nat} {visit : Visit} {operator : Operator} {a b : Value}
  {m : Machine}

/-- Binding parameters only fails. -/
theorem CallRaises.ne_scaleOverflow {name : String} {values : List Value} {halt : Halt}
    (h : CallRaises settings name values m halt) : halt ≠ .scaleOverflow := by
  rintro rfl
  cases h with
  | parameters _ hbound =>
      obtain ⟨_, hhalt⟩ := bindParameters_eq_error hbound
      cases hhalt

/-- Only an operator makes a task break off by itself. -/
theorem operates_of_raises
    (h : Raises settings fuel (performs settings fuel visit.calls) visit.task visit.machine
      .scaleOverflow) :
    ∃ operator a b m, visit.Operates settings operator a b m ∧ operator.overflows a b = true := by
  obtain ⟨calls, site, task, start⟩ := visit
  cases h with
  | overflow logical hleft hright hoverflows =>
      exact ⟨_, _, _, _,
        .mk logical (performs_expression.mp hleft) (performs_expression.mp hright), hoverflows⟩
  | call _ hcall => exact absurd rfl hcall.ne_scaleOverflow

theorem Visit.Operates.fails (h : visit.Operates settings operator a b m)
    (hoverflows : operator.overflows a b = true) :
    Fails settings fuel visit.calls visit.task visit.machine .scaleOverflow := by
  cases h with
  | mk logical hleft hright =>
      rw [fails_expression, evaluate]
      refine fails_bind_of_ok hleft ?_
      simp only [logical, Bool.false_eq_true, if_false]
      exact fails_bind_of_ok hright ⟨m, operate_eq_error.mpr (.inl ⟨hoverflows, rfl, rfl⟩)⟩

end Run

namespace Program

variable {settings : RunSettings} {fuel : Nat} {program : Program} {machine : Machine}

/-- Somewhere in a run an operator is applied to two values for which a scale leaves 64 bits. -/
def Overflows (settings : RunSettings) (fuel : Nat) (program : Program) (machine : Machine) :
    Prop :=
  ∃ visit, program.Visits settings fuel machine visit ∧
    ∃ operator a b m, visit.Operates settings operator a b m ∧ operator.overflows a b = true

/-- A run breaks off exactly if an operator overflows somewhere in it. -/
theorem execute_eq_scaleOverflow_iff :
    (program.execute settings fuel machine).1 = .scaleOverflow ↔
      program.Overflows settings fuel machine := by
  refine (execute_eq_outcome_iff .scaleOverflow).trans ⟨?_, ?_⟩
  · rintro ⟨m', hrun⟩
    cases breaks_of_run hrun with
    | visit hvisits hraises => exact ⟨_, hvisits, operates_of_raises hraises⟩
    | main _ hraises => exact absurd rfl hraises.ne_scaleOverflow
  · rintro ⟨visit, hvisits, operator, a, b, m, hoperates, hoverflows⟩
    exact run_of_visits hvisits (hoperates.fails hoverflows)

end Program

/-- A program that squares a zero of the largest scale that a literal can have. -/
def squaredZero : Program where
  globals :=
    [⟨"z", none, true, some (.literal (.decimal ⟨0, 0x7fffffffffffffff⟩) none), none⟩,
      ⟨"product", none, true,
        some (.binary .multiply (.access "z" none none) (.access "z" none none) none), none⟩]
  functions := [⟨"main", [], some "Integer", [.result (.literal (.integer 0) none)], none⟩]

end TinyScript
