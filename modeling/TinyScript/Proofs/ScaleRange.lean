import TinyScript.Proofs.Decimal.Scale
import TinyScript.Proofs.Run.Overflow
import TinyScript.Proofs.Run.Upkeep
import TinyScript.Proofs.RunRoundTrip

/-!
# Which runs stay in the range of scales

A run starts with the scales of literals, which have 64 bits, and every value that it comes across
has such a scale, too. But nothing keeps a program from multiplying, and products add the scales up.
So a run may come to a product or a power whose scale leaves the range, and breaks off there; sums,
differences and quotients never lead out of it (`scales_of_check`). The range check of literals lets
a zero of any scale through, so one product is enough to leave it.
-/

namespace TinyScript

open Typing Run

/-! ## Values -/

/-- A value whose scale is in the range, or a list from a number on. -/
def Value.Scaled (first : ListId) : Value → Prop
  | .list id => first ≤ id
  | value => value.HasScale

namespace Value.Scaled

variable {first : ListId} {a b c : Value}

theorem hasScale (h : a.Scaled first) : a.HasScale := by
  cases a with
  | list _ => trivial
  | _ => exact h

theorem ofLiteral {literal : Literal} (h : literal.IsWritable) :
    (Value.ofLiteral literal).Scaled first := by
  cases literal <;> exact h

theorem result {negative : NegativeExponent} {text : Value → String} {operator : Operator}
    (ha : a.Scaled first) (hb : b.Scaled first) (hfits : operator.overflows a b = false)
    (h : operator.apply negative text a b = .ok c) : c.Scaled first := by
  have hfactors := (Operator.overflows_eq_false_iff ha.hasScale hb.hasScale).mp hfits
  cases c with
  | list id => exact absurd rfl (Operator.apply_ne_list h id)
  | decimal d =>
      exact Operator.keepsScale_of_factorsFit ha.hasScale hb.hasScale hfactors _ (.result h)
  | _ => trivial

theorem family : Value.Family first (Value.Scaled first) :=
  ⟨trivial, fun _ => trivial, fun _ => Iff.rfl, result⟩

end Value.Scaled

/-! ## Runs -/

/-- All scales that the operators of a run compute are in the range. -/
def Program.KeepsScales (settings : RunSettings) (fuel : Nat) (program : Program)
    (machine : Machine) : Prop :=
  ∀ visit, program.Visits settings fuel machine visit →
    ∀ operator a b m, visit.Operates settings operator a b m →
      operator.KeepsScale settings.negativeExponent m.lists.text a b

/-- In every run of an accepted program all values have scales in the range. Where an operator is
applied, the scales that it computes are in the range unless one of a product or a power is not. The
run breaks off exactly if somewhere they are not. -/
theorem scales_of_check {settings : Typing.Settings} {source annotated : Program}
    (hcheck : source.check settings = .ok annotated)
    (hliterals : ∀ literal ∈ source.literals, literal.IsWritable) (rules : RunSettings)
    (fuel : Nat) (machine : Machine) :
    (∀ visit, annotated.Visits rules fuel machine visit →
      visit.machine.KeepsTo (Value.Scaled machine.lists.next) machine.lists.next ∧
        ∀ operator a b m, visit.Operates rules operator a b m →
          a.HasScale ∧ b.HasScale ∧
            (operator.KeepsScale rules.negativeExponent m.lists.text a b ↔
              operator.FactorsFit a b)) ∧
      ((annotated.execute rules fuel machine).1 = .scaleOverflow ↔
        ¬ annotated.KeepsScales rules fuel machine) := by
  have hvalues : ∀ literal ∈ annotated.literals,
      (Value.ofLiteral literal).Scaled machine.lists.next := by
    rw [literals_of_check hcheck]
    exact fun literal hliteral => .ofLiteral (hliterals literal hliteral)
  have hready : ∀ {visit}, annotated.Visits rules fuel machine visit →
      Ordinary rules fuel visit.calls ∧
        Ready (Value.Scaled machine.lists.next) machine.lists.next visit.task visit.machine :=
    fun hvisits => Program.ready_of_visits Value.Scaled.family hvalues hvisits
  have hoperands : ∀ {visit operator a b m}, annotated.Visits rules fuel machine visit →
      visit.Operates rules operator a b m → a.HasScale ∧ b.HasScale := by
    intro visit operator a b m hvisits hoperates
    obtain ⟨ordinary, hready⟩ := hready hvisits
    obtain ⟨ha, hb⟩ := hoperates.operands Value.Scaled.family ordinary hready
    exact ⟨ha.hasScale, hb.hasScale⟩
  constructor
  · intro visit hvisits
    refine ⟨(hready hvisits).2.machine, fun operator a b m hoperates => ?_⟩
    obtain ⟨ha, hb⟩ := hoperands hvisits hoperates
    exact ⟨ha, hb, Operator.keepsScale_iff_factorsFit ha hb⟩
  · rw [Program.execute_eq_scaleOverflow_iff]
    refine iff_not_comm.mp ⟨?_, ?_⟩
    · rintro hkeeps ⟨visit, hvisits, operator, a, b, m, hoperates, hoverflows⟩
      obtain ⟨ha, hb⟩ := hoperands hvisits hoperates
      have hfits := (Operator.overflows_eq_false_iff ha hb).mpr
        (Operator.factorsFit_of_keepsScale (hkeeps visit hvisits operator a b m hoperates))
      rw [hfits] at hoverflows
      cases hoverflows
    · intro hnone visit hvisits operator a b m hoperates
      obtain ⟨ha, hb⟩ := hoperands hvisits hoperates
      refine Operator.keepsScale_of_factorsFit ha hb
        ((Operator.overflows_eq_false_iff ha hb).mp ?_)
      exact Bool.eq_false_iff.mpr fun hoverflows =>
        hnone ⟨visit, hvisits, operator, a, b, m, hoperates, hoverflows⟩

/-- What reads the zero of `squaredZero`. -/
def squaredZeroFactor : Expression :=
  .access "z" (some ⟨"z", .decimal, none, true⟩) (some .decimal)

/-- The same program with its annotations. -/
def squaredZeroChecked : Program where
  globals :=
    [⟨"z", none, true,
        some (.literal (.decimal ⟨0, 0x7fffffffffffffff⟩) (some .decimal)),
        some ⟨"z", .decimal, none, true⟩⟩,
      ⟨"product", none, true,
        some (.binary .multiply squaredZeroFactor squaredZeroFactor (some .decimal)),
        some ⟨"product", .decimal, none, true⟩⟩]
  functions :=
    [⟨"main", [], some "Integer", [.result (.literal (.integer 0) (some .integer))],
      some ⟨"main", [], .integer⟩⟩]

theorem check_squaredZero : squaredZero.check default = .ok squaredZeroChecked := by
  have hglobals : annotateEach (annotateGlobal default) squaredZero.globals
      ⟨.root ⟨[], [(("main", 0), ⟨"main", [], .integer⟩), (("print", 1), printSignature)]⟩, none,
        [.functionRegistered "main" 0]⟩ = .ok squaredZeroChecked.globals _ := rfl
  exact check_of_accepts ⟨rfl, hglobals, rfl, rfl⟩

/-- The program is accepted, its product has twice the largest scale, and the run breaks off. -/
theorem scales_of_check_squaredZero :
    squaredZero.check default = .ok squaredZeroChecked ∧
      (∀ literal ∈ squaredZero.literals, literal.IsWritable) ∧
      (squaredZeroChecked.execute default 0 (.initial .unlimited)).1 = .scaleOverflow ∧
      ¬ squaredZeroChecked.KeepsScales default 0 (.initial .unlimited) := by
  have hliterals : ∀ literal ∈ squaredZero.literals, literal.IsWritable := by decide
  have hexecute : (squaredZeroChecked.execute default 0 (.initial .unlimited)).1 =
      .scaleOverflow := by decide +kernel
  obtain ⟨-, hbreaks⟩ := scales_of_check check_squaredZero hliterals default 0 (.initial .unlimited)
  exact ⟨check_squaredZero, hliterals, hexecute, hbreaks.mp hexecute⟩

end TinyScript
