import TinyScript.Proofs.LooseLimits
import TinyScript.Proofs.Run.Account
import TinyScript.Proofs.Run.Overflow

/-!
# Programs without loops end

Functions may call themselves and each other as they like, but calls nest no deeper than the
settings allow, and within one body every call is made at most once when there is no loop. So a run
of a program without loops is over after a number of calls that only depends on the program and on
the limit. It never asks for another round, so it does the same however many rounds it is given. An
integer or a failure is what it ends with, unless it breaks off where a scale leaves 64 bits.
-/

namespace TinyScript

/-- A program without loops ends, on every machine and under every limit on nested calls, with an
integer or with a failure, unless it breaks off, and it breaks off exactly if somewhere in the run
an operator overflows. It does the same with any number of rounds, with none, too. Every call gives
a notice, and there are no more of them than the limit and the number of calls that the program has,
each counted once, allow. -/
theorem loop_free_ends (settings : RunSettings) (fuel : Nat) (program : Program) (machine : Machine)
    (h : program.isLoopFree) :
    ((∃ result, (program.execute settings fuel machine).1 = .finished result) ∨
        (∃ error, (program.execute settings fuel machine).1 = .failed (.runtimeError error)) ∨
        (program.execute settings fuel machine).1 = .scaleOverflow) ∧
      ((program.execute settings fuel machine).1 = .scaleOverflow ↔
        program.Overflows settings fuel machine) ∧
      (∀ fuel', program.execute settings fuel' machine = program.execute settings fuel machine) ∧
      (program.execute settings fuel machine).2.notices.length ≤
        machine.notices.length + 1 + (program.callCount 1 + 1) ^ (settings.maxCallDepth + 1) := by
  have hends : ∀ fuel, (program.execute settings fuel machine).1 ≠ .outOfFuel := by
    intro fuel hdry
    rw [(program.account_execute settings fuel machine).2 hdry] at h
    cases h
  refine ⟨?_, Program.execute_eq_scaleOverflow_iff, fun fuel' => ?_, ?_⟩
  · rcases program.outcome_execute with hfinished | ⟨halt, hhalt⟩
    · exact .inl hfinished
    · cases halt with
      | failed error => exact .inr (.inl ⟨error, hhalt⟩)
      | scaleOverflow => exact .inr (.inr hhalt)
      | outOfFuel => exact absurd hhalt (hends fuel)
  · -- Both are what the run does with no rounds at all.
    exact (execute_of_more_fuel (Nat.zero_le fuel') (hends 0)).trans
      (execute_of_more_fuel (Nat.zero_le fuel) (hends 0)).symm
  · have hnotices := (program.account_execute settings fuel machine).1.notices
    rw [Program.callLimit, Program.callCount_of_isLoopFree fuel 1 h] at hnotices
    omega

/-! ## Two programs without loops -/

/-- A function that calls another one twice, with one less, as long as its argument is not zero. -/
def forkingFunction (name other : String) : Function :=
  ⟨name, [⟨"n", "Integer"⟩], some "Integer",
    [.branch (.binary .equal (.access "n" none none) (.literal (.integer 0) none) none)
      [.result (.literal (.integer 1) none)]
      [.result (.binary .add
        (.call other [.binary .subtract (.access "n" none none) (.literal (.integer 1) none) none]
          none none)
        (.call other [.binary .subtract (.access "n" none none) (.literal (.integer 1) none) none]
          none none) none)]], none⟩

/-- A program in which two functions call each other. -/
def forking : Program where
  globals := []
  functions := [forkingFunction "ping" "pong", forkingFunction "pong" "ping",
    ⟨"main", [], some "Integer",
      [.result (.call "ping" [.literal (.integer 3) none] none none)], none⟩]

/-- With no rounds and with any number of them, the first program ends with an integer where the
limit leaves room for its calls, and with a failure where it does not, and the program that squares
a zero breaks off. -/
theorem loop_free_ends_forking :
    forking.isLoopFree = true ∧
      (forking.execute default 0 (.initial .unlimited)).1 = .finished 8 ∧
      (∀ fuel, (forking.execute default fuel (.initial .unlimited)).1 = .finished 8) ∧
      (∀ fuel, (forking.execute ⟨4, .reject⟩ fuel (.initial .unlimited)).1 =
        .failed (.runtimeError (.callTooDeep 4 "pong"))) ∧
      (forking.execute ⟨4, .reject⟩ 0 (.initial .unlimited)).2.notices.length ≤
        0 + 1 + (5 + 1) ^ 5 ∧
      squaredZero.isLoopFree = true ∧
      (∀ fuel, (squaredZero.execute default fuel (.initial .unlimited)).1 = .scaleOverflow) ∧
      squaredZero.Overflows default 0 (.initial .unlimited) := by
  have hfree : forking.isLoopFree = true := by decide
  have hroom : (forking.execute default 0 (.initial .unlimited)).1 = .finished 8 := by
    decide +kernel
  have htight : (forking.execute ⟨4, .reject⟩ 0 (.initial .unlimited)).1 =
      .failed (.runtimeError (.callTooDeep 4 "pong")) := by decide +kernel
  have hfree' : squaredZero.isLoopFree = true := by decide
  have hbreaks : (squaredZero.execute default 0 (.initial .unlimited)).1 = .scaleOverflow := by
    decide +kernel
  obtain ⟨-, -, hsame, -⟩ := loop_free_ends default 0 forking (.initial .unlimited) hfree
  obtain ⟨-, -, hsame', hnotices⟩ :=
    loop_free_ends ⟨4, .reject⟩ 0 forking (.initial .unlimited) hfree
  obtain ⟨-, hoverflows, hsame'', -⟩ :=
    loop_free_ends default 0 squaredZero (.initial .unlimited) hfree'
  exact ⟨hfree, hroom, fun fuel => by rw [hsame fuel, hroom],
    fun fuel => by rw [hsame' fuel, htight], hnotices, hfree',
    fun fuel => by rw [hsame'' fuel, hbreaks], hoverflows.mp hbreaks⟩

end TinyScript
