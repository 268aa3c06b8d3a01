import TinyScript.Proofs.Run.Lockstep

/-!
# Looser limits

A run meets limits in three places: a loop has so many rounds, a call of a function needs room under
the limit on nested calls, and a negative exponent on an integer may be rejected. Looser limits
only matter to a run that fails at one of them; every other run does the same under both.
-/

namespace TinyScript

/-- Settings under which a run may do all that it may do under others. -/
structure RunSettings.Loosens (loose tight : RunSettings) : Prop where
  depth : tight.maxCallDepth ≤ loose.maxCallDepth
  negative : loose.negativeExponent = tight.negativeExponent ∨
    tight.negativeExponent = .reject ∧ loose.negativeExponent = .truncate

theorem RunSettings.Loosens.refl (settings : RunSettings) : settings.Loosens settings :=
  ⟨Nat.le_refl _, .inl rfl⟩

/-- A run ends at a limit that is looser under other settings or with other fuel. -/
inductive Halt.IsLifted (tight loose : RunSettings) (fuel fuel' : Nat) : Halt → Prop
  | outOfFuel : fuel < fuel' → IsLifted tight loose fuel fuel' .outOfFuel
  | callTooDeep {name} : tight.maxCallDepth < loose.maxCallDepth →
      IsLifted tight loose fuel fuel' (.failed (.callTooDeep tight.maxCallDepth name))
  | negativeExponent {exponent} : loose.negativeExponent ≠ tight.negativeExponent →
      IsLifted tight loose fuel fuel' (.failed (.arithmetic (.negativeExponent exponent)))

/-- A run ends at one of the limits. -/
inductive Outcome.IsLimit : Outcome → Prop
  | outOfFuel : IsLimit .outOfFuel
  | callTooDeep {limit name} : IsLimit (.failed (.runtimeError (.callTooDeep limit name)))
  | negativeExponent {exponent} :
      IsLimit (.failed (.runtimeError (.arithmetic (.negativeExponent exponent))))

theorem Halt.IsLifted.isLimit {tight loose : RunSettings} {fuel fuel' : Nat} {halt : Halt}
    (h : halt.IsLifted tight loose fuel fuel') : halt.outcome.IsLimit := by
  cases h <;> constructor

variable {tight loose : RunSettings} {fuel fuel' : Nat}

/-- Machines that hold the same, of runs of which the first is cut short by a limit that the second
run may exceed. -/
def Likeness.limits (tight loose : RunSettings) (fuel fuel' : Nat) : Likeness :=
  .sameStores Eq (Halt.IsLifted tight loose fuel fuel')

theorem Likeness.allows_limits (h : loose.Loosens tight) (hfuel : fuel ≤ fuel') :
    (Likeness.limits tight loose fuel fuel').Allows tight loose fuel fuel' where
  rounds := (Nat.eq_or_lt_of_le hfuel).imp Eq.symm fun hlt => ⟨hfuel, .outOfFuel hlt⟩
  depth := (Nat.eq_or_lt_of_le h.depth).imp Eq.symm fun hlt =>
    ⟨h.depth, fun _ => .callTooDeep hlt⟩
  negative := by
    rcases h.negative with hsame | ⟨htight, hloose⟩
    · exact .inl hsame
    · refine .inr ⟨htight, fun _ => .negativeExponent ?_⟩
      rw [htight, hloose]
      simp
  takes := sameStores_takes
  header := by
    rintro function _ rfl
    exact ⟨rfl, rfl⟩
  body := by
    rintro function _ rfl calls
    rfl

variable {program : Program} {machine : Machine}

/-- Looser limits make no difference to a run that does not end at a limit that is lifted. -/
theorem execute_of_loosens (h : loose.Loosens tight) (hfuel : fuel ≤ fuel')
    (hends : ∀ halt : Halt, (program.execute tight fuel machine).1 = halt.outcome →
      ¬ halt.IsLifted tight loose fuel fuel') :
    program.execute loose fuel' machine = program.execute tight fuel machine := by
  rcases Likeness.execute_sameStores (Likeness.allows_limits h hfuel) program.globals
    (List.forall₂_same.mpr fun _ _ => rfl) machine with ⟨halt, houtcome, hlifted⟩ | hsame
  · exact absurd hlifted (hends halt houtcome)
  · exact hsame

/-- More rounds make no difference to a run that has enough of them. -/
theorem execute_of_more_fuel {settings : RunSettings} (hfuel : fuel ≤ fuel')
    (hends : (program.execute settings fuel machine).1 ≠ .outOfFuel) :
    program.execute settings fuel' machine = program.execute settings fuel machine := by
  refine execute_of_loosens (.refl settings) hfuel fun halt houtcome hlifted => ?_
  cases hlifted with
  | outOfFuel _ => exact hends houtcome
  | callTooDeep hlt => exact absurd hlt (Nat.lt_irrefl _)
  | negativeExponent hne => exact hne rfl

/-- Looser limits only rescue runs that fail at a limit. With more room for nested calls, with
negative exponents accepted where they were rejected, and with any number of rounds more, every
other run comes to the same outcome, with the same output, in the same machine. -/
theorem looser_limits_only_rescue (tight loose : RunSettings) (fuel fuel' : Nat) (program : Program)
    (machine : Machine) (h : loose.Loosens tight) (hfuel : fuel ≤ fuel')
    (hends : ¬ (program.execute tight fuel machine).1.IsLimit) :
    program.execute loose fuel' machine = program.execute tight fuel machine :=
  execute_of_loosens h hfuel fun _ houtcome hlifted => hends (houtcome ▸ hlifted.isLimit)

/-! ## A run that needs three calls at once -/

/-- A program that calls a function which calls itself once and then divides by zero. -/
def descent : Program where
  globals := []
  functions :=
    [⟨"f", [⟨"n", "Integer"⟩], some "Integer",
        [.expression (.call "print" [.access "n" none none] none none),
          .branch (.binary .equal (.access "n" none none) (.literal (.integer 0) none) none)
            [.result (.binary .divide (.literal (.integer 1) none) (.access "n" none none) none)]
            [.result (.call "f"
              [.binary .subtract (.access "n" none none) (.literal (.integer 1) none) none]
              none none)]], none⟩,
      ⟨"main", [], some "Integer",
        [.result (.call "f" [.literal (.integer 1) none] none none)], none⟩]

/-- With room for two calls the program fails for want of room. With room for three it fails by
itself, and does so in the same way with more room. -/
theorem looser_limits_only_rescue_descent :
    (descent.execute ⟨2, .reject⟩ 0 (.initial .unlimited)).1 =
        .failed (.runtimeError (.callTooDeep 2 "f")) ∧
      (descent.execute ⟨3, .reject⟩ 0 (.initial .unlimited)).1 =
        .failed (.runtimeError (.arithmetic .divisionByZero)) ∧
      (descent.execute ⟨10000, .truncate⟩ 5 (.initial .unlimited)).1 =
        .failed (.runtimeError (.arithmetic .divisionByZero)) ∧
      (descent.execute ⟨10000, .truncate⟩ 5 (.initial .unlimited)).2.sink.text =
        (descent.execute ⟨3, .reject⟩ 0 (.initial .unlimited)).2.sink.text := by
  have htight : (descent.execute ⟨3, .reject⟩ 0 (.initial .unlimited)).1 =
      .failed (.runtimeError (.arithmetic .divisionByZero)) := by decide +kernel
  have hsame := looser_limits_only_rescue ⟨3, .reject⟩ ⟨10000, .truncate⟩ 0 5 descent
    (.initial .unlimited) ⟨by decide, .inr ⟨rfl, rfl⟩⟩ (by decide) (by rw [htight]; nofun)
  exact ⟨by decide +kernel, htight, by rw [hsame, htight], by rw [hsame]⟩

end TinyScript
