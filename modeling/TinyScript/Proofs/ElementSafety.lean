import TinyScript.Proofs.Initialisation

/-!
# Element types of lists

The type of a list does not tell what is in it, so an accepted program can bring a list to a
variable with another element type than that of the variable it comes from. Then elements do not
conform to the element types of the variables they are read through. Where every list stays with
variables of its element type, they do.
-/

namespace TinyScript

open Typing Run

/-- What a run reads from lists conforms to the element types of the variables through which it is
read. -/
def Program.RespectsElements (rules : RunSettings) (fuel : Nat) (program : Program)
    (machine : Machine) : Prop :=
  ∀ visit, program.Visits rules fuel machine visit →
    ∀ name index binding ty element v m',
      visit.task = .expression (.element name index (some binding) ty) →
      binding.ty = .list → binding.element = some element →
      evaluate rules visit.calls (.element name index (some binding) ty) visit.machine =
        .ok v m' →
        v.Conforms element

/-- An accepted program that keeps elements respects them. -/
theorem respectsElements_of_keepsElements {settings : Settings} {rules : RunSettings} {fuel : Nat}
    {machine : Machine} {source annotated : Program}
    (hcheck : source.check settings = .ok annotated) (hkeeps : annotated.KeepsElements) :
    annotated.RespectsElements rules fuel machine := by
  obtain ⟨functions, c₀, c₁, c₂, h⟩ := accepts_of_check hcheck
  rintro ⟨calls, site, task, m⟩ hvisits name index binding ty element v m' rfl hlist helement hvalue
  obtain ⟨_, _, _, ordinary, -, hfitting⟩ := h.reached hkeeps.admits hvisits
  have hd : Discipline.elements ≠ .names := by decide
  obtain ⟨_, -, -, _, ty', hty, hfits⟩ :=
    (sound_of_evaluate ordinary hvalue hfitting).value
  -- The value conforms to the type of the whole access, which is the element type of the binding.
  cases hfitting.checks with
  | expression hann =>
      cases rule_of_annotateExpression hann with
      | element _ _ htype =>
          cases hty
          obtain ⟨-, rfl⟩ := elementType_eq_ok htype
          have hitem : binding.itemType = element := by
            unfold VariableBinding.itemType
            rw [if_pos hlist, helement]
            rfl
          rw [← hitem]
          exact hfits.1 hd

/-! ## A list that gets to another variable -/

/-- A program that makes a list variable hold the list of another one, with one item, and returns
that item. -/
def overwritten (ty : Ty) (item : Literal) : Program where
  globals :=
    [⟨"xs", some "Integer", true, some (.list [.literal (.integer 1) none] none), none⟩,
      ⟨"ys", some ty.name, true, some (.list [.literal item none] none), none⟩]
  functions :=
    [⟨"main", [], some "Integer",
      [.assignment (.access "xs" none none) (.access "ys" none none),
        .result (.element "xs" (.literal (.integer 0) none) none none)], none⟩]

/-- The assignment, with its annotations. -/
def overwriting (ty : Ty) : Statement :=
  .assignment (.access "xs" (some ⟨"xs", .list, some .integer, true⟩) (some .list))
    (.access "ys" (some ⟨"ys", .list, some ty, true⟩) (some .list))

/-- The use of the item, with its annotations. -/
def overwrittenUse : Expression :=
  .element "xs" (.literal (.integer 0) (some .integer))
    (some ⟨"xs", .list, some .integer, true⟩) (some .integer)

/-- The same program with its annotations. -/
def overwrittenChecked (ty : Ty) (item : Literal) : Program where
  globals :=
    [⟨"xs", some "Integer", true,
        some (.list [.literal (.integer 1) (some .integer)] (some .list)),
        some ⟨"xs", .list, some .integer, true⟩⟩,
      ⟨"ys", some ty.name, true, some (.list [.literal item (some ty)] (some .list)),
        some ⟨"ys", .list, some ty, true⟩⟩]
  functions :=
    [⟨"main", [], some "Integer", [overwriting ty, .result overwrittenUse],
      some ⟨"main", [], .integer⟩⟩]

/-- The machine in which the program is when its globals have been evaluated, `xs` holding a
list. -/
def overwrittenMachine (ty : Ty) (item : Literal) (xs : ListId) : Machine :=
  { Machine.initial .unlimited with
    scope :=
      .root ⟨[("ys", ⟨true, .list 1⟩), ("xs", ⟨true, .list xs⟩)],
        (overwrittenChecked ty item).linked⟩
    lists := ⟨#[#[.integer 1], #[.ofLiteral item]]⟩ }

/-- The machine in which `main` is. -/
def overwrittenInside (ty : Ty) (item : Literal) (xs : ListId) : Machine :=
  ((overwrittenChecked ty item).ready (overwrittenMachine ty item xs)).callee
    (overwrittenMachine ty item xs).scope "main" 0

/-- The visit of the use of the item. -/
def overwrittenVisit (ty : Ty) (item : Literal) : Visit :=
  ⟨callWithin default 1 9999, (((Site.body "main" 0).part 1).part 0).part 0,
    .expression overwrittenUse, overwrittenInside ty item 1⟩

theorem visits_overwritten (ty : Ty) (item : Literal) :
    (overwrittenChecked ty item).Visits default 1 (.initial .unlimited)
      (overwrittenVisit ty item) := by
  have hinitialises : (overwrittenChecked ty item).Initialises default 1 (.initial .unlimited)
      (overwrittenChecked ty item).globals (overwrittenMachine ty item 0) := ⟨_, rfl, rfl⟩
  have hmain : (overwrittenChecked ty item).Main default 1 (.initial .unlimited) _ :=
    .mk hinitialises (.mk rfl (.outermost rfl) rfl)
  have hassigned : performs default 1 (callWithin default 1 9999) (.statement (overwriting ty))
      (overwrittenInside ty item 0) (.flow .completed) (overwrittenInside ty item 1) :=
    performs_statement.mpr rfl
  have hvisits : Run.Visits default 1
      ⟨callWithin default 1 9999, .body "main" 0,
        .statements [overwriting ty, .result overwrittenUse], overwrittenInside ty item 0⟩
      (overwrittenVisit ty item) := .part (.part (.part .here (.rest hassigned)) .first) .result
  exact ⟨_, .inr hmain, hvisits⟩

theorem evaluate_overwritten (ty : Ty) (item : Literal) :
    evaluate default (overwrittenVisit ty item).calls overwrittenUse
        (overwrittenVisit ty item).machine =
      .ok (.ofLiteral item) (overwrittenVisit ty item).machine := rfl

/-- The text that is read through `xs` does not conform to the element type of `xs`, since the
assignment takes the list of `ys` for any other list. -/
theorem not_respectsElements_overwritten :
    (overwritten .string (.string "a")).check default =
        .ok (overwrittenChecked .string (.string "a")) ∧
      ¬ (overwrittenChecked .string (.string "a")).RespectsElements default 1
        (.initial .unlimited) := by
  refine ⟨rfl, ?_⟩
  intro hrespects
  have hvisits := visits_overwritten .string (.string "a")
  have hvalue := evaluate_overwritten .string (.string "a")
  have hconforms : (Value.string "a").Conforms .integer :=
    hrespects _ hvisits _ _ _ _ _ _ _ rfl rfl rfl hvalue
  exact absurd hconforms (by decide)

/-- With items of one type in both lists the same program keeps elements, and what is read is of
the element type. -/
theorem respectsElements_of_keepsElements_overwritten :
    (overwritten .integer (.integer 2)).check default =
        .ok (overwrittenChecked .integer (.integer 2)) ∧
      (overwrittenChecked .integer (.integer 2)).KeepsElements ∧
      (overwrittenChecked .integer (.integer 2)).RespectsElements default 1
        (.initial .unlimited) ∧
      (overwrittenChecked .integer (.integer 2)).Visits default 1 (.initial .unlimited)
        (overwrittenVisit .integer (.integer 2)) ∧
      (Value.integer 2).Conforms .integer := by
  have hcheck : (overwritten .integer (.integer 2)).check default =
      .ok (overwrittenChecked .integer (.integer 2)) := rfl
  have hkeeps : (overwrittenChecked .integer (.integer 2)).KeepsElements := by decide
  have hrespects : (overwrittenChecked .integer (.integer 2)).RespectsElements default 1
      (.initial .unlimited) := respectsElements_of_keepsElements hcheck hkeeps
  have hvisits := visits_overwritten .integer (.integer 2)
  have hvalue := evaluate_overwritten .integer (.integer 2)
  have hconforms : (Value.integer 2).Conforms .integer :=
    hrespects _ hvisits _ _ _ _ _ _ _ rfl rfl rfl hvalue
  exact ⟨hcheck, hkeeps, hrespects, hvisits, hconforms⟩

end TinyScript
