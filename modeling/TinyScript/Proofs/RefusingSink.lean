import TinyScript.Proofs.Run.Refusal
import TinyScript.Proofs.Run.Timeline

/-!
# Sinks with less room

A program is run on two machines that are the same but for the room in their sinks, of which one
takes every text. Either both runs do the same, or the other sink refuses a text; its run fails for
it there and then, and what the sink holds is a prefix of what is printed on the first machine.
Whatever a run has printed is there when it ends, also if it fails.
-/

namespace TinyScript

open Run

namespace Program

variable {settings : RunSettings} {fuel : Nat} {program : Program} {machine m : Machine}

/-- A run leaves what is left in the scope of the run, but for that scope. -/
theorem snd_execute : (program.execute settings fuel machine).2 =
    { (program.inside settings fuel).behind { machine with scope := .initial } with
      scope := machine.scope } := by
  cases hinside : program.inside settings fuel { machine with scope := .initial } with
  | ok result after => rw [execute_of_ok hinside, behind_of_ok hinside]
  | error halt after => rw [execute_of_error hinside, behind_of_error hinside]

/-- A run with another room in the sink does the same, or it fails because the sink refuses a text
on the way. -/
theorem execute_rationed (room : String → String → Nat) (hopen : machine.sink.IsOpen) :
    program.execute settings fuel (machine.rationed room) =
        ((program.execute settings fuel machine).1,
          (program.execute settings fuel machine).2.rationed room) ∨
      (program.execute settings fuel (machine.rationed room)).1 =
          .failed (.runtimeError .printRefused) ∧
        (program.execute settings fuel (machine.rationed room)).2.sink.Stopped room
          (program.execute settings fuel machine).2.sink.text := by
  rcases (interruptible_inside program).cuts { machine with scope := .initial } room hopen with
    hwhole | ⟨hrefused, hstopped⟩
  · left
    cases hinside : program.inside settings fuel { machine with scope := .initial } with
    | ok result after =>
        rw [hinside] at hwhole
        rw [execute_of_ok hwhole, execute_of_ok hinside]
        rfl
    | error halt after =>
        rw [hinside] at hwhole
        rw [execute_of_error hwhole, execute_of_error hinside]
        rfl
  · right
    rw [execute_of_error hrefused, snd_execute]
    exact ⟨rfl, hstopped⟩

/-- What the sink holds before a run is still there behind it. -/
theorem printed_before : ∃ printed,
    (program.execute settings fuel machine).2.sink.text = machine.sink.text ++ printed := by
  obtain ⟨printed, hprinted⟩ := (interruptible_inside program).grows
    { machine with scope := .initial }
  refine ⟨printed, ?_⟩
  rw [snd_execute]
  exact congrArg Sink.text hprinted

/-- What has been printed when a run takes up a task, and when the task has ended, well or badly, is
still there behind the run. -/
theorem printed_of_visits {visit : Visit} (hvisit : program.Visits settings fuel machine visit)
    (hm : m = visit.machine ∨
      m = (perform settings fuel visit.calls visit.task).behind visit.machine) :
    ∃ printed, (program.execute settings fuel machine).2.sink.text = m.sink.text ++ printed := by
  obtain ⟨hordinary, hplain, -⟩ := (boundBefore_of_visits hvisit).reaches
  have hahead : Ahead m (perform settings fuel visit.calls visit.task) visit.machine := by
    rcases hm with rfl | rfl
    · exact (works_perform hordinary visit.task _ hplain).precedes
    · exact .refl _
  obtain ⟨printed, hprinted⟩ := (ahead_inside_of_visits hvisit hahead).sink
  refine ⟨printed, ?_⟩
  rw [snd_execute]
  exact congrArg Sink.text hprinted

end Program

/-- A sink that refuses texts only cuts a run short.

Beside the run on a machine whose sink takes every text, the run with any other sink that holds the
same has the same outcome, prints the same and leaves the same machine, or else it fails because the
sink has refused a text. Then the sink holds what was printed before that text and what it had room
for of it, and nothing more, which is a prefix of what the first run prints. In every run, what the
sink holds at the start, and when any task is taken up or has ended, well or badly, is still there
at the end, so a failure takes nothing back. -/
theorem refusal_only_cuts_short (settings : RunSettings) (fuel : Nat) (program : Program)
    {machine : Machine} {sink : Sink} (hopen : machine.sink.IsOpen)
    (htext : sink.text = machine.sink.text) :
    (program.execute settings fuel { machine with sink } =
          ((program.execute settings fuel machine).1,
            { (program.execute settings fuel machine).2 with
              sink := ⟨(program.execute settings fuel machine).2.sink.text, sink.room⟩ }) ∨
        (program.execute settings fuel { machine with sink }).1 =
            .failed (.runtimeError .printRefused) ∧
          (program.execute settings fuel { machine with sink }).2.sink.Stopped sink.room
            (program.execute settings fuel machine).2.sink.text ∧
          ∃ rest, (program.execute settings fuel machine).2.sink.text =
            (program.execute settings fuel { machine with sink }).2.sink.text ++ rest) ∧
      ∀ start m,
        (m = start ∨ ∃ visit, program.Visits settings fuel start visit ∧
          (m = visit.machine ∨
            m = (perform settings fuel visit.calls visit.task).behind visit.machine)) →
        ∃ printed,
          (program.execute settings fuel start).2.sink.text = m.sink.text ++ printed := by
  obtain ⟨held, room⟩ := sink
  obtain rfl : held = machine.sink.text := htext
  constructor
  · rcases program.execute_rationed room hopen with hsame | ⟨hfailed, hstopped⟩
    · exact .inl hsame
    · exact .inr ⟨hfailed, hstopped, hstopped.exists_append⟩
  · rintro start m (rfl | ⟨visit, hvisit, hm⟩)
    · exact Program.printed_before
    · exact Program.printed_of_visits hvisit hm

/-! ## A list that a sink has no room for -/

/-- A program that prints a text and a list, and then divides by zero. -/
def listingThenDividing : Program where
  globals := []
  functions := [⟨"main", [], some "Integer",
    [.expression (.call "print" [.literal (.string "all:") none] none none),
      .expression (.call "print"
        [.list [.literal (.integer (-1)) none, .literal (.string "a\nb") none] none] none none),
      .result (.binary .divide (.literal (.integer 1) none) (.literal (.integer 0) none) none)],
    none⟩]

/-- A sink that takes so many characters. -/
def Sink.holding (capacity : Nat) : Sink := ⟨"", fun held _ => capacity - held.length⟩

/-- With room for nine characters the run ends inside the list, between a comma and its blank. With
room for all sixteen that are printed it comes to the division, as without a limit. -/
theorem refusal_only_cuts_short_listing :
    (listingThenDividing.execute default 0 (.initial (.holding 9))).1 =
        .failed (.runtimeError .printRefused) ∧
      (listingThenDividing.execute default 0 (.initial (.holding 9))).2.sink.text = "all:\n[-1," ∧
      (∃ rest, (listingThenDividing.execute default 0 (.initial .unlimited)).2.sink.text =
        "all:\n[-1," ++ rest) ∧
      (listingThenDividing.execute default 0 (.initial (.holding 16))).1 =
        .failed (.runtimeError (.arithmetic .divisionByZero)) ∧
      (listingThenDividing.execute default 0 (.initial (.holding 16))).2.sink.text =
        (listingThenDividing.execute default 0 (.initial .unlimited)).2.sink.text := by
  have hdivides : (listingThenDividing.execute default 0 (.initial .unlimited)).1 =
      .failed (.runtimeError (.arithmetic .divisionByZero)) := by decide +kernel
  have hrefused : (listingThenDividing.execute default 0 (.initial (.holding 9))).1 =
      .failed (.runtimeError .printRefused) := by decide +kernel
  have hheld : (listingThenDividing.execute default 0 (.initial (.holding 9))).2.sink.text =
      "all:\n[-1," := by decide +kernel
  have htaken : (listingThenDividing.execute default 0 (.initial (.holding 16))).1 ≠
      .failed (.runtimeError .printRefused) := by decide +kernel
  obtain ⟨hnine, -⟩ := @refusal_only_cuts_short default 0 listingThenDividing
    (.initial .unlimited) (.holding 9) Sink.isOpen_unlimited rfl
  obtain ⟨hsixteen, -⟩ := @refusal_only_cuts_short default 0 listingThenDividing
    (.initial .unlimited) (.holding 16) Sink.isOpen_unlimited rfl
  rcases hnine with hsame | ⟨-, -, hprefix⟩
  · exact absurd (hrefused.symm.trans ((congrArg Prod.fst hsame).trans hdivides)) nofun
  rcases hsixteen with hsame | ⟨hfailed, -⟩
  · refine ⟨hrefused, hheld, hheld ▸ hprefix, ?_, ?_⟩
    · exact (congrArg Prod.fst hsame).trans hdivides
    · exact congrArg (fun run => run.2.sink.text) hsame
  · exact absurd hfailed htaken

end TinyScript
