import TinyScript.Proofs.Naming
import TinyScript.Proofs.Run.Outcome

/-!
# The order of globals

The checker checks the bodies of functions when all globals are bound, but a run may call functions
while it evaluates the globals, and then only those in front are there. So a run of an accepted
program can fail for an undeclared name, and it does exactly when the initial value of a global, in
whatever functions it calls, comes to use that global or a later one.
-/

namespace TinyScript

open Typing Run

/-- While it evaluates the initial value of a global, a run looks up a name that the checker has
found in the root frame, as the name of that global or of a later one. -/
def Program.ReadsEarly (settings : Settings) (rules : RunSettings) (fuel : Nat)
    (program : Program) (machine : Machine) (source : Program) (name : String) : Prop :=
  ∃ earlier global later start visit item c,
    program.Initial rules fuel machine earlier global later start ∧
      Run.Visits rules fuel start visit ∧ visit.task.variable? = some name ∧
      Checked settings source visit.site.owner visit.site.place item c ∧
      c.scope.variableDepth? name = some c.scope.depth ∧
      name ∈ (global :: later).map Global.name

/-- Which globals are missing at a stage. -/
theorem Accepts.lookup_missing {settings : Settings} {source annotated : Program}
    {functions : List Function} {c₀ c₁ c₂ : Context} {d : Discipline} {name : String}
    (h : Accepts settings source annotated functions c₀ c₁ c₂) (hadmits : annotated.Admits d)
    {earlier later : List Global} (hsplit : annotated.globals = earlier ++ later) :
    (∃ binding, (h.stage hadmits earlier later hsplit).missing.lookup name = some binding) ↔
      name ∈ later.map Global.name := by
  have hkeys :
      ((later.map globalEntry).reverse).map Prod.fst = (later.map Global.name).reverse := by
    rw [List.map_reverse, List.map_map]
    rfl
  show (∃ binding, ((later.map globalEntry).reverse).lookup name = some binding) ↔ _
  rw [← Option.ne_none_iff_exists', ne_eq, lookup_eq_none_iff_keys, not_not, hkeys,
    List.mem_reverse]

/-- A run of an accepted program fails for an undeclared name exactly when it reads a global
early. -/
theorem undeclared_iff_readsEarly {settings : Settings} {rules : RunSettings} {fuel : Nat}
    {machine : Machine} {source annotated : Program}
    (hcheck : source.check settings = .ok annotated) (name : String) :
    (∃ m', annotated.run rules fuel machine = .error (.failed (.undeclared name)) m') ↔
      annotated.ReadsEarly settings rules fuel machine source name := by
  obtain ⟨functions, c₀, c₁, c₂, h⟩ := accepts_of_check hcheck
  have hadmits := annotated.admits_names
  constructor
  · rintro ⟨m', hrun⟩
    cases Program.breaks_of_run hrun with
    | visit hvisits hraises =>
        obtain ⟨start, ⟨earlier, global, later, hinitial⟩ | hmain, hvisits⟩ := hvisits
        · -- What is missing at the stage of a global is this global and those behind it.
          obtain ⟨hsplit, hreached⟩ := h.reached_initial hadmits hinitial
          obtain ⟨ordinary, hchecked, hfitting⟩ := hreached.of_visits hvisits
          obtain ⟨_, binding, herror, hname, hmissing, hdepth⟩ :=
            hfitting.undeclared_of_raises (sound_of_performs ordinary) hraises trivial
          cases herror
          exact ⟨earlier, global, later, start, _, _, _, hinitial, hvisits, hname, hchecked,
            hdepth, (h.lookup_missing hadmits hsplit).mp ⟨binding, hmissing⟩⟩
        · obtain ⟨ordinary, -, hfitting⟩ := (h.reached_main hadmits hmain).of_visits hvisits
          obtain ⟨_, _, -, -, hmissing, -⟩ :=
            hfitting.undeclared_of_raises (sound_of_performs ordinary) hraises trivial
          cases hmissing
    | main hinitialises hraises =>
        exact absurd trivial (h.not_concernsNames_of_main hinitialises hraises)
    | result _ _ hresult => cases mainResult_eq_error hresult
  · rintro ⟨earlier, global, later, start, visit, item, c, hinitial, hvisits, hname, hchecked,
      hdepth, hmem⟩
    obtain ⟨hsplit, hreached⟩ := h.reached_initial hadmits hinitial
    obtain ⟨-, hchecked', hfitting⟩ := hreached.of_visits hvisits
    obtain ⟨rfl, rfl⟩ := h.unique hchecked hchecked'
    obtain ⟨binding, hmissing⟩ := (h.lookup_missing hadmits hsplit).mpr hmem
    have hnone := hfitting.stands.agrees.lookup_missing hmissing hdepth
    exact Program.run_of_initial hinitial (fails_of_visits hvisits (fails_of_lookup hname hnone))

/-- A program whose first global calls a function that reads the second one. -/
def earlyRead : Program where
  globals :=
    [⟨"a", none, true, some (.call "f" [] none none), none⟩,
      ⟨"b", none, true, some (.literal (.integer 1) none), none⟩]
  functions :=
    [⟨"f", [], some "Integer", [.result (.access "b" none none)], none⟩,
      ⟨"main", [], some "Integer", [.result (.access "a" none none)], none⟩]

/-- The same program with its annotations. -/
def earlyReadChecked : Program where
  globals :=
    [⟨"a", none, true, some (.call "f" [] (some ⟨"f", [], .integer⟩) (some .integer)),
        some ⟨"a", .integer, none, true⟩⟩,
      ⟨"b", none, true, some (.literal (.integer 1) (some .integer)),
        some ⟨"b", .integer, none, true⟩⟩]
  functions :=
    [⟨"f", [], some "Integer",
        [.result (.access "b" (some ⟨"b", .integer, none, true⟩) (some .integer))],
        some ⟨"f", [], .integer⟩⟩,
      ⟨"main", [], some "Integer",
        [.result (.access "a" (some ⟨"a", .integer, none, true⟩) (some .integer))],
        some ⟨"main", [], .integer⟩⟩]

/-- The root frame in which the checker looks at the functions of the program. -/
def earlyReadFrame : Frame VariableBinding Signature where
  vars := [("b", ⟨"b", .integer, none, true⟩), ("a", ⟨"a", .integer, none, true⟩)]
  funs :=
    [(("main", 0), ⟨"main", [], .integer⟩), (("f", 0), ⟨"f", [], .integer⟩),
      (("print", 1), printSignature)]

theorem check_earlyRead : earlyRead.check default = .ok earlyReadChecked := by
  have hglobals : annotateEach (annotateGlobal default) earlyRead.globals
      ⟨.root { earlyReadFrame with vars := [] }, none,
        [.functionRegistered "main" 0, .functionRegistered "f" 0]⟩ =
      .ok earlyReadChecked.globals
        ⟨.root earlyReadFrame, none,
          [.globalRegistered "b" .integer, .globalRegistered "a" .integer,
            .functionRegistered "main" 0, .functionRegistered "f" 0]⟩ := rfl
  exact check_of_accepts ⟨rfl, hglobals, rfl, rfl⟩

/-- The program is accepted and fails, since it reads its second global early. -/
theorem undeclared_iff_readsEarly_earlyRead :
    earlyRead.check default = .ok earlyReadChecked ∧
      (∃ m', earlyReadChecked.run default 1 (.initial .unlimited) =
        .error (.failed (.undeclared "b")) m') ∧
      earlyReadChecked.ReadsEarly default default 1 (.initial .unlimited) earlyRead "b" := by
  have hexecute : (earlyReadChecked.execute default 1 (.initial .unlimited)).1 =
      .failed (.runtimeError (.undeclared "b")) := by decide +kernel
  have hrun := Program.run_of_execute hexecute
  exact ⟨check_earlyRead, hrun, (undeclared_iff_readsEarly check_earlyRead "b").mp hrun⟩

end TinyScript
