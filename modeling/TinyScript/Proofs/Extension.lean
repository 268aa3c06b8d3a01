import TinyScript.Proofs.AnnotationIndependence
import TinyScript.Proofs.Typing.Similar
import TinyScript.Toolchain

/-!
# More names, fewer demands

A host may give names to types that the checker does not know by other names, and it may leave
groups alone. Neither changes what a name stood for before, so such settings are looser in the
sense of `Settings.Loosens`, and all that was accepted is accepted as the same tree: an added name
only matters to a program that asks for it, and that program was rejected.
-/

namespace TinyScript.Typing

variable {settings looser : Settings}

/-! ## Adding names -/

namespace TypeNames

/-- Makes each name in turn stand for its type. -/
def registerAll (names : TypeNames) (added : List (String × Ty)) : TypeNames :=
  added.foldl (fun names entry => names.register entry.1 entry.2) names

/-- Names that are added leave all other names alone. -/
theorem find?_registerAll {name : String} (names : TypeNames) {added : List (String × Ty)}
    (hother : ∀ entry ∈ added, entry.1 ≠ name) :
    (names.registerAll added).find? name = names.find? name := by
  induction added generalizing names with
  | nil => rfl
  | cons entry added ih =>
      obtain ⟨hentry, hadded⟩ := List.forall_mem_cons.mp hother
      show ((names.register entry.1 entry.2).registerAll added).find? name = names.find? name
      rw [ih _ hadded, find?_register, if_neg hentry.symm]

/-- What a name stands for stays when names that stand for nothing yet are added. -/
theorem find?_registerAll_of_fresh {names : TypeNames} {added : List (String × Ty)}
    (hfresh : ∀ entry ∈ added, names.find? entry.1 = none) {name : String} {ty : Ty}
    (hfound : names.find? name = some ty) : (names.registerAll added).find? name = some ty := by
  rw [find?_registerAll, hfound]
  rintro entry hentry rfl
  rw [hfresh entry hentry] at hfound
  cases hfound

end TypeNames

/-! ## Looser settings accept the same trees -/

namespace Settings

/-- Settings with names added, which take groups as strictly as a flag says. -/
def extend (settings : Settings) (added : List (String × Ty)) (strictGroups : Bool) : Settings :=
  ⟨settings.names.registerAll added, strictGroups⟩

theorem loosens_extend {added : List (String × Ty)} {strictGroups : Bool}
    (hfresh : ∀ entry ∈ added, settings.names.find? entry.1 = none)
    (hgroups : strictGroups = true → settings.strictGroups = true) :
    (settings.extend added strictGroups).Loosens settings where
  names := TypeNames.find?_registerAll_of_fresh hfresh
  groups := hgroups

/-- What is accepted is accepted under looser settings, with the same annotations. -/
theorem Loosens.check (hlooser : looser.Loosens settings) {program annotated : Program}
    (haccepted : program.check settings = .ok annotated) :
    program.check looser = .ok annotated := by
  unfold Program.check at haccepted ⊢
  cases hchecked : annotateProgram settings program .initial with
  | error fault after =>
      rw [hchecked] at haccepted
      cases haccepted
  | ok tree after =>
      rw [hchecked] at haccepted
      obtain ⟨after', hchecked', -⟩ :=
        carries_annotateProgram hlooser program _ _ _ _ (Context.Similar.refl _) hchecked
      rw [hchecked']
      exact haccepted

/-- What compiles does so under looser settings, to the same tree. -/
theorem Loosens.compile (hlooser : looser.Loosens settings) {tokens : List Token}
    {annotated : Program} (hcompiled : compile settings tokens = .ok annotated) :
    compile looser tokens = .ok annotated := by
  unfold TinyScript.compile at hcompiled ⊢
  cases hparsed : Program.parse tokens with
  | error error =>
      rw [hparsed] at hcompiled
      cases hcompiled
  | ok program =>
      rw [hparsed] at hcompiled
      simp only at hcompiled ⊢
      cases hchecked : program.check settings with
      | error error =>
          rw [hchecked] at hcompiled
          cases hcompiled
      | ok tree =>
          rw [hchecked] at hcompiled
          rw [hlooser.check hchecked]
          exact hcompiled

end Settings

/-- Extending a checker is conservative. When names that stood for nothing are given to any types,
and groups are taken as strictly as before or no longer strictly, every program that was accepted is
accepted with exactly the same annotations, and every text that compiled compiles to the same
tree. -/
theorem extension_is_conservative (settings : Settings) (added : List (String × Ty))
    (strictGroups : Bool) (hfresh : ∀ entry ∈ added, settings.names.find? entry.1 = none)
    (hgroups : strictGroups = true → settings.strictGroups = true) :
    (∀ program annotated : Program, program.check settings = .ok annotated →
        program.check (settings.extend added strictGroups) = .ok annotated) ∧
      ∀ source annotated, compile settings (Token.split source) = .ok annotated →
        compile (settings.extend added strictGroups) (Token.split source) = .ok annotated :=
  have hlooser := Settings.loosens_extend hfresh hgroups
  ⟨fun _ _ => hlooser.check, fun _ _ => hlooser.compile⟩

/-! ## An alias that comes later -/

/-- The program that needs a name for the integers is accepted by a checker that knows the name.
A checker that has two more names, one of them added twice, and that leaves groups alone accepts it
as the same tree. -/
theorem extension_is_conservative_money :
    (∀ entry ∈ [("Count", Ty.integer), ("Row", .list), ("Count", .decimal)],
        withMoney.names.find? entry.1 = none) ∧
      moneyProgram.check withMoney = .ok moneyChecked ∧
      moneyProgram.check
          (withMoney.extend [("Count", .integer), ("Row", .list), ("Count", .decimal)] false) =
        .ok moneyChecked ∧
      (withMoney.extend [("Count", .integer), ("Row", .list), ("Count", .decimal)]
        false).names.find? "Count" = some .decimal := by
  have hfresh : ∀ entry ∈ [("Count", Ty.integer), ("Row", .list), ("Count", .decimal)],
      withMoney.names.find? entry.1 = none := by decide
  have hchecked : moneyProgram.check withMoney = .ok moneyChecked := rfl
  obtain ⟨hcheck, -⟩ := extension_is_conservative withMoney _ false hfresh nofun
  exact ⟨hfresh, hchecked, hcheck _ _ hchecked, by decide⟩

end TinyScript.Typing
