import TinyScript.Proofs.Certificate.Erasure
import TinyScript.Proofs.Certificate.Program

/-!
# The annotated tree certifies the typing

What the checker gives back is the program it was given, with every annotation filled in
(`Accepts.erase`), and the annotations are right by the tree alone
(`Certificate.certifiesProgram_of_accepts`): whoever goes on from the tree needs neither the checker
nor its scopes to see that the program is well typed and what every name stands for.
-/

namespace TinyScript

open Certificate Typing

/-- A checked program is the source with all annotations filled in, and it keeps to the rules of
certificates: each annotation follows from those of the parts of its node and from those of the
declarations that are visible there. -/
theorem certifiesProgram_of_check {settings : Settings} {source annotated : Program}
    (h : source.check settings = .ok annotated) :
    annotated.rewrite .erasing = source.rewrite .erasing ∧ annotated.isFilled = true ∧
      CertifiesProgram settings.names annotated := by
  obtain ⟨functions, c₀, c₁, c₂, haccepts⟩ := accepts_of_check h
  have hcertified := certifiesProgram_of_accepts haccepts
  exact ⟨haccepts.erase, hcertified.isFilled, hcertified⟩

/-- A function without a declared result, whose parameter hides a global. -/
def itemFunction : Function :=
  ⟨"item", [⟨"n", "Integer"⟩], none, [.result (.element "xs" (.access "n" none none) none none)],
    none⟩

/-- The same function with its annotations. -/
def itemChecked : Function :=
  ⟨"item", [⟨"n", "Integer"⟩], none,
    [.result (.element "xs" (.access "n" (some ⟨"n", .integer, none, true⟩) (some .integer))
      (some ⟨"xs", .list, some .integer, true⟩) (some .integer))],
    some ⟨"item", [.integer], .integer⟩⟩

/-- A function that hides the global inside a block. -/
def hidingMain : Function :=
  ⟨"main", [], some "Integer",
    [.branch (.literal (.boolean true) none)
        [.declaration "n" none (some (.literal (.integer 1) none)) none,
          .result (.call "item" [.access "n" none none] none none)] [],
      .expression (.call "print" [.access "n" none none] none none),
      .result (.literal (.integer 0) none)],
    none⟩

/-- The same function with its annotations. -/
def hidingMainChecked : Function :=
  ⟨"main", [], some "Integer",
    [.branch (.literal (.boolean true) (some .boolean))
        [.declaration "n" none (some (.literal (.integer 1) (some .integer)))
            (some ⟨"n", .integer, none, true⟩),
          .result (.call "item" [.access "n" (some ⟨"n", .integer, none, true⟩) (some .integer)]
            (some ⟨"item", [.integer], .integer⟩) (some .integer))] [],
      .expression (.call "print" [.access "n" (some ⟨"n", .any, none, true⟩) (some .any)]
        (some printSignature) (some .nil)),
      .result (.literal (.integer 0) (some .integer))],
    some ⟨"main", [], .integer⟩⟩

/-- A program in which a name is bound by a global, by a parameter and inside a block, and in which
a function without a declared result is called in front of its body and behind it. -/
def hiddenNames : Program where
  globals :=
    [⟨"n", none, true, some (.call "item" [.literal (.integer 0) none] none none), none⟩,
      ⟨"xs", some "Integer", true, some (.list [.literal (.integer 1) none] none), none⟩]
  functions := [itemFunction, hidingMain]

/-- The same program with its annotations. -/
def hiddenNamesChecked : Program where
  globals :=
    [⟨"n", none, true,
        some (.call "item" [.literal (.integer 0) (some .integer)]
          (some ⟨"item", [.integer], .any⟩) (some .any)),
        some ⟨"n", .any, none, true⟩⟩,
      ⟨"xs", some "Integer", true,
        some (.list [.literal (.integer 1) (some .integer)] (some .list)),
        some ⟨"xs", .list, some .integer, true⟩⟩]
  functions := [itemChecked, hidingMainChecked]

/-- The root frame when the globals have been checked and a call of the function gives the given
type. -/
def hiddenNamesFrame (returns : Ty) : Frame VariableBinding Signature where
  vars := [("xs", ⟨"xs", .list, some .integer, true⟩), ("n", ⟨"n", .any, none, true⟩)]
  funs :=
    [(("main", 0), ⟨"main", [], .integer⟩), (("item", 1), ⟨"item", [.integer], returns⟩),
      (("print", 1), printSignature)]

theorem check_hiddenNames : hiddenNames.check default = .ok hiddenNamesChecked := by
  let registrations := [Notice.functionRegistered "main" 0, .functionRegistered "item" 1]
  let notices := .globalRegistered "xs" .list :: .globalRegistered "n" .any :: registrations
  have hregistered : annotateEach (registerFunction default) hiddenNames.functions .initial =
      .ok [{ itemFunction with signature := some ⟨"item", [.integer], .any⟩ },
          { hidingMain with signature := some ⟨"main", [], .integer⟩ }]
        ⟨.root { hiddenNamesFrame .any with vars := [] }, none, registrations⟩ := rfl
  have hglobals : annotateEach (annotateGlobal default) hiddenNames.globals
      ⟨.root { hiddenNamesFrame .any with vars := [] }, none, registrations⟩ =
      .ok hiddenNamesChecked.globals ⟨.root (hiddenNamesFrame .any), none, notices⟩ := rfl
  have hitem : annotateFunction default
      { itemFunction with signature := some ⟨"item", [.integer], .any⟩ }
      ⟨.root (hiddenNamesFrame .any), none, notices⟩ =
      .ok itemChecked ⟨.root (hiddenNamesFrame .integer), none,
        .resultInferred "item" .integer :: notices⟩ := rfl
  have hmain : annotateFunction default
      { hidingMain with signature := some ⟨"main", [], .integer⟩ }
      ⟨.root (hiddenNamesFrame .integer), none, .resultInferred "item" .integer :: notices⟩ =
      .ok hidingMainChecked ⟨.root (hiddenNamesFrame .integer), none,
        .resultInferred "item" .integer :: notices⟩ := rfl
  have hbodies : annotateEach (annotateFunction default)
      [{ itemFunction with signature := some ⟨"item", [.integer], .any⟩ },
        { hidingMain with signature := some ⟨"main", [], .integer⟩ }]
      ⟨.root (hiddenNamesFrame .any), none, notices⟩ =
      .ok hiddenNamesChecked.functions ⟨.root (hiddenNamesFrame .integer), none,
        .resultInferred "item" .integer :: notices⟩ := by
    simp only [annotateEach, bind_eq_ok, Check.part_eq_ok, pure_eq_ok]
    exact ⟨_, _, hitem, _, _, ⟨_, _, hmain, _, _, ⟨rfl, rfl⟩, rfl, rfl⟩, rfl, rfl⟩
  exact check_of_accepts ⟨hregistered, hglobals, hbodies, rfl⟩

/-- In front of its body the function is known to return anything, and behind it an integer. -/
theorem certifiesProgram_of_check_hiddenNames :
    hiddenNames.check default = .ok hiddenNamesChecked ∧
      hiddenNamesChecked.rewrite .erasing = hiddenNames.rewrite .erasing ∧
      hiddenNamesChecked.isFilled = true ∧
      CertifiesProgram TypeNames.builtin hiddenNamesChecked :=
  ⟨check_hiddenNames, certifiesProgram_of_check check_hiddenNames⟩

end TinyScript
