import TinyScript.Proofs.Typing.Endings
import TinyScript.Proofs.Typing.Verdict

/-!
# Checking does not depend on annotations

Whatever annotations a program has already, checking it comes to the same answer: the same annotated
program or the same fault (`check_congr`). So checking may be done again at any time: a checked
program checks to itself, and a program that a fault has left half annotated is as good as the one
that was given, for a checker with other settings too.
-/

namespace TinyScript

namespace Typing

variable {settings : Settings}

namespace Check.Agree

variable {Tree Tree' α β : Type}

theorem get : Agree Eq (get : Check Tree Context) (get : Check Tree' Context) :=
  fun _ hc => .ok rfl hc

theorem notify (notice : Notice) :
    Agree Eq (Typing.notify notice : Check Tree Unit) (Typing.notify notice : Check Tree' Unit) :=
  fun _ hc => .ok rfl hc

theorem insideFunction {x : Check Tree α} {y : Check Tree' α} {returns : Option Ty}
    (h : Agree Eq x y) :
    Agree Eq (Typing.insideFunction returns x) (Typing.insideFunction returns y) := by
  intro c hc
  have h := h { c with returning := some returns } hc
  unfold Typing.insideFunction
  generalize x { c with returning := some returns } = left,
    y { c with returning := some returns } = right at h
  cases h with
  | ok ha hc₁ => exact .ok (ha ▸ rfl) hc₁
  | error hreason => exact .error hreason

theorem inferResult {function function' : Function} {returns : Ty}
    (hname : function.name = function'.name) (harity : function.arity = function'.arity) :
    Agree Eq (Typing.inferResult function returns : Check Tree Unit)
      (Typing.inferResult function' returns : Check Tree' Unit) := by
  intro c hc
  unfold Typing.inferResult
  rw [hname, harity]
  cases hfound : c.scope.current.lookupFunction function'.name function'.arity with
  | none => exact .ok rfl hc
  | some found =>
      have hparameters : found.parameters.length = function'.arity := hc.current hfound
      exact .ok rfl (hc.setFunction hparameters)

/-- Passes agree if what they do to each tree does. -/
theorem each {annotate : Tree → Check Tree Tree} {prepare : Tree → Tree} (left : Tree → Tree)
    (h : ∀ tree, Agree (fun output output' => output = left output') (annotate (prepare tree))
      (annotate tree)) :
    ∀ trees : List Tree, Agree (fun outputs outputs' => outputs = outputs'.map left)
      (annotateEach annotate (trees.map prepare)) (annotateEach annotate trees) := by
  intro trees
  induction trees with
  | nil => exact .pure rfl
  | cons tree trees ih =>
      refine (part (h tree)).bind fun output output' houtput => (part ih).bind
        fun outputs outputs' houtputs => .pure ?_
      rw [houtput, houtputs, List.map_cons]

end Check.Agree

/-! ## Globals, functions, programs -/

/-- A global is bound last, when its value has been annotated. -/
theorem agree_bound {tree tree' global : Global} {binding : VariableBinding} {notice : Notice} :
    Check.Agree Eq
      (do
        Check.define tree binding
        notify notice
        return global : Check Global Global)
      (do
        Check.define tree' binding
        notify notice
        return global : Check Global Global) :=
  .andThen (.define tree tree' binding) fun _ => .andThen (.notify notice) fun _ => .pure rfl

theorem agree_annotateGlobal (global : Global) :
    Check.Agree Eq (annotateGlobal settings (global.rewrite .erasing))
      (annotateGlobal settings global) := by
  obtain ⟨name, typeName, isMutable, value, binding⟩ := global
  unfold annotateGlobal
  refine .andThen (.require _ _ _) fun declared => ?_
  cases value with
  | none =>
      cases declared with
      | none => exact .andThen (.require _ _ _) fun _ => agree_bound
      | some ty => exact .andThen (.pure rfl) fun _ => agree_bound
  | some value =>
      exact .andThen (.expression value) fun checked => .andThen (.require _ _ _)
        fun named => .andThen (.pure rfl) fun _ => agree_bound

/-- The function, the annotations in its body being emptied. -/
def eraseBody (function : Function) : Function :=
  { function with body := rewriteStatements .erasing function.body }

theorem length_of_declaredSignature {names : TypeNames} {function : Function}
    {signature : Signature} (h : declaredSignature names function = .ok signature) :
    signature.parameters.length = function.arity := by
  simp only [declaredSignature, Except.bind_eq_ok, Except.pure_eq_ok] at h
  obtain ⟨parameters, hparameters, _, -, rfl⟩ := h
  exact length_parameterTypes hparameters

/-- Registering a function does not look at its body. -/
theorem agree_registerFunction (function : Function) :
    Check.Agree (fun output output' => output = eraseBody output')
      (registerFunction settings (function.rewrite .erasing))
      (registerFunction settings function) := by
  intro c hc
  -- The header has no annotations but the signature, which is not looked at.
  have hsame : declaredSignature settings.names (function.rewrite .erasing) =
      declaredSignature settings.names function := rfl
  rw [registerFunction_apply, registerFunction_apply, hsame]
  cases hsignature : declaredSignature settings.names function with
  | error reason => exact .error rfl
  | ok signature =>
      have hname : (function.rewrite .erasing).name = function.name := rfl
      have harity : (function.rewrite .erasing).arity = function.arity := rfl
      simp only [hname, harity]
      cases hscope : c.scope.defineFunction? function.name function.arity signature with
      | none => exact .error rfl
      | some scope =>
          exact .ok rfl (hc.defineFunction hscope (length_of_declaredSignature hsignature))

theorem agree_defineParameters (tree tree' : List Statement) :
    ∀ (parameters : List Parameter) (types : List Ty),
      Check.Agree Eq (defineParameters tree parameters types)
        (defineParameters tree' parameters types)
  | [], _ => by
      unfold defineParameters
      exact .pure rfl
  | _ :: _, [] => by
      unfold defineParameters
      exact .pure rfl
  | parameter :: parameters, ty :: types => by
      unfold defineParameters
      exact .andThen (.define _ _ _) fun _ => agree_defineParameters tree tree' parameters types

theorem agree_annotateBody (parameters : List Parameter) (types : List Ty) (body : List Statement) :
    Check.Agree Eq (annotateBody settings parameters types (rewriteStatements .erasing body))
      (annotateBody settings parameters types body) :=
  .inBlock (.andThen (agree_defineParameters _ _ parameters types) fun _ =>
    agree_annotateStatements body)

theorem agree_annotateFunction (function : Function) :
    Check.Agree Eq (annotateFunction settings (eraseBody function))
      (annotateFunction settings function) := by
  obtain ⟨name, parameters, returnTypeName, body, signature⟩ := function
  unfold annotateFunction
  cases signature with
  | none => exact .require _ _ _
  | some signature =>
      refine .andThen (.part (.insideFunction (agree_annotateBody parameters _ body)))
        fun (body', known) => ?_
      cases returnTypeName with
      | some typeName => exact .pure rfl
      | none =>
          exact .andThen (.inferResult rfl rfl) fun _ => .andThen (.notify _) fun _ => .pure rfl

theorem agree_annotateProgram (program : Program) :
    Check.Agree Eq (annotateProgram settings (program.rewrite .erasing))
      (annotateProgram settings program) := by
  unfold annotateProgram
  -- Registering a function gives it back with the body it had, so the trees differ in the bodies
  -- until these are annotated in the last pass.
  refine (Check.Agree.part (.each eraseBody agree_registerFunction program.functions)).bind ?_
  rintro functions functions' rfl
  refine (Check.Agree.part (.each id agree_annotateGlobal program.globals)).bind ?_
  rintro globals globals' rfl
  refine (Check.Agree.part (.each id agree_annotateFunction functions')).bind ?_
  rintro annotated annotated' rfl
  simp only [List.map_id]
  exact .andThen .get fun context => .andThen (.require _ _ _) fun _ => .andThen (.notify _)
    fun _ => .pure rfl

theorem rewrite_of_fault {program : Program} {fault : Fault Program} {c c' : Context}
    (h : annotateProgram settings program c = .error fault c') :
    fault.tree.rewrite .erasing = program.rewrite .erasing :=
  ((ends_annotateProgram program c).of_error h).1

end Typing

open Typing

theorem check_erasing (settings : Settings) (program : Program) :
    (program.rewrite .erasing).check settings = program.check settings := by
  have h := @agree_annotateProgram settings program .initial .rootScope
  unfold Program.check
  generalize annotateProgram settings (program.rewrite .erasing) .initial = left,
    annotateProgram settings program .initial = right at h
  cases h with
  | ok hannotated => rw [hannotated]
  | error hreason => exact congrArg Except.error hreason

/-- Programs that differ in annotations only check to the same answer. -/
theorem check_congr {program other : Program} (settings : Settings)
    (h : other.rewrite .erasing = program.rewrite .erasing) :
    other.check settings = program.check settings := by
  rw [← check_erasing settings other, h, check_erasing]

/-- What comes of checking a program does not depend on the annotations that it has already: a
program that differs from it in annotations only has the same answer, a checked program checks to
itself, and a program that a fault has left half annotated checks, under any settings, as the one
that was given. -/
theorem check_ignores_annotations (settings : Settings) (program : Program) :
    (∀ other : Program, other.rewrite .erasing = program.rewrite .erasing →
        other.check settings = program.check settings) ∧
      (∀ annotated, program.check settings = .ok annotated →
        annotated.check settings = .ok annotated) ∧
      ∀ fault after, annotateProgram settings program .initial = .error fault after →
        ∀ later : Settings, fault.tree.check later = program.check later := by
  refine ⟨fun other => check_congr settings, ?_, ?_⟩
  · intro annotated h
    obtain ⟨_, _, _, _, haccepts⟩ := accepts_of_check h
    rw [check_congr settings haccepts.erase, h]
  · intro fault after h later
    exact check_congr later (rewrite_of_fault h)

/-! ## A missing type name -/

/-- Settings with a name for the integers that comes from the host. -/
def withMoney : Settings := ⟨TypeNames.builtin.register "Money" .integer, true⟩

/-- A program that needs the name, behind a declaration that does not. -/
def moneyProgram : Program where
  globals := []
  functions := [⟨"main", [], some "Integer",
    [.declaration "x" none (some (.literal (.integer 1) none)) none,
      .declaration "y" (some "Money") (some (.access "x" none none)) none,
      .result (.access "y" none none)], none⟩]

/-- The same program as a checker without the name leaves it. -/
def moneyHalf : Program where
  globals := []
  functions := [⟨"main", [], some "Integer",
    [.declaration "x" none (some (.literal (.integer 1) (some .integer)))
        (some ⟨"x", .integer, none, true⟩),
      .declaration "y" (some "Money") (some (.access "x" none none)) none,
      .result (.access "y" none none)], some ⟨"main", [], .integer⟩⟩]

/-- The same program as a checker with the name leaves it. -/
def moneyChecked : Program where
  globals := []
  functions := [⟨"main", [], some "Integer",
    [.declaration "x" none (some (.literal (.integer 1) (some .integer)))
        (some ⟨"x", .integer, none, true⟩),
      .declaration "y" (some "Money")
        (some (.access "x" (some ⟨"x", .integer, none, true⟩) (some .integer)))
        (some ⟨"y", .integer, none, true⟩),
      .result (.access "y" (some ⟨"y", .integer, none, true⟩) (some .integer))],
    some ⟨"main", [], .integer⟩⟩]

/-- The program fails for want of the name; when a host has added it, what the failure has left
checks like the program itself, and the checked program checks to itself. -/
theorem check_ignores_annotations_money :
    (∃ after, annotateProgram default moneyProgram .initial =
        .error ⟨.unknownType "Money", moneyHalf⟩ after) ∧
      moneyProgram.check withMoney = .ok moneyChecked ∧
      moneyHalf.rewrite .erasing = moneyProgram.rewrite .erasing ∧
      moneyHalf.check withMoney = .ok moneyChecked ∧
      moneyChecked.check withMoney = .ok moneyChecked ∧
      moneyHalf.check default = moneyProgram.check default := by
  have hfault : ∃ after, annotateProgram default moneyProgram .initial =
      .error ⟨.unknownType "Money", moneyHalf⟩ after := ⟨_, rfl⟩
  have hchecked : moneyProgram.check withMoney = .ok moneyChecked := rfl
  have hsame : moneyHalf.rewrite .erasing = moneyProgram.rewrite .erasing := rfl
  obtain ⟨after, hafter⟩ := hfault
  obtain ⟨hcongr, -, hleft⟩ := check_ignores_annotations default moneyProgram
  obtain ⟨-, hagain, -⟩ := check_ignores_annotations withMoney moneyProgram
  exact ⟨⟨after, hafter⟩, hchecked, hsame, (hleft _ after hafter withMoney).trans hchecked,
    hagain moneyChecked hchecked, hcongr moneyHalf hsame⟩

end TinyScript
