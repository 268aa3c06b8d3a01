import TinyScript.Proofs.Decimal.Displayed
import TinyScript.Proofs.Run.Program
import TinyScript.Proofs.Stage
import TinyScript.Proofs.Tree.Shapes

/-!
# A program that shows a scale

A decimal taken from itself leaves a zero of its scale. Added to a large number that ends in zeros
it makes the sum finer if it is finer itself, and a quotient has the scale of its dividend. So a
seventh of the sum, in plain notation, is an integer that does not end in zero only if the scale is
zero. The program `probe` prints this seventh, whatever the decimal (`printed_probe`).
-/

namespace TinyScript

open Typing

/-! ## A seventh -/

namespace Decimal

theorem sub_self (d : Decimal) : d.sub d = ⟨0, d.scale⟩ := by
  obtain ⟨unscaled, scale⟩ := d
  by_cases hzero : unscaled = 0
  · simp [sub, isZero, hzero]
  · simp [sub, isZero, hzero]

/-- In plain notation a scale other than zero leaves a point or a zero at the end. -/
theorem plainChars_of_scale_ne_zero {d : Decimal} (h : d.scale ≠ 0) :
    '.' ∈ d.plainChars ∨ d.plainChars.getLast? = some '0' := by
  unfold plainChars
  split
  · next hscale =>
      right
      split
      · rfl
      · rw [List.getLast?_append, List.getLast?_replicate, if_neg (by omega), Option.some_or]
  · left
    simp [pointed]

/-- A seventh of a large number, at the scale of a decimal if that is finer. -/
def seventh (d : Decimal) : Decimal :=
  Arithmetic.divideAtScale (add ⟨50, -16⟩ (d.sub d)) ⟨70, 1⟩ (add ⟨50, -16⟩ (d.sub d)).scale

theorem scale_seventh (d : Decimal) : d.seventh.scale = max (-16) d.scale := by
  rw [seventh, Arithmetic.scale_divideAtScale, sub_self]
  rfl

theorem plainChars_seventh_displayed {d : Decimal} (h : ¬ d.KeepsScale) :
    d.displayed.seventh.plainChars = "71428571428571429".toList := by
  have hscale : d.displayed.scale = 0 := by
    unfold KeepsScale at h
    unfold displayed
    split
    · rfl
    · next hzero =>
        rw [if_neg hzero] at h
        rw [if_pos (by omega)]
  rw [seventh, sub_self, hscale]
  decide +kernel

theorem plainChars_seventh_ne {d : Decimal} (h : ¬ d.KeepsScale) :
    d.seventh.plainChars ≠ "71428571428571429".toList := by
  have hscale : d.seventh.scale ≠ 0 := by
    rw [scale_seventh]
    unfold KeepsScale trailingZeroLimit at h
    split at h <;> omega
  intro heq
  rcases plainChars_of_scale_ne_zero hscale with hpoint | hlast
  · rw [heq] at hpoint
    exact absurd hpoint (by decide +kernel)
  · rw [heq] at hlast
    exact absurd hlast (by decide +kernel)

end Decimal

/-! ## The program -/

/-- The seventh, in an expression whose parts have the given type. -/
def seventhOf (value : Decimal) (ty : Option Ty) : Expression :=
  let literal (value : Decimal) : Expression := .literal (.decimal value) ty
  let nothing := Expression.group (.binary .subtract (literal value) (literal value) ty) ty
  .binary .divide (.group (.binary .add (literal ⟨50, -16⟩) nothing ty) ty) (literal ⟨70, 1⟩) ty

/-- The words of a program that prints the seventh for the decimal in a word of four characters. -/
def probeWords (word : String) : List Token :=
  [⟨.identifier, "VAL", 0⟩, ⟨.identifier, "shown", 4⟩, ⟨.operator, "=", 10⟩,
    ⟨.identifier, "print", 12⟩, ⟨.operator, "(", 18⟩, ⟨.operator, "(", 20⟩,
    ⟨.decimal, "5.0e17", 22⟩, ⟨.operator, "+", 29⟩, ⟨.operator, "(", 31⟩, ⟨.decimal, word, 33⟩,
    ⟨.operator, "-", 38⟩, ⟨.decimal, word, 40⟩, ⟨.operator, ")", 45⟩, ⟨.operator, ")", 47⟩,
    ⟨.operator, "/", 49⟩, ⟨.decimal, "7.0", 51⟩, ⟨.operator, ")", 55⟩, ⟨.operator, ";", 57⟩,
    ⟨.identifier, "FUN", 59⟩, ⟨.identifier, "main", 63⟩, ⟨.operator, "(", 68⟩,
    ⟨.operator, ")", 70⟩, ⟨.operator, ":", 72⟩, ⟨.identifier, "Integer", 74⟩,
    ⟨.identifier, "DO", 82⟩, ⟨.identifier, "RETURN", 85⟩, ⟨.integer, "0", 92⟩,
    ⟨.operator, ";", 94⟩, ⟨.identifier, "END", 96⟩]

/-- What the words are read as. -/
def probeTree (value : Decimal) : Program where
  globals := [⟨"shown", none, false, some (.call "print" [seventhOf value none] none none), none⟩]
  functions := [⟨"main", [], some "Integer", [.result (.literal (.integer 0) none)], none⟩]

/-- The same program with its annotations. -/
def probe (value : Decimal) : Program where
  globals :=
    [⟨"shown", none, false,
      some (.call "print" [seventhOf value (some .decimal)] (some printSignature) (some .nil)),
      some ⟨"shown", .nil, none, false⟩⟩]
  functions :=
    [⟨"main", [], some "Integer", [.result (.literal (.integer 0) (some .integer))],
      some ⟨"main", [], .integer⟩⟩]

theorem nesting_probe (value : Decimal) : (probe value).toJson.nesting ≤ textNestingLimit := by
  have hzero : encodeInteger 0 = .array [.ofInt 0, .array []] := by
    simp [encodeInteger, digitsOfBase, Json.ofList]
  simp only [probe, Program.toJson, Function.toJson, Json.ofList, List.map_cons, List.map_nil,
    encodeStatements, Statement.toJson, Expression.toJson, Literal.toJson, hzero]
  exact Nat.le_of_ble_eq_true rfl

/-! ### Checking it -/

/-- The context when the function has been registered and the given globals have been bound. -/
def probeContext (globals : List (String × VariableBinding)) (notices : List Notice) : Context where
  scope :=
    .root ⟨globals, [(("main", 0), ⟨"main", [], .integer⟩), (("print", 1), printSignature)]⟩
  returning := none
  notices := notices ++ [.functionRegistered "main" 0]

theorem annotateExpression_seventhOf {scope : StaticScope} {value : Decimal}
    (h : value.isInRange = true) :
    annotateExpression default scope (seventhOf value none) =
      .ok (seventhOf value (some .decimal), .decimal) := by
  have hlarge : Decimal.isInRange ⟨50, -16⟩ = true := by decide +kernel
  have hseven : Decimal.isInRange ⟨70, 1⟩ = true := by decide +kernel
  simp only [seventhOf, annotateExpression, literalType, if_pos h, if_pos hlarge, if_pos hseven]
  rfl

theorem check_probeTree {value : Decimal} (h : value.isInRange = true) :
    (probeTree value).check default = .ok (probe value) := by
  have hprint : annotateExpression default (probeContext [] []).scope
      (.call "print" [seventhOf value none] none none) =
        .ok (.call "print" [seventhOf value (some .decimal)] (some printSignature) (some .nil),
          .nil) := by
    have hlookup : (probeContext [] []).scope.lookupFunction "print" 1 =
        some (printSignature, (probeContext [] []).scope) := rfl
    rw [annotateExpression, List.length_singleton, hlookup]
    simp only [printSignature, annotateArguments, annotateExpression_seventhOf h]
    rfl
  have hregistered : annotateEach (registerFunction default) (probeTree value).functions .initial =
      .ok _ (probeContext [] []) := rfl
  let bound :=
    probeContext [("shown", ⟨"shown", .nil, none, false⟩)] [.globalRegistered "shown" .nil]
  have hglobal : annotateGlobal default
      ⟨"shown", none, false, some (.call "print" [seventhOf value none] none none), none⟩
      (probeContext [] []) = .ok (probe value).globals.head! bound := by
    refine bind_eq_ok.mpr ⟨none, _, rfl, ?_⟩
    exact bind_eq_ok.mpr ⟨_, _, Check.expression_eq_ok.mpr ⟨hprint, rfl⟩, rfl⟩
  have hglobals : annotateEach (annotateGlobal default) (probeTree value).globals
      (probeContext [] []) = .ok (probe value).globals bound :=
    bind_eq_ok.mpr ⟨_, _, Check.part_eq_ok.mpr hglobal, rfl⟩
  exact check_of_accepts ⟨hregistered, hglobals, rfl, rfl⟩

theorem compile_probeWords {word : String} {value : Decimal}
    (hparse : Program.parse (probeWords word) = .ok (probeTree value))
    (h : value.isInRange = true) : compile default (probeWords word) = .ok (probe value) := by
  simp only [compile, hparse, check_probeTree h]

/-! ### Running it -/

section Printing

open Run

variable {m : Machine}

theorem print_eq {text : String} (hopen : m.sink.IsOpen) :
    print text m = .ok () { m with sink := { m.sink with text := m.sink.text ++ text } } := by
  simp only [print, hopen.refuses, hopen.write, Bool.false_eq_true, if_false]

theorem evaluate_seventhOf (settings : RunSettings) (calls : Calls) (value : Decimal)
    (ty : Option Ty) (m : Machine) :
    evaluate settings calls (seventhOf value ty) m = .ok (.decimal value.seventh) m := by
  have hfits (dividend : Decimal) :
      Operator.divide.overflows (.decimal dividend) (.decimal ⟨70, 1⟩) = false := by
    rw [Operator.overflows, Arithmetic.divisionOverflows_self]
    rfl
  refine bind_eq_ok.mpr ⟨.decimal (.add ⟨50, -16⟩ (value.sub value)), m, rfl, ?_⟩
  exact bind_eq_ok.mpr ⟨.decimal ⟨70, 1⟩, m, rfl, operate_eq_ok.mpr ⟨hfits _, rfl, rfl⟩⟩

theorem piecesOf_decimal {value : Decimal} : piecesOf (.decimal value) m = .ok [value.plain] m := by
  simp [piecesOf, Lists.pieces, Lists.piecesWithin, Lists.scalarPieces, Lists.scalarText]

/-- What a program prints on a machine with room for everything. -/
def Program.printed (program : Program) : String :=
  (program.execute default 0 (.initial .unlimited)).2.sink.text

theorem printed_probe (value : Decimal) :
    (probe value).printed = "" ++ value.seventh.plain ++ "\n" := by
  -- The machine when the functions are bound, and when each of the two texts has been printed.
  let linked := (probe value).linked
  let m : Machine := { Machine.initial .unlimited with scope := .root ⟨[], linked⟩ }
  let m₁ : Machine := { m with notices := [.call "print" 1] }
  let m₂ : Machine := { m₁ with sink := { m.sink with text := "" ++ value.seventh.plain } }
  let m₃ : Machine := { m₁ with sink := { m.sink with text := "" ++ value.seventh.plain ++ "\n" } }
  have hpieces : printEach [value.seventh.plain] m₁ = .ok () m₂ :=
    bind_eq_ok.mpr ⟨(), m₂, print_eq Sink.isOpen_unlimited, rfl⟩
  have hline : printLine [value.seventh.plain] m₁ = .ok () m₃ :=
    bind_eq_ok.mpr ⟨(), m₂, hpieces, print_eq Sink.isOpen_unlimited⟩
  have hprint : printAll [.decimal value.seventh] m₁ = .ok () m₃ :=
    bind_eq_ok.mpr ⟨_, _, piecesOf_decimal, bind_eq_ok.mpr ⟨(), m₃, hline, rfl⟩⟩
  have hdispatch : callWithin default 0 (9999 + 1) "print" [.decimal value.seventh] m =
      .ok .nil m₃ := by
    rw [callWithin, dispatch]
    exact bind_eq_ok.mpr ⟨(), m₁, rfl, bind_eq_ok.mpr ⟨(), m₃, hprint, rfl⟩⟩
  have hglobal : Run.value default 0 (.call "print" [seventhOf value (some .decimal)]
      (some printSignature) (some .nil)) m = .ok .nil m₃ :=
    bind_eq_ok.mpr ⟨[.decimal value.seventh], m,
      bind_eq_ok.mpr ⟨_, m, evaluate_seventhOf _ _ _ _ m, rfl⟩, hdispatch⟩
  let m₄ : Machine := { m₃ with scope := .root ⟨[("shown", ⟨false, .nil⟩)], linked⟩ }
  have hglobals : bindGlobals default 0 (probe value).globals m = .ok () m₄ :=
    bind_eq_ok.mpr ⟨.nil, m₃, hglobal, rfl⟩
  have hmain : (do
      bindFunctions (probe value).functions
      bindGlobals default 0 (probe value).globals
      notify (.starting (probe value).globals.length (probe value).functions.length)
      let result ← call default 0 "main" []
      ofExcept (mainResult result)) { Machine.initial .unlimited with scope := .initial } =
        .ok 0 { m₄ with notices := [.call "main" 0, .starting 1 1, .call "print" 1] } :=
    bind_eq_ok.mpr ⟨(), m, rfl, bind_eq_ok.mpr ⟨(), m₄, hglobals, rfl⟩⟩
  rw [Program.printed, Program.execute, Program.run, inScope, hmain]

end Printing

end TinyScript
