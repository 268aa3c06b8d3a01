import TinyScript.Proofs.Certificate.Erasure
import TinyScript.Proofs.Parse.Literals
import TinyScript.Proofs.Parse.Words
import TinyScript.Proofs.RoundTrip
import TinyScript.Proofs.ScaleProbe

/-!
# Runs of trees that were read back

The tree of a compiled program can be read back from its text: its literals are those of words
(`forall_literals_of_parse`), whose decimals can be written. A run depends on the scales of
decimals, and what is read back has the scales that are displayed. So the runs are the same where
the notation keeps the scale of every decimal in the program (`keepsRuns_of_keepsScale`). No scale
that it loses goes unnoticed: there is a program with that decimal whose runs differ
(`keepsRuns_probe_iff`).
-/

namespace TinyScript

open Grammar Typing

/-- Whether a tree is read back from its text as one that runs the same way, with any settings, for
any number of rounds and on any machine. -/
def Program.KeepsRuns (limit : Nat) (program : Program) : Prop :=
  ∃ decoded, Program.ofJsonText? limit program.jsonText = some decoded ∧
    ∀ settings fuel machine,
      decoded.execute settings fuel machine = program.execute settings fuel machine

/-! ## Literals of compiled programs -/

theorem ofWords_isWritable : OfWords Literal.IsWritable where
  nil := trivial
  boolean _ := trivial
  word {token literal} h := by
    cases literal with
    | decimal value =>
        have hkind : token.kind ≠ .identifier := by
          intro hkind
          simp [Parser.literalOf, hkind] at h
        cases (literalOf_eq_ok hkind).mp h with
        | decimal _ hread => exact Decimal.isWritableScale_of_read? hread
    | _ => trivial

/-- Checking keeps the literals. -/
theorem literals_of_check {settings : Settings} {source annotated : Program}
    (h : source.check settings = .ok annotated) : annotated.literals = source.literals := by
  obtain ⟨functions, c₀, c₁, c₂, haccepts⟩ := accepts_of_check h
  have hliterals := congrArg Program.literals haccepts.erase
  have hid : ∀ literals : List Literal, literals.map Rewriting.erasing.literal = literals :=
    List.map_id
  rwa [literals_rewrite, literals_rewrite, hid, hid] at hliterals

variable {settings : Settings} {tokens : List Token} {program : Program} {limit : Nat}

theorem isWritable_of_compile (h : compile settings tokens = .ok program) :
    ∀ literal ∈ program.literals, literal.IsWritable := by
  unfold compile at h
  split at h
  · cases h
  · next source hparse =>
      split at h
      · cases h
      · next hcheck =>
          cases h
          rw [literals_of_check hcheck]
          exact forall_literals_of_parse ofWords_isWritable hparse

/-- The tree of any compiled program is read back from its text, decimals by their value. If the
notation keeps the scale of each decimal in the program, the tree that is read back runs the same
way. -/
theorem keepsRuns_of_keepsScale (hcompile : compile settings tokens = .ok program)
    (hlimit : program.toJson.nesting ≤ limit) :
    (∃ decoded, Program.ofJsonText? limit program.jsonText = some decoded ∧
        decoded.SameByValue program) ∧
      ((∀ literal ∈ program.literals, literal.KeepsScale) → program.KeepsRuns limit) := by
  have hread := Program.ofJsonText?_jsonText (isWritable_of_compile hcompile) hlimit
  refine ⟨⟨_, hread, Literal.displayed, Literal.sameValue_displayed, rfl⟩, fun hkeeps => ?_⟩
  have hunchanged : program.rewrite .displaying = program :=
    rewrite_ofLiteral program fun literal hmem => Literal.displayed_eq_self (hkeeps literal hmem)
  rw [hunchanged] at hread
  exact ⟨program, hread, fun _ _ _ => rfl⟩

/-- With a scale that the notation keeps the program runs the same way when its tree has been read
back. -/
theorem keepsRuns_of_keepsScale_probe :
    compile default (probeWords "2.50") = .ok (probe ⟨250, 2⟩) ∧
      (probe ⟨250, 2⟩).toJson.nesting ≤ textNestingLimit ∧
        (probe ⟨250, 2⟩).KeepsRuns textNestingLimit := by
  have hcompile : compile default (probeWords "2.50") = .ok (probe ⟨250, 2⟩) :=
    compile_probeWords rfl (by decide +kernel)
  exact ⟨hcompile, nesting_probe _,
    (keepsRuns_of_keepsScale hcompile (nesting_probe _)).2 (by decide)⟩

/-! ## Every lost scale shows -/

/-- The tree of the program is read back as one that runs the same way exactly if the notation
keeps the scale of the decimal in it. -/
theorem keepsRuns_probe_iff {value : Decimal} (h : Decimal.isWritableScale value.scale = true) :
    (probe value).KeepsRuns textNestingLimit ↔ value.KeepsScale := by
  have hwritable : ∀ literal ∈ (probe value).literals, literal.IsWritable := by
    have hliterals : (probe value).literals = [.decimal ⟨50, -16⟩, .decimal value, .decimal value,
        .decimal ⟨70, 1⟩, .integer 0] := rfl
    rw [hliterals]
    simp only [List.forall_mem_cons, List.not_mem_nil, false_implies, implies_true, and_true]
    exact ⟨by decide, h, h, by decide, by decide⟩
  have hread := Program.ofJsonText?_jsonText hwritable (nesting_probe value)
  have hrewrite : (probe value).rewrite .displaying = probe value.displayed := rfl
  rw [hrewrite] at hread
  constructor
  · rintro ⟨decoded, hdecoded, hruns⟩
    by_contra hlost
    obtain rfl : probe value.displayed = decoded := Option.some.inj (hread.symm.trans hdecoded)
    have hprinted : (probe value.displayed).printed = (probe value).printed :=
      congrArg (·.2.sink.text) (hruns default 0 (.initial .unlimited))
    rw [printed_probe, printed_probe] at hprinted
    have hplain : value.displayed.seventh.plainChars = value.seventh.plainChars := by
      simpa [Decimal.plain] using congrArg String.toList hprinted
    exact Decimal.plainChars_seventh_ne hlost (hplain ▸ Decimal.plainChars_seventh_displayed hlost)
  · intro hkeeps
    rw [Decimal.displayed_eq_self_iff.mpr hkeeps] at hread
    exact ⟨probe value, hread, fun _ _ _ => rfl⟩

/-- With a zero of two places it does not: it prints `71428571428571428.57`, and
`71428571428571429` when its tree has been read back. -/
theorem not_keepsRuns_probe :
    compile default (probeWords "0.00") = .ok (probe ⟨0, 2⟩) ∧
      (probe ⟨0, 2⟩).toJson.nesting ≤ textNestingLimit ∧
        ¬ (probe ⟨0, 2⟩).KeepsRuns textNestingLimit := by
  have hlost : ¬ Decimal.KeepsScale ⟨0, 2⟩ := by decide
  exact ⟨compile_probeWords rfl rfl, nesting_probe _,
    fun hkeeps => hlost ((keepsRuns_probe_iff rfl).mp hkeeps)⟩

end TinyScript
