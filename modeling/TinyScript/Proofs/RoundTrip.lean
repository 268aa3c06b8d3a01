import TinyScript.Proofs.Tree.RoundTrip
import TinyScript.Proofs.Tree.Written
import TinyScript.Toolchain

/-!
# The text of a tree gives the tree back

A tree is written as a value that the reader of texts takes back (`Json.read?_pretty`), and this
value is decoded as the tree with its decimals as displayed (`Program.ofJson?_toJson`). So the tree
is the same if decimals are compared by their value, and it has the same text.
-/

namespace TinyScript

/-- Literals that are the same, decimals by their value. -/
def Literal.SameValue : Literal → Literal → Prop
  | decimal left, decimal right => left.value = right.value
  | left, right => left = right

/-- Trees that are the same when the decimals in them are compared by their value. -/
def Program.SameByValue (left right : Program) : Prop :=
  ∃ f : Literal → Literal,
    (∀ literal, (f literal).SameValue literal) ∧ left = right.rewrite (.ofLiteral f)

theorem Literal.sameValue_displayed (literal : Literal) : literal.displayed.SameValue literal := by
  cases literal with
  | decimal value => exact Decimal.value_displayed value
  | _ => rfl

variable {program : Program} {limit : Nat}

/-- What is read from the text of a tree is the tree with its decimals as displayed. -/
theorem Program.ofJsonText?_jsonText (hwritable : ∀ literal ∈ program.literals, literal.IsWritable)
    (hlimit : program.toJson.nesting ≤ limit) :
    Program.ofJsonText? limit program.jsonText = some (program.rewrite .displaying) := by
  rw [ofJsonText?, jsonText, Json.read?_pretty program.written, Option.bind_some,
    ofJson?_toJson hwritable hlimit]

/-- Every tree whose decimals have scales of 64 bits is read back from its text, under any limit
that its nesting keeps to. It comes back as the same tree, decimals compared by their value, and
this tree has the same text. -/
theorem restores_jsonText (hwritable : ∀ literal ∈ program.literals, literal.IsWritable)
    (hlimit : program.toJson.nesting ≤ limit) :
    ∃ decoded, Program.ofJsonText? limit program.jsonText = some decoded ∧
      decoded.SameByValue program ∧ decoded.jsonText = program.jsonText := by
  refine ⟨program.rewrite .displaying, Program.ofJsonText?_jsonText hwritable hlimit, ?_, ?_⟩
  · exact ⟨Literal.displayed, Literal.sameValue_displayed, rfl⟩
  · rw [Program.jsonText, program.toJson_displaying, Program.jsonText]

/-- A tree with a zero and a thousand that lose their scales, a text to be escaped and an integer of
more than one digit. -/
def mixedLeaves : Program where
  globals :=
    [⟨"n", some "Integer", true, some (.literal (.integer (-0x100000002)) (some .integer)),
      some ⟨"n", .integer, none, true⟩⟩]
  functions :=
    [⟨"main", [], none,
      [.expression (.list [.literal (.decimal ⟨0, 2⟩) none, .literal (.decimal ⟨1, -3⟩) none] none),
        .result (.literal (.string "\u0001\"\n") (some .string))],
      some ⟨"main", [], .any⟩⟩]

theorem restores_jsonText_mixedLeaves :
    (∀ literal ∈ mixedLeaves.literals, literal.IsWritable) ∧
      mixedLeaves.toJson.nesting ≤ textNestingLimit ∧
        ∃ decoded, Program.ofJsonText? textNestingLimit mixedLeaves.jsonText = some decoded ∧
          decoded.SameByValue mixedLeaves ∧ decoded.jsonText = mixedLeaves.jsonText := by
  have hwritable : ∀ literal ∈ mixedLeaves.literals, literal.IsWritable := by decide
  have hlimit : mixedLeaves.toJson.nesting ≤ textNestingLimit := by decide +kernel
  exact ⟨hwritable, hlimit, restores_jsonText hwritable hlimit⟩

end TinyScript
