import TinyScript.Proofs.Parse.Completeness
import TinyScript.Proofs.Parse.Soundness

/-!
# The reader accepts exactly the grammar

Reading words succeeds with a tree if and only if the rules of the grammar derive that tree from all
of the words. The two directions are `Parser.writes_of_program` and `Parser.takes_program`. Since
reading is a function, it follows that the grammar, for all its freedom in the order of rules,
derives one tree at most.
-/

namespace TinyScript

open Grammar Token

theorem writes_of_parse {tokens : List Token} {tree : Program} (classified : AllClassified tokens)
    (parsed : Program.parse tokens = .ok tree) : Writes tokens tree := by
  unfold Program.parse Parser.run at parsed
  split at parsed
  · next value cursor' ran =>
      cases parsed
      rw [show tokens = (Cursor.start tokens).rest from rfl] at classified ⊢
      exact Parser.writes_of_program classified ran
  · cases parsed

theorem parse_of_writes {tokens : List Token} {tree : Program} (classified : AllClassified tokens)
    (written : Writes tokens tree) : Program.parse tokens = .ok tree := by
  obtain ⟨cursor', ran, -⟩ :=
    Parser.takes_program written (Cursor.start tokens) rfl classified
  rw [Program.parse, Parser.run, ran]

/-- Of words that have the kinds that their characters tell, as the words of any text do, a program
is read exactly if the grammar derives it from the whole of the words, and the grammar derives no
other program from them. -/
theorem parse_iff_writes {tokens : List Token} (classified : AllClassified tokens) :
    (∀ tree, Program.parse tokens = .ok tree ↔ Writes tokens tree) ∧
      ∀ tree tree', Writes tokens tree → Writes tokens tree' → tree = tree' := by
  refine ⟨fun tree => ⟨writes_of_parse classified, parse_of_writes classified⟩, ?_⟩
  intro tree tree' written written'
  have parsed := parse_of_writes classified written
  rw [parse_of_writes classified written'] at parsed
  cases parsed
  rfl

/-- The words of `fun f(x : DO) do return x - 2 - 3; end`. -/
def chainedDifference : List Token :=
  [⟨.identifier, "fun", 0⟩, ⟨.identifier, "f", 4⟩, ⟨.operator, "(", 5⟩, ⟨.identifier, "x", 6⟩,
   ⟨.operator, ":", 8⟩, ⟨.identifier, "DO", 10⟩, ⟨.operator, ")", 12⟩, ⟨.identifier, "do", 14⟩,
   ⟨.identifier, "return", 17⟩, ⟨.identifier, "x", 24⟩, ⟨.operator, "-", 26⟩, ⟨.integer, "2", 28⟩,
   ⟨.operator, "-", 30⟩, ⟨.integer, "3", 32⟩, ⟨.operator, ";", 33⟩, ⟨.identifier, "end", 35⟩]

/-- Reserved words count in any case and as names of types, and differences associate to the
left. -/
theorem parse_iff_writes_chainedDifference :
    AllClassified chainedDifference ∧
      Writes chainedDifference
        ⟨[], [⟨"f", [⟨"x", "DO"⟩], none,
          [.result (.binary .subtract
            (.binary .subtract (.access "x" none none) (.literal (.integer 2) none) none)
            (.literal (.integer 3) none) none)], none⟩]⟩ := by
  have classified : AllClassified chainedDifference := by decide
  exact ⟨classified, ((parse_iff_writes classified).1 _).mp rfl⟩

end TinyScript
