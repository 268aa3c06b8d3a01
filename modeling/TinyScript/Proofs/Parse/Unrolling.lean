import Mathlib.Logic.Function.Iterate
import TinyScript.Proofs.Parse.Bounds

/-!
# Recursion ends where the words do

The rules call each other in circles and repeat themselves, but not before a word has been taken. So
a recursion that is unrolled more often than words are left is never asked for what lies beyond the
last round: whatever that is, it reads as the rule does (`Settles`). This is proved once, of rounds
that go on behind a word (`settles_of_local`), and then for each recursion of the grammar
(`recursionsSettle`).
-/

namespace TinyScript.Parser

variable {ι α : Type}

/-- Unrolled more often than words are left, the rounds of a recursion read as the rules do,
whatever lies beyond the last round. -/
def Settles (round : (ι → Parser α) → ι → Parser α) (rules : ι → Parser α) : Prop :=
  ∀ (beyond : ι → Parser α) (n : Nat) (i : ι) (cursor : Cursor), cursor.remaining < n →
    (round^[n] beyond) i cursor = rules i cursor

section Rounds

variable {round : (ι → Parser α) → ι → Parser α} {rules : ι → Parser α}

theorem local_iterate {takes : Bool}
    (hround : ∀ k p q, (∀ i, Local takes k k (p i) (q i)) →
      ∀ i, Local takes (k + 1) (k + 1) (round p i) (round q i))
    (hrules : rules = round rules) (beyond : ι → Parser α) (n : Nat) (i : ι) :
    Local takes n n ((round^[n] beyond) i) (rules i) := by
  induction n generalizing i with
  | zero => exact fun _ h => absurd h (Nat.not_lt_zero _)
  | succ n ih =>
      rw [Function.iterate_succ_apply', hrules]
      exact hround n _ _ ih i

theorem settles_of_local (takes : Bool)
    (hround : ∀ k p q, (∀ i, Local takes k k (p i) (q i)) →
      ∀ i, Local takes (k + 1) (k + 1) (round p i) (round q i))
    (hrules : rules = round rules) : Settles round rules :=
  fun beyond n i _ h => (local_iterate hround hrules beyond n i).eq h h

end Rounds

/-! ## Levels of operators -/

/-- The rule of a level. -/
def ofLevel : Operator.Level → Parser Expression
  | .logical => logical
  | .comparison => comparison
  | .additive => additive
  | .multiplicative => multiplicative

/-- The rule for the operands of a level. -/
def operandOf : Operator.Level → Parser Expression
  | .logical => comparison
  | .comparison => additive
  | .additive => multiplicative
  | .multiplicative => primary

section Levels

variable {k m : Nat}

/-- What is made of primary expressions may count the words once for all of them. -/
theorem Local.overPrimary {outer : Parser Expression → Parser Expression}
    (houter : ∀ {k m p q}, Local true k m p q → Local true k m (outer p) (outer q)) :
    Local true k m (do outer (Parser.primaryWithin (← remaining))) (outer Parser.primary) :=
  .remainingLeft fun _ _ => houter <| .remainingRight fun _ =>
    .primaryWithin (Nat.le_refl _) (Nat.min_le_right ..)

theorem overPrimary_eq {outer : Parser Expression → Parser Expression}
    (houter : ∀ {k m p q}, Local true k m p q → Local true k m (outer p) (outer q)) :
    (do outer (primaryWithin (← remaining))) = outer primary :=
  funext fun _ => (Local.overPrimary houter).eq (Nat.lt_succ_self _) (Nat.lt_succ_self _)

theorem multiplicative_eq : multiplicative = joined .multiplicative primary :=
  overPrimary_eq .joined

theorem additive_eq : additive = joined .additive multiplicative := by
  rw [multiplicative_eq]
  exact overPrimary_eq fun h => .joined (.joined h)

theorem comparison_eq : comparison = joined .comparison additive := by
  rw [additive_eq, multiplicative_eq]
  exact overPrimary_eq fun h => .joined (.joined (.joined h))

theorem logical_eq : logical = joined .logical comparison := by
  rw [comparison_eq, additive_eq, multiplicative_eq]
  exact overPrimary_eq .logicalOver

theorem ofLevel_eq (level : Operator.Level) :
    ofLevel level = joined level (operandOf level) := by
  cases level with
  | logical => exact logical_eq
  | comparison => exact comparison_eq
  | additive => exact additive_eq
  | multiplicative => exact multiplicative_eq

theorem Local.multiplicative : Local true k m multiplicative multiplicative := by
  rw [multiplicative_eq]
  exact .joined .primary

theorem Local.additive : Local true k m additive additive := by
  rw [additive_eq]
  exact .joined .multiplicative

theorem Local.comparison : Local true k m comparison comparison := by
  rw [comparison_eq]
  exact .joined .additive

theorem Local.operandOf (level : Operator.Level) :
    Local true k m (operandOf level) (operandOf level) := by
  cases level with
  | logical => exact .comparison
  | comparison => exact .additive
  | additive => exact .multiplicative
  | multiplicative => exact .primary

end Levels

/-! ## Nesting -/

theorem settles_primary :
    Settles (fun again (_ : Unit) => primaryOver (logicalOver (again ()))) fun _ => primary := by
  refine settles_of_local true (fun k p q h _ => .primaryOver (.logicalOver (h ()))) ?_
  rw [← expression_eq, ← primary_eq]

theorem settles_statement :
    Settles (fun again (_ : Unit) => statementOver (blockOver (again ()))) fun _ => statement := by
  refine settles_of_local true (fun k p q h _ => .statementOver (.blockOver (h ()))) ?_
  rw [← block_eq, ← statement_eq]

/-! ## Repetition -/

/-- One round of the loop over the operands of a level. -/
def operandsRound (level : Operator.Level) (operand : Parser Expression)
    (again : Expression → Parser Expression) (left : Expression) : Parser Expression := do
  match ← Parser.operator level with
  | none => return left
  | some operator =>
    let right ← operand
    again (.binary operator left right none)

theorem settles_operands {level : Operator.Level} {operand : Parser Expression}
    (hoperand : ∀ k m, Local true k m operand operand) :
    Settles (operandsRound level operand)
      (fun left => do operands level operand (← remaining) left) := by
  refine settles_of_local false (fun k p q h left => ?_)
    (funext fun left => remaining_operands hoperand left)
  exact .operator (fun operator => .bind (hoperand k k) fun right => h _) (.pure left)

/-- One round of the loop over items with commas between them. -/
def separatedRound (item : Parser α) (close : String) (trailing : SyntaxError.Cause)
    (again : Unit → Parser (List α)) (_ : Unit) : Parser (List α) := do
  let first ← item
  if ← accept "," then
    if ← peek close then fail trailing
    return first :: (← again ())
  else
    expect close
    return [first]

theorem settles_separated {item : Parser α} {close : String} {trailing : SyntaxError.Cause}
    (hitem : ∀ k m, Local true k m item item) :
    Settles (separatedRound item close trailing)
      (fun _ => do separated item close trailing (← remaining)) := by
  refine settles_of_local true (fun k p q h _ => ?_) (funext fun _ => remaining_separated hitem)
  have hcollect : ∀ first, Local true k k (p () >>= fun rest => pure (first :: rest))
      (q () >>= fun rest => pure (first :: rest)) :=
    fun first => .bind (h ()) fun rest => .pure (first :: rest)
  exact .bind (hitem _ _) fun first =>
    .accept (.peek (.bind (.fail trailing) fun _ => hcollect first) (hcollect first))
      (.bind .expect fun _ => .pure [first])

/-- One round of the loop over items before which a look tells that there is one more. -/
def manyRound (more : Parser Bool) (item : Parser α) (again : Unit → Parser (List α)) (_ : Unit) :
    Parser (List α) := do
  if ← more then
    let first ← item
    return first :: (← again ())
  else return []

theorem settles_manyWhile {more : Parser Bool} {moves : Bool} {answer : Option Token → Bool}
    {takes : Bool} {item : Parser α} (hmore : Chooses more moves answer)
    (hitem : ∀ k m, Local takes k m item item) (hless : moves = true ∨ takes = true) :
    Settles (manyRound more item) (fun _ => do manyWhile more item (← remaining)) := by
  refine settles_of_local false (fun k p q h _ => ?_)
    (funext fun _ => remaining_manyWhile hmore hitem hless)
  have hpositive := toNat_pos hless
  have hrest : Local false (k + 1 - moves.toNat - takes.toNat) (k + 1 - moves.toNat - takes.toNat)
      (p ()) (q ()) := (h ()).mono (by omega) (by omega)
  exact .choose hmore (.bindBehind (hitem _ _) fun first =>
    .bind hrest fun rest => .pure (first :: rest)) (.pure []) nofun

/-- One round of the loop over the statements of a block. -/
def blockRound (statement : Parser Statement) (again : Unit → Parser (List Statement))
    (_ : Unit) : Parser (List Statement) := do
  if ← atBlockEnd then return []
  let first ← statement
  return first :: (← again ())

theorem settles_block : Settles (blockRound statement) fun _ => block := by
  refine settles_of_local false (fun k p q h _ => ?_) (funext fun _ => ?_)
  · exact .atBlockEnd (.pure []) (.loose <| .bindBehind Local.statement fun first =>
      .bind (h ()) fun rest => .pure (first :: rest))
  · rw [blockRound, block_eq]
    exact blockOver_eq fun _ _ => .statement

/-! ## The recursions of the grammar -/

/-- The rules for operators are loops, and every recursion of the grammar reads as its rule does
when it is unrolled more often than words are left. -/
structure RecursionsSettle : Prop where
  levels : ∀ level, ofLevel level = joined level (operandOf level)
  operands : ∀ level, Settles (operandsRound level (operandOf level))
    fun left => do operands level (operandOf level) (← remaining) left
  primary : Settles (fun again (_ : Unit) => primaryOver (logicalOver (again ())))
    fun _ => Parser.primary
  lists : ∀ close, Settles (separatedRound expression close (.trailingComma close))
    fun _ => expressionList expression close
  statement : Settles (fun again (_ : Unit) => statementOver (blockOver (again ())))
    fun _ => Parser.statement
  block : Settles (blockRound Parser.statement) fun _ => Parser.block
  cases : Settles (manyRound (accept "CASE") (case Parser.block))
    fun _ => do manyWhile (accept "CASE") (case Parser.block) (← remaining)
  parameters : Settles (separatedRound parameter ")" .trailingParameterComma)
    fun _ => do separated parameter ")" .trailingParameterComma (← remaining)
  globals : Settles (manyRound startsGlobal global)
    fun _ => do manyWhile startsGlobal global (← remaining)
  functions : Settles (manyRound (peek "FUN") function)
    fun _ => do manyWhile (peek "FUN") function (← remaining)

theorem recursionsSettle : RecursionsSettle where
  levels := ofLevel_eq
  operands level := settles_operands fun _ _ => .operandOf level
  primary := settles_primary
  lists _ := settles_separated fun _ _ => .expression
  statement := settles_statement
  block := settles_block
  cases := settles_manyWhile (chooses_accept "CASE") (fun _ _ => .case .block) (.inl rfl)
  parameters := settles_separated fun _ _ => .parameter
  globals := settles_manyWhile chooses_startsGlobal (fun _ _ => .global) (.inr rfl)
  functions := settles_manyWhile (chooses_peek "FUN") (fun _ _ => .function) (.inr rfl)

end TinyScript.Parser
