import TinyScript.Proofs.Parse.Locality

/-!
# The bounds of readers pay for the words

Every reader of the grammar is local, and the bounds of its repetitions and of its nesting do not
matter as long as they pay for the words that are left. So the rules can be told without bounds:
an expression is made of primary expressions, and these of expressions again (`primary_eq`); a
block is a statement and the rest of the block (`block_eq`), and a statement is made of blocks
(`statement_eq`).
-/

namespace TinyScript.Parser

variable {α : Type} {takes takes' : Bool} {k m n n' : Nat} {cursor : Cursor}

/-! ## Bounds at the last word -/

theorem current_eq_none_of_remaining (h : cursor.remaining = 0) : cursor.current = none :=
  Cursor.current_eq_none.mpr (List.length_eq_zero_iff.mp h)

/-- Behind the last word no literal is accepted. -/
theorem accept_at_end {literal : String} {f : Bool → Parser α} (h : cursor.current = none) :
    (accept literal >>= f) cursor = f false cursor :=
  bind_of_ok ((chooses_accept literal).missing cursor (by rw [h]; rfl))

theorem primaryOver_at_end (expression : Parser Expression) (h : cursor.current = none) :
    primaryOver expression cursor = fail .missingExpression cursor := by
  unfold primaryOver
  rw [accept_at_end h, if_neg Bool.false_ne_true, accept_at_end h, if_neg Bool.false_ne_true,
    accept_at_end h, if_neg Bool.false_ne_true, accept_at_end h, if_neg Bool.false_ne_true]
  unfold atom
  rw [current_bind, h]

theorem statementOver_at_end (block : Parser (List Statement)) (h : cursor.current = none) :
    statementOver block cursor = effect cursor := by
  unfold statementOver
  rw [accept_at_end h, if_neg Bool.false_ne_true, accept_at_end h, if_neg Bool.false_ne_true,
    accept_at_end h, if_neg Bool.false_ne_true, accept_at_end h, if_neg Bool.false_ne_true,
    accept_at_end h, if_neg Bool.false_ne_true]

/-! ## Operators -/

section Operators

variable {level : Operator.Level} {f g : Option Operator → Parser α}

theorem operator_taking {token : Token} {operator : Operator}
    (hcurrent : cursor.current = some token) (hfound : level.operator? token = some operator) :
    (Parser.operator level >>= f) cursor = f (some operator) cursor.advance := by
  refine bind_of_ok ?_
  unfold Parser.operator
  rw [current_bind, hcurrent, Option.bind_some, hfound]
  rfl

theorem operator_leaving (hnone : cursor.current.bind level.operator? = none) :
    (Parser.operator level >>= f) cursor = f none cursor := by
  refine bind_of_ok ?_
  unfold Parser.operator
  rw [current_bind, hnone]
  rfl

theorem Local.operator
    (taken : ∀ operator, Local takes' (k - 1) (m - 1) (f (some operator)) (g (some operator)))
    (left : Local takes k m (f none) (g none)) :
    Local takes k m (Parser.operator level >>= f) (Parser.operator level >>= g) := by
  refine .of_turn fun head => ?_
  cases hfound : head.bind level.operator? with
  | none =>
      refine .stays ?_ ?_ left
      · rintro cursor rfl
        exact operator_leaving hfound
      · rintro cursor rfl
        exact operator_leaving hfound
  | some operator =>
      obtain ⟨token, rfl, hoperator⟩ := Option.bind_eq_some_iff.mp hfound
      exact .moves (Option.some_ne_none token) (fun _ h => operator_taking h hoperator)
        (fun _ h => operator_taking h hoperator) (taken operator)

/-- One round of the loop over the operands of a level. -/
theorem operands_eq (operand : Parser Expression) (left : Expression)
    (h : cursor.remaining ≤ n) :
    operands level operand n left cursor = (do
      match ← Parser.operator level with
      | none => return left
      | some operator =>
        let right ← operand
        operands level operand (n - 1) (.binary operator left right none)) cursor := by
  cases n with
  | zero =>
      rw [operator_leaving]
      · rfl
      · rw [current_eq_none_of_remaining (by omega)]
        rfl
  | succ n => rfl

theorem Local.operands {p q : Parser Expression} (operand : Local true k m p q)
    (left : Expression) (hk : k ≤ n + 1) (hm : m ≤ n' + 1) :
    Local false k m (Parser.operands level p n left) (Parser.operands level q n' left) := by
  -- By induction on the words left, not on the bounds: these may differ.
  induction k generalizing m n n' left with
  | zero => exact fun _ h => absurd h (Nat.not_lt_zero _)
  | succ k ih =>
      have hright : Local true k (m - 1) p q := operand.mono (by omega) (by omega)
      exact .congr
        (.operator (fun operator => .bind hright fun right => ih hright _ (by omega) (by omega))
          (.pure left))
        (fun _ h => operands_eq p left (by omega)) (fun _ h => operands_eq q left (by omega))

theorem Local.joined {p q : Parser Expression} (operand : Local true k m p q) :
    Local true k m (Parser.joined level p) (Parser.joined level q) :=
  .bind operand fun first => .remainingLeft fun _ hn => .remainingRight fun _ =>
    .operands (operand.mono hn (Nat.min_le_left ..)) first (Nat.le_refl _) (Nat.min_le_right ..)

/-- A round of the loop that all words are left to. -/
theorem remaining_operands {p : Parser Expression} (operand : ∀ k m, Local true k m p p)
    (left : Expression) :
    (do operands level p (← remaining) left) = (do
      match ← Parser.operator level with
      | none => return left
      | some operator =>
        let right ← p
        operands level p (← remaining) (.binary operator left right none)) := by
  funext cursor
  refine (operands_eq p left (Nat.le_refl cursor.remaining)).trans ?_
  refine Local.eq (.operator (fun operator => .bind (operand _ _) fun right => .remainingRight
    fun _ => .operands (operand _ _) _ ?_ (Nat.min_le_right ..)) (.pure left))
    (Nat.lt_succ_self _) (Nat.lt_succ_self _)
  omega

end Operators

theorem Local.logicalOver {p q : Parser Expression} (primary : Local true k m p q) :
    Local true k m (Parser.logicalOver p) (Parser.logicalOver q) :=
  .joined (.joined (.joined (.joined primary)))

/-! ## Repetition -/

/-- A reader that takes a word finds none behind the last. -/
theorem Local.fails_at_end {p q : Parser α} (h : Local true k m p q) (hk : 0 < k)
    (hcursor : cursor.remaining = 0) :
    ∃ cause, p cursor = cursor.ending (.error cause) ∧
      (0 < m → q cursor = cursor.ending (.error cause)) := by
  obtain ⟨used, rest, outcome, hrest, hran, htakes, hother⟩ := h cursor (by omega)
  obtain ⟨rfl, rfl⟩ : used = [] ∧ rest = [] := by
    rw [← List.append_eq_nil_iff, ← hrest]
    exact List.length_eq_zero_iff.mp hcursor
  cases outcome with
  | ok value => exact absurd rfl (htakes rfl value rfl)
  | error cause =>
      exact ⟨cause, hran, fun hm => hother cursor [] hrest (by omega) rfl⟩

section Separated

variable {item p q : Parser α} {close : String} {trailing : SyntaxError.Cause}

/-- One round of the loop over items with commas between them. -/
theorem separated_eq (hitem : ∀ cursor : Cursor, cursor.remaining = 0 →
      ∃ cause, item cursor = cursor.ending (.error cause)) (h : cursor.remaining ≤ n) :
    separated item close trailing n cursor = (do
      let first ← item
      if ← accept "," then
        if ← peek close then fail trailing
        return first :: (← separated item close trailing (n - 1))
      else
        expect close
        return [first]) cursor := by
  cases n with
  | zero =>
      obtain ⟨cause, hran⟩ := hitem cursor (by omega)
      exact (bind_ending hran).trans (bind_ending hran).symm
  | succ n => rfl

theorem Local.separated (hitem : Local true k m p q) (hk : k ≤ n + 1) (hm : m ≤ n' + 1) :
    Local true k m (Parser.separated p close trailing n)
      (Parser.separated q close trailing n') := by
  induction k generalizing m n n' with
  | zero => exact fun _ h => absurd h (Nat.not_lt_zero _)
  | succ k ih =>
      have hrest : Local true k (m - 1) (Parser.separated p close trailing (n - 1))
          (Parser.separated q close trailing (n' - 1)) :=
        ih (hitem.mono (by omega) (by omega)) (by omega) (by omega)
      -- Without bounds a round at the end of the words fails as the items do.
      have hleft : ∀ {cursor : Cursor}, cursor.remaining = 0 →
          ∃ cause, p cursor = cursor.ending (.error cause) := fun hend =>
        (hitem.fails_at_end (Nat.succ_pos k) hend).imp fun _ h => h.1
      have hright : 0 < m → ∀ {cursor : Cursor}, cursor.remaining = 0 →
          ∃ cause, q cursor = cursor.ending (.error cause) := fun hm _ hend =>
        (hitem.fails_at_end (Nat.succ_pos k) hend).imp fun _ h => h.2 hm
      have hcollect : ∀ first, Local true k (m - 1)
          (Parser.separated p close trailing (n - 1) >>= fun rest => pure (first :: rest))
          (Parser.separated q close trailing (n' - 1) >>= fun rest => pure (first :: rest)) :=
        fun first => .bind hrest fun rest => .pure (first :: rest)
      exact .congr
        (.bind hitem fun first =>
          .accept (.peek (.bind (.fail trailing) fun _ => hcollect first) (hcollect first))
            (.bind .expect fun _ => .pure [first]))
        (fun _ h => separated_eq (fun _ hend => hleft hend) (by omega))
        (fun _ h => separated_eq (fun _ hend => hright (by omega) hend) (by omega))

theorem remaining_separated (hitem : ∀ k m, Local true k m item item) :
    (do separated item close trailing (← remaining)) = (do
      let first ← item
      if ← accept "," then
        if ← peek close then fail trailing
        return first :: (← (do separated item close trailing (← remaining)))
      else
        expect close
        return [first]) := by
  funext cursor
  have hend : ∀ cursor : Cursor, cursor.remaining = 0 →
      ∃ cause, item cursor = cursor.ending (.error cause) := fun cursor h =>
    ((hitem 1 0).fails_at_end Nat.one_pos h).imp fun _ h => h.1
  refine (separated_eq hend (Nat.le_refl cursor.remaining)).trans ?_
  have hrest : Local true cursor.remaining cursor.remaining
      (separated item close trailing (cursor.remaining - 1))
      (do separated item close trailing (← remaining)) :=
    .remainingRight fun _ => .separated (hitem _ _) (by omega) (Nat.min_le_right ..)
  have hcollect : ∀ first, Local true cursor.remaining cursor.remaining
      (separated item close trailing (cursor.remaining - 1) >>= fun rest => pure (first :: rest))
      ((do separated item close trailing (← remaining)) >>= fun rest => pure (first :: rest)) :=
    fun first => .bind hrest fun rest => .pure (first :: rest)
  exact Local.eq (.bind (hitem _ _) fun first =>
      .accept (.peek (.bind (.fail trailing) fun _ => hcollect first) (hcollect first))
        (.bind .expect fun _ => .pure [first]))
    (Nat.lt_succ_self _) (Nat.lt_succ_self _)

end Separated

theorem toNat_pos {b b' : Bool} (h : b = true ∨ b' = true) : 0 < b.toNat + b'.toNat := by
  rcases h with rfl | rfl
  · exact Nat.lt_add_right _ Nat.one_pos
  · exact Nat.lt_add_left _ Nat.one_pos

section ManyWhile

variable {more : Parser Bool} {moves : Bool} {answer : Option Token → Bool} {p q : Parser α}

/-- One round of the loop over items before which a look tells that there is one more. -/
theorem manyWhile_eq (hmore : Chooses more moves answer) (item : Parser α)
    (h : cursor.remaining ≤ n) :
    manyWhile more item n cursor = (do
      if ← more then
        let first ← item
        return first :: (← manyWhile more item (n - 1))
      else return []) cursor := by
  cases n with
  | zero =>
      have hend : cursor.current = none := current_eq_none_of_remaining (by omega)
      rw [bind_of_ok (hmore.missing cursor (by rw [hend, hmore.atEnd]))]
      rfl
  | succ n => rfl

theorem Local.manyWhile (hmore : Chooses more moves answer)
    (item : Local takes (k - moves.toNat) (m - moves.toNat) p q)
    (hless : moves = true ∨ takes = true) (hk : k ≤ n + 1) (hm : m ≤ n' + 1) :
    Local false k m (Parser.manyWhile more p n) (Parser.manyWhile more q n') := by
  induction k generalizing m n n' with
  | zero => exact fun _ h => absurd h (Nat.not_lt_zero _)
  | succ k ih =>
      have hpositive := toNat_pos hless
      have hsmaller : Local false k (m - 1) (Parser.manyWhile more p (n - 1))
          (Parser.manyWhile more q (n' - 1)) :=
        ih (item.mono (by omega) (by omega)) (by omega) (by omega)
      have hrest : Local false (k + 1 - moves.toNat - takes.toNat)
          (m - moves.toNat - takes.toNat) (Parser.manyWhile more p (n - 1))
          (Parser.manyWhile more q (n' - 1)) := hsmaller.mono (by omega) (by omega)
      exact .congr
        (.choose hmore (.bindBehind item fun first => .bind hrest fun rest => .pure (first :: rest))
          (.pure []) nofun)
        (fun _ h => manyWhile_eq hmore p (by omega)) (fun _ h => manyWhile_eq hmore q (by omega))

theorem remaining_manyWhile (hmore : Chooses more moves answer)
    (item : ∀ k m, Local takes k m p p) (hless : moves = true ∨ takes = true) :
    (do manyWhile more p (← remaining)) = (do
      if ← more then
        let first ← p
        return first :: (← (do manyWhile more p (← remaining)))
      else return []) := by
  funext cursor
  refine (manyWhile_eq hmore p (Nat.le_refl cursor.remaining)).trans ?_
  have hpositive := toNat_pos hless
  have hrest : Local false (cursor.remaining + 1 - moves.toNat - takes.toNat)
      (cursor.remaining + 1 - moves.toNat - takes.toNat) (manyWhile more p (cursor.remaining - 1))
      (do manyWhile more p (← remaining)) :=
    .remainingRight fun _ => .manyWhile hmore (item _ _) hless (by omega) (Nat.min_le_right ..)
  exact Local.eq (show Local false _ _ _ _ from .choose hmore (.bindBehind (item _ _) fun first =>
    .bind hrest fun rest => .pure (first :: rest)) (.pure []) nofun)
    (Nat.lt_succ_self _) (Nat.lt_succ_self _)

end ManyWhile

/-! ## Expressions -/

section Expressions

variable {p q : Parser Expression}

theorem Local.expressionList (expression : Local true k m p q) (close : String) :
    Local true k m (Parser.expressionList p close) (Parser.expressionList q close) :=
  .remainingLeft fun _ hn => .remainingRight fun _ =>
    .separated (expression.mono hn (Nat.min_le_left ..)) (Nat.le_refl _) (Nat.min_le_right ..)

theorem Local.afterName (expression : Local true k m p q) (name : String) :
    Local false k m (Parser.afterName p name) (Parser.afterName q name) :=
  have inner : Local true (k - 1) (m - 1) p q := expression.mono (Nat.sub_le ..) (Nat.sub_le ..)
  .accept (.accept (.pure _) (.bind (.expressionList inner _) fun _ => .pure _))
    (.accept (.bind inner fun _ => .bind .expect fun _ => .pure _) (.pure _))

/-- A name is read with what follows it, and any other word by itself. -/
theorem atom_of_name (expression : Parser Expression) {token : Token}
    (hcurrent : cursor.current = some token) (hname : token.isName = true) :
    atom expression cursor = afterName expression token.text cursor.advance := by
  unfold atom
  rw [current_bind, hcurrent]
  simp only [hname, if_true]
  rfl

theorem atom_of_value (expression : Parser Expression) {token : Token} {value : Literal}
    (hcurrent : cursor.current = some token) (hname : token.isName = false)
    (hvalue : literalOf token = .ok value) :
    atom expression cursor = (pure (.literal value none) : Parser Expression) cursor.advance := by
  unfold atom
  rw [current_bind, hcurrent]
  simp only [hname, Bool.false_eq_true, if_false, hvalue]
  rfl

theorem atom_of_none (expression : Parser Expression) (hcurrent : cursor.current = none) :
    atom expression cursor = fail .missingExpression cursor := by
  unfold atom
  rw [current_bind, hcurrent]

theorem atom_of_cause (expression : Parser Expression) {token : Token}
    {cause : SyntaxError.Cause} (hcurrent : cursor.current = some token)
    (hname : token.isName = false) (hvalue : literalOf token = .error cause) :
    atom expression cursor = fail cause cursor := by
  unfold atom
  rw [current_bind, hcurrent]
  simp only [hname, Bool.false_eq_true, if_false, hvalue]

theorem Local.atom (expression : Local true (k - 1) (m - 1) p q) :
    Local true k m (Parser.atom p) (Parser.atom q) := by
  refine .of_turn fun head => ?_
  match head with
  | none => exact .stays (fun _ => atom_of_none p) (fun _ => atom_of_none q) (.fail _)
  | some token =>
      have hword := Option.some_ne_none token
      cases hname : token.isName with
      | true =>
          exact .moves hword (fun _ h => atom_of_name p h hname)
            (fun _ h => atom_of_name q h hname) (.afterName expression _)
      | false =>
          cases hvalue : literalOf token with
          | ok value =>
              exact .moves hword (fun _ h => atom_of_value p h hname hvalue)
                (fun _ h => atom_of_value q h hname hvalue) (.pure _)
          | error cause =>
              exact .stays (fun _ h => atom_of_cause p h hname hvalue)
                (fun _ h => atom_of_cause q h hname hvalue) (.fail cause)

theorem Local.primaryOver (expression : Local true (k - 1) (m - 1) p q) :
    Local true k m (Parser.primaryOver p) (Parser.primaryOver q) :=
  .accept (.pure _) (.accept (.pure _) (.accept (.pure _)
    (.accept (.bind expression fun _ => .bind .expect fun _ => .pure _) (.atom expression))))

theorem primaryWithin_eq (h : cursor.remaining ≤ n) :
    primaryWithin n cursor = primaryOver (logicalOver (primaryWithin (n - 1))) cursor := by
  cases n with
  | zero => exact (primaryOver_at_end _ (current_eq_none_of_remaining (by omega))).symm
  | succ n => rfl

theorem Local.primaryWithin (hk : k ≤ n + 1) (hm : m ≤ n' + 1) :
    Local true k m (Parser.primaryWithin n) (Parser.primaryWithin n') := by
  induction k generalizing m n n' with
  | zero => exact fun _ h => absurd h (Nat.not_lt_zero _)
  | succ k ih =>
      have hinner : Local true k (m - 1) (Parser.primaryWithin (n - 1))
          (Parser.primaryWithin (n' - 1)) := ih (by omega) (by omega)
      exact .congr (.primaryOver (.logicalOver hinner)) (fun _ h => primaryWithin_eq (by omega))
        (fun _ h => primaryWithin_eq (by omega))

end Expressions

/-- A primary expression of any depth. -/
theorem Local.primary : Local true k m primary primary :=
  .remainingLeft fun _ _ => .remainingRight fun _ =>
    .primaryWithin (Nat.le_refl _) (Nat.min_le_right ..)

theorem Local.expression : Local true k m expression expression :=
  .remainingLeft fun _ _ => .remainingRight fun _ =>
    .logicalOver (.primaryWithin (Nat.le_refl _) (Nat.min_le_right ..))

/-- An expression is made of primary expressions. -/
theorem expression_eq : expression = logicalOver primary := by
  funext cursor
  have hlocal : Local true (cursor.remaining + 1) (cursor.remaining + 1) expression
      (logicalOver primary) :=
    .remainingLeft fun _ _ => .logicalOver <| .remainingRight fun _ =>
      .primaryWithin (Nat.le_refl _) (Nat.min_le_right ..)
  exact hlocal.eq (Nat.lt_succ_self _) (Nat.lt_succ_self _)

/-- A primary expression is made of expressions. -/
theorem primary_eq : primary = primaryOver expression := by
  funext cursor
  -- The bound for what stands in parentheses is one less, which the parenthesis pays for.
  have hlocal : Local true (cursor.remaining + 1) (cursor.remaining + 1)
      (primaryOver (logicalOver (primaryWithin (cursor.remaining - 1))))
      (primaryOver (logicalOver primary)) :=
    .primaryOver <| .logicalOver <| .remainingRight fun _ =>
      .primaryWithin (by omega) (Nat.min_le_right ..)
  rw [expression_eq, ← hlocal.eq (Nat.lt_succ_self _) (Nat.lt_succ_self _),
    ← primaryWithin_eq (Nat.le_refl _)]
  rfl

/-! ## Statements -/

theorem Local.declaration : Local true k m declaration declaration :=
  .bind .name fun _ => .bind .typed fun _ => .accept
    (.bind (.map .expression) fun _ => .bind .expect fun _ => .pure _)
    (.bind (.pure _) fun _ => .bind .expect fun _ => .pure _)

theorem Local.result : Local true k m result result :=
  .bind .expression fun _ => .bind .expect fun _ => .pure _

theorem Local.effect : Local true k m effect effect :=
  .bind .expression fun _ => .accept
    (.bind .expression fun _ => .bind .expect fun _ => .pure _) (.bind .expect fun _ => .pure _)

section Blocks

variable {p q : Parser (List Statement)}

theorem Local.case (block : Local false k m p q) :
    Local true k m (Parser.case p) (Parser.case q) :=
  .bind .expression fun _ => .bind .expect fun _ => .bind block fun _ => .pure _

/-- The cases of a switch but the last. -/
theorem Local.cases (block : Local false k m p q) (hk : k ≤ n + 1) (hm : m ≤ n' + 1) :
    Local false k m (Parser.manyWhile (Parser.accept "CASE") (Parser.case p) n)
      (Parser.manyWhile (Parser.accept "CASE") (Parser.case q) n') :=
  .manyWhile (chooses_accept "CASE") (.case (block.mono (Nat.sub_le ..) (Nat.sub_le ..)))
    (.inl rfl) hk hm

theorem Local.switch (block : Local false k m p q) :
    Local true k m (Parser.switch p) (Parser.switch q) :=
  .bind .expression fun _ => .remainingLeft fun _ hn => .remainingRight fun _ =>
    .bind (.cases (block.mono hn (Nat.min_le_left ..)) (Nat.le_refl _) (Nat.min_le_right ..))
      fun _ => .check <| .bind .expect fun _ => .bind (block.mono hn (Nat.min_le_left ..))
        fun _ => .bind .expect fun _ => .pure _

theorem Local.branch (block : Local false k m p q) :
    Local true k m (Parser.branch p) (Parser.branch q) :=
  .bind .expression fun _ => .bind .expect fun _ => .bind block fun _ => .check <| .accept
    (.bind (block.mono (Nat.sub_le ..) (Nat.sub_le ..)) fun _ => .bind .expect fun _ => .pure _)
    (.bind (.pure _) fun _ => .bind .expect fun _ => .pure _)

theorem Local.loop (block : Local false k m p q) :
    Local true k m (Parser.loop p) (Parser.loop q) :=
  .bind .expression fun _ => .bind .expect fun _ => .bind block fun _ =>
    .bind .expect fun _ => .pure _

theorem Local.statementOver (block : Local false (k - 1) (m - 1) p q) :
    Local true k m (Parser.statementOver p) (Parser.statementOver q) :=
  .accept .declaration (.accept (.switch block) (.accept (.branch block)
    (.accept (.loop block) (.accept .result .effect))))

end Blocks

theorem atBlockEnd_at_end (h : cursor.current = none) :
    atBlockEnd cursor = fail .unclosedBlock cursor := by
  simp [atBlockEnd, Cursor.current_eq_none.mp h]

theorem atBlockEnd_of_some {token : Token} {found : Bool} (h : cursor.current = some token)
    (hfound : blockEnds.any token.isLiteral = found) : atBlockEnd cursor = .ok found cursor := by
  obtain ⟨rest, hrest⟩ := Cursor.current_eq_some h
  have hends : cursor.isLiteral = token.isLiteral := by
    funext literal
    simp [Cursor.isLiteral_eq, h]
  simp [atBlockEnd, hrest, isBlockEnd, hends, hfound]

/-- Where a word is left, a look tells whether it ends the block. -/
theorem Local.atBlockEnd {f g : Bool → Parser α} (found : Local takes k m (f true) (g true))
    (missing : Local takes k m (f false) (g false)) :
    Local takes k m (Parser.atBlockEnd >>= f) (Parser.atBlockEnd >>= g) := by
  refine .of_turn fun head => ?_
  match head with
  | none =>
      have hfails : ∀ (f : Bool → Parser α) (cursor : Cursor), cursor.current = none →
          (Parser.atBlockEnd >>= f) cursor = Parser.fail .unclosedBlock cursor :=
        fun f cursor h => bind_of_error (atBlockEnd_at_end h)
      exact .stays (hfails f) (hfails g) (.fail _)
  | some token =>
      have next : ∀ answer, Local takes k m (f answer) (g answer) := by
        rintro (_ | _)
        · exact missing
        · exact found
      exact .stays (fun _ h => bind_of_ok (atBlockEnd_of_some h rfl))
        (fun _ h => bind_of_ok (atBlockEnd_of_some h rfl)) (next _)

section Nesting

variable {p q : Parser Statement}

/-- One round of the loop over the statements of a block. -/
theorem statements_eq (statement : Parser Statement) (h : cursor.remaining ≤ n) :
    statements statement n cursor = (do
      if ← atBlockEnd then return []
      let first ← statement
      return first :: (← statements statement (n - 1))) cursor := by
  cases n with
  | zero =>
      have hend : cursor.current = none := current_eq_none_of_remaining (by omega)
      exact (bind_of_error (atBlockEnd_at_end hend)).symm
  | succ n => rfl

theorem Local.statements (statement : Local true k m p q) (hk : k ≤ n + 1) (hm : m ≤ n' + 1) :
    Local false k m (Parser.statements p n) (Parser.statements q n') := by
  induction k generalizing m n n' with
  | zero => exact fun _ h => absurd h (Nat.not_lt_zero _)
  | succ k ih =>
      have hrest : Local false k (m - 1) (Parser.statements p (n - 1))
          (Parser.statements q (n' - 1)) :=
        ih (statement.mono (by omega) (by omega)) (by omega) (by omega)
      exact .congr
        (.atBlockEnd (.pure _) (.loose <| .bindBehind statement fun _ =>
          .bind hrest fun _ => .pure _))
        (fun _ h => statements_eq p (by omega)) (fun _ h => statements_eq q (by omega))

theorem Local.blockOver (statement : Local true k m p q) :
    Local false k m (Parser.blockOver p) (Parser.blockOver q) :=
  .remainingLeft fun _ hn => .remainingRight fun _ =>
    .statements (statement.mono hn (Nat.min_le_left ..)) (Nat.le_refl _) (Nat.min_le_right ..)

theorem blockOver_eq (statement : ∀ k m, Local true k m p p) :
    Parser.blockOver p = (do
      if ← Parser.atBlockEnd then return []
      let first ← p
      return first :: (← Parser.blockOver p)) := by
  funext cursor
  refine (statements_eq p (Nat.le_refl cursor.remaining)).trans ?_
  have hrest : Local false cursor.remaining cursor.remaining
      (Parser.statements p (cursor.remaining - 1)) (Parser.blockOver p) :=
    .remainingRight fun _ => .statements (statement _ _) (by omega) (Nat.min_le_right ..)
  exact Local.eq (.atBlockEnd (.pure []) (.loose <| .bindBehind (statement _ _) fun first =>
    .bind hrest fun rest => .pure (first :: rest))) (Nat.lt_succ_self _) (Nat.lt_succ_self _)

theorem statementWithin_eq (h : cursor.remaining ≤ n) :
    statementWithin n cursor = statementOver (blockOver (statementWithin (n - 1))) cursor := by
  cases n with
  | zero =>
      have hend : cursor.current = none := current_eq_none_of_remaining (by omega)
      exact (statementOver_at_end _ hend).trans (statementOver_at_end _ hend).symm
  | succ n => rfl

theorem Local.statementWithin (hk : k ≤ n + 1) (hm : m ≤ n' + 1) :
    Local true k m (Parser.statementWithin n) (Parser.statementWithin n') := by
  induction k generalizing m n n' with
  | zero => exact fun _ h => absurd h (Nat.not_lt_zero _)
  | succ k ih =>
      have hinner : Local true k (m - 1) (Parser.statementWithin (n - 1))
          (Parser.statementWithin (n' - 1)) := ih (by omega) (by omega)
      exact .congr (.statementOver (.blockOver hinner)) (fun _ h => statementWithin_eq (by omega))
        (fun _ h => statementWithin_eq (by omega))

end Nesting

theorem Local.statement : Local true k m statement statement :=
  .remainingLeft fun _ _ => .remainingRight fun _ =>
    .statementWithin (Nat.le_refl _) (Nat.min_le_right ..)

theorem Local.block : Local false k m block block :=
  .remainingLeft fun _ _ => .remainingRight fun _ =>
    .blockOver (.statementWithin (Nat.le_refl _) (Nat.min_le_right ..))

/-- A block is made of statements. -/
theorem block_eq : block = blockOver statement := by
  funext cursor
  have hlocal : Local false (cursor.remaining + 1) (cursor.remaining + 1) block
      (blockOver statement) :=
    .remainingLeft fun _ _ => .blockOver <| .remainingRight fun _ =>
      .statementWithin (Nat.le_refl _) (Nat.min_le_right ..)
  exact hlocal.eq (Nat.lt_succ_self _) (Nat.lt_succ_self _)

/-- A statement is made of blocks. -/
theorem statement_eq : statement = statementOver block := by
  funext cursor
  have hlocal : Local true (cursor.remaining + 1) (cursor.remaining + 1)
      (statementOver (blockOver (statementWithin (cursor.remaining - 1))))
      (statementOver (blockOver statement)) :=
    .statementOver <| .blockOver <| .remainingRight fun _ =>
      .statementWithin (by omega) (Nat.min_le_right ..)
  rw [block_eq, ← hlocal.eq (Nat.lt_succ_self _) (Nat.lt_succ_self _),
    ← statementWithin_eq (Nat.le_refl _)]
  rfl

/-! ## Programs -/

theorem Local.listGlobal : Local true k m listGlobal listGlobal :=
  .bind .name fun _ => .bind .typed fun _ => .bind .expect fun _ => .bind .expect fun _ =>
    .bind (.expressionList .expression _) fun _ => .pure _

theorem Local.variableGlobal (isMutable : Bool) :
    Local true k m (variableGlobal isMutable) (variableGlobal isMutable) := by
  have hvalueless : ∀ name typeName, Local false k m
      (if isMutable then (pure ⟨name, typeName, isMutable, none, none⟩ : Parser Global)
        else Parser.fail .missingGlobalValue)
      (if isMutable then (pure ⟨name, typeName, isMutable, none, none⟩ : Parser Global)
        else Parser.fail .missingGlobalValue) := by
    intro name typeName
    cases isMutable with
    | true => exact .pure _
    | false => exact .fail _
  exact .bind .name fun _ => .bind .typed fun _ => .accept
    (.bind .expression fun _ => .pure _) (hvalueless _ _)

theorem Local.global : Local true k m global global :=
  .bind (.accept .listGlobal (.accept (.variableGlobal true) (.accept (.variableGlobal false)
    (.fail _)))) fun _ => .bind .expect fun _ => .pure _

theorem Local.parameter : Local true k m parameter parameter :=
  .bind .name fun _ => .bind .expect fun _ => .bind .typeName fun _ => .pure _

theorem Local.parameters : Local true k m parameters parameters :=
  .accept (.pure _) <| .remainingLeft fun _ _ => .remainingRight fun _ =>
    .separated .parameter (Nat.le_refl _) (Nat.min_le_right ..)

theorem Local.function : Local true k m function function :=
  .bind .expect fun _ => .bind .name fun _ => .bind .expect fun _ => .bind .parameters fun _ =>
    .bind .typed fun _ => .bind .expect fun _ => .bind .block fun _ =>
      .bind .expect fun _ => .pure _

/-- Whether a global starts with a word. -/
def opensGlobal (head : Option Token) : Bool :=
  ["LIST", "VAR", "VAL"].any (isWord · head)

theorem chooses_startsGlobal : Chooses startsGlobal false opensGlobal := by
  have hran : ∀ cursor : Cursor, startsGlobal cursor = .ok (opensGlobal cursor.current) cursor := by
    intro cursor
    have hliteral : cursor.isLiteral = (isWord · cursor.current) := by
      funext literal
      exact Cursor.isLiteral_eq cursor literal
    rw [startsGlobal, hliteral]
    rfl
  exact ⟨rfl, fun cursor h => by rw [hran, h]; rfl, fun cursor h => by rw [hran, h]⟩

/-- Reads nothing: behind its functions a program has no words. -/
def atLast (tree : Program) : Parser Program :=
  current >>= fun
    | some token => fail (.afterLastFunction token.text)
    | none => pure tree

theorem atLast_of_none (tree : Program) (h : cursor.current = none) :
    atLast tree cursor = (pure tree : Parser Program) cursor := by
  rw [atLast, current_bind, h]

theorem atLast_of_some (tree : Program) {token : Token} (h : cursor.current = some token) :
    atLast tree cursor = (fail (.afterLastFunction token.text) : Parser Program) cursor := by
  rw [atLast, current_bind, h]

theorem Local.atLast (tree : Program) : Local false k m (atLast tree) (atLast tree) := by
  refine .of_turn fun head => ?_
  cases head with
  | none => exact .stays (fun _ => atLast_of_none tree) (fun _ => atLast_of_none tree) (.pure tree)
  | some token =>
      exact .stays (fun _ => atLast_of_some tree) (fun _ => atLast_of_some tree) (.fail _)

theorem Local.program : Local false k m program program :=
  .remainingLeft fun _ _ => .remainingRight fun _ => .bind
    (.manyWhile chooses_startsGlobal .global (.inr rfl) (Nat.le_refl _) (Nat.min_le_right ..))
    fun _ => .remainingLeft fun _ _ => .remainingRight fun _ => .bind
      (.manyWhile (chooses_peek "FUN") .function (.inr rfl) (Nat.le_refl _) (Nat.min_le_right ..))
      fun _ => .check (.atLast _)

end TinyScript.Parser
