import TinyScript.Proofs.Parse.Bounds
import TinyScript.Proofs.Parse.Viability

/-!
# Every part of a program can be completed

What the readers of the grammar have taken before they fail can be completed. The induction is on
the number of words left: what stands in parentheses, in brackets or in a block has fewer.
-/

namespace TinyScript.Parser

variable {α : Type} {takes takes' : Bool} {k : Nat} {starts starts' follow : List Token → Prop}

theorem Viable.of_opens {p : Parser α} {value : α} (h : Opens p value starts follow) :
    Viable takes 0 p starts follow :=
  ⟨⟨value, h⟩, fun _ hcursor => absurd hcursor (Nat.not_lt_zero _)⟩

/-! ## Operators -/

section Operators

variable {level : Operator.Level} {p : Parser Expression}

theorem operator?_of_unfollowed {rest : List Token} (h : Unfollowed level.rank rest) :
    rest.head?.bind level.operator? = none := by
  cases rest with
  | nil => rfl
  | cons token rest => exact h.noOperator level (Nat.le_refl _) token rfl

theorem opens_operands (hlocal : ∀ k m, Local true k m p p) (left : Expression) :
    Opens (do operands level p (← remaining) left) left (Unfollowed level.rank)
      (Unfollowed level.rank) := by
  rw [remaining_operands hlocal]
  exact .stay (fun _ h => operator_leaving (operator?_of_unfollowed h)) .pure

theorem Viable.operands (hlocal : ∀ k m, Local true k m p p)
    (operand : Viable true k p starts (Unfollowed (level.rank + 1))) (left : Expression) :
    Viable false k (do Parser.operands level p (← remaining) left) (Unfollowed level.rank)
      (Unfollowed level.rank) := by
  induction k generalizing left with
  | zero => exact .of_opens (opens_operands hlocal left)
  | succ k ih =>
      refine ⟨⟨left, opens_operands hlocal left⟩, ?_⟩
      rw [remaining_operands hlocal]
      have operand := operand.mono (Nat.le_succ k)
      have hround : ∀ operator, Viable true k (p >>= fun right => do
          Parser.operands level p (← remaining) (.binary operator left right none)) starts
            (Unfollowed level.rank) := fun operator =>
        operand.bind (fun right => ih operand _) (fun _ h => h.mono (Nat.le_succ _))
          fun _ _ h => h.mono (Nat.le_succ _)
      -- The loop ends at a word that is no operator of the level, as all words are that may follow.
      refine .of_turn fun head => ?_
      cases hfound : head.bind level.operator? with
      | none =>
          have hpure : Resumable false (k + 1) (pure left) (Unfollowed level.rank) := .pure
          refine .stays hpure nofun ?_ fun _ _ h => operator_leaving (operator?_of_unfollowed h)
          rintro cursor rfl
          exact operator_leaving hfound
      | some operator =>
          obtain ⟨token, rfl, hoperator⟩ := Option.bind_eq_some_iff.mp hfound
          exact .moves (Option.some_ne_none token) (fun _ h => operator_taking h hoperator)
            (hround operator).resumable ((hround operator).opens.imp fun _ h => ⟨_, h⟩)

theorem Viable.joined (hlocal : ∀ k m, Local true k m p p)
    (operand : Viable true k p starts (Unfollowed (level.rank + 1))) :
    Viable true k (Parser.joined level p) starts (Unfollowed level.rank) :=
  operand.bind (fun first => .operands hlocal operand first) (fun _ h => h.mono (Nat.le_succ _))
    fun _ _ h => h.mono (Nat.le_succ _)

end Operators

/-- Logical expressions are completed as the primary expressions are that they are made of. -/
theorem Viable.logicalOver {p : Parser Expression} (hlocal : ∀ k m, Local true k m p p)
    (primary : Viable true k p starts (Unfollowed 4)) :
    Viable true k (Parser.logicalOver p) starts (Unfollowed 0) := by
  have h₁ : Viable true k (multiplicativeOver p) starts (Unfollowed 3) := .joined hlocal primary
  have h₂ : Viable true k (additiveOver p) starts (Unfollowed 2) :=
    .joined (fun _ _ => .joined (hlocal _ _)) h₁
  have h₃ : Viable true k (comparisonOver p) starts (Unfollowed 1) :=
    .joined (fun _ _ => .joined (.joined (hlocal _ _))) h₂
  exact .joined (fun _ _ => .joined (.joined (.joined (hlocal _ _)))) h₃

/-! ## Repetition -/

section Separated

variable {item : Parser α} {close : String} {trailing : SyntaxError.Cause}

theorem opens_separated {value : α} (hlocal : ∀ k m, Local true k m item item)
    (opens : Opens item value starts (Before close))
    (hclose : Token.sameIgnoringCase close "," = false) :
    Opens (do separated item close trailing (← remaining)) [value] starts Anything := by
  rw [remaining_separated hlocal]
  exact opens.bind (.skip (.bind .expect .pure) (lacks_of_before hclose))

/-- Items with commas between them may be followed by anything, since a literal closes them. No item
starts with that one. -/
theorem Viable.separated (hlocal : ∀ k m, Local true k m item item)
    (hitem : Viable true k item starts follow) (hend : ∀ rest, Before close rest → follow rest)
    (hapart : ∀ rest, starts rest → Lacks close rest)
    (hclose : Token.sameIgnoringCase close "," = false) :
    Viable true k (do Parser.separated item close trailing (← remaining)) starts Anything := by
  induction k with
  | zero =>
      obtain ⟨value, hopens⟩ := hitem.opens
      exact .of_opens (opens_separated hlocal (hopens.weaken (fun _ h => h) hend) hclose)
  | succ k ih =>
      have hrest := ih (hitem.mono (Nat.le_succ k))
      have hcollect : ∀ first, Viable true k
          ((do Parser.separated item close trailing (← remaining)) >>= fun rest =>
            pure (first :: rest)) starts Anything := fun first => hrest.andThen fun _ => .pure
      rw [remaining_separated hlocal]
      exact hitem.upTo (fun first => .skip (.unlessAhead (hcollect first) hapart)
        (.andThen .expect fun _ => .pure) (lacks_of_before hclose) nofun) hend

end Separated

section ManyWhile

variable {more : Parser Bool} {moves : Bool} {answer : Option Token → Bool} {item : Parser α}

theorem staysEmpty_manyWhile (hmore : Chooses more moves answer) :
    StaysEmpty (do manyWhile more item (← remaining)) := by
  intro cursor place h
  have hran : manyWhile more item cursor.remaining cursor = .ok [] place := h
  rw [manyWhile_eq hmore item (Nat.le_refl _)] at hran
  cases hanswer : answer cursor.current with
  | false =>
      rw [bind_of_ok (hmore.missing cursor hanswer)] at hran
      exact (pure_eq_ok.mp hran).2.symm
  | true =>
      rw [bind_of_ok (hmore.found cursor hanswer)] at hran
      obtain ⟨first, _, _, hran⟩ := bind_eq_ok.mp hran
      obtain ⟨rest, _, _, hran⟩ := bind_eq_ok.mp hran
      cases (pure_eq_ok.mp hran).1

theorem opens_manyWhile (hmore : Chooses more moves answer)
    (hlocal : ∀ k m, Local takes k m item item) (hless : moves = true ∨ takes = true)
    (hnone : ∀ rest, follow rest → answer rest.head? = false) :
    Opens (do manyWhile more item (← remaining)) [] follow follow := by
  rw [remaining_manyWhile hmore hlocal hless]
  exact .stay (fun cursor h => bind_of_ok (hmore.missing cursor (hnone _ h))) .pure

/-- Items may be followed by what starts none and ends one. -/
theorem Viable.manyWhile {between : List Token → Prop} (hmore : Chooses more moves answer)
    (hlocal : ∀ k m, Local takes k m item item) (hless : moves = true ∨ takes = true)
    (hitem : Viable takes (k - moves.toNat) item starts between)
    (hnone : ∀ rest, follow rest → answer rest.head? = false)
    (hend : ∀ rest, follow rest → between rest) :
    Viable false k (do Parser.manyWhile more item (← remaining)) follow follow := by
  induction k with
  | zero => exact .of_opens (opens_manyWhile hmore hlocal hless hnone)
  | succ k ih =>
      -- A round takes a word, before its item or in it, so the rest has fewer.
      have hpositive := toNat_pos hless
      have hrest := (ih (hitem.mono (by omega))).mono
        (show k + 1 - moves.toNat - takes.toNat ≤ k by omega)
      have hround : Viable takes (k + 1 - moves.toNat) (item >>= fun first =>
          (do Parser.manyWhile more item (← remaining)) >>= fun rest => pure (first :: rest))
            starts follow :=
        hitem.bindBehind (fun first => hrest.bind (fun _ => .pure) (fun _ h => h) fun _ _ h => h)
          hend (fun _ => hend) .inl
      rw [remaining_manyWhile hmore hlocal hless]
      exact .skipping hmore hround hless .pure hnone fun _ => hnone

end ManyWhile

/-! ## Expressions -/

section Expressions

variable {p : Parser Expression}

theorem Viable.expressionList (hlocal : ∀ k m, Local true k m p p)
    (expression : Viable true k p (Before "NIL") (Unfollowed 0)) {close : String}
    (hcloses : closes close = true) (hcomma : Token.sameIgnoringCase close "," = false)
    (hapart : Token.sameIgnoringCase "NIL" close = false) :
    Viable true k (Parser.expressionList p close) (Before "NIL") Anything :=
  .separated hlocal expression (unfollowed_of_before hcloses) (lacks_of_before hapart) hcomma

/-- An expression up to a literal that ends it. -/
theorem Viable.enclosed {close : String} {result : Expression → α}
    (expression : Viable true k p (Before "NIL") (Unfollowed 0)) (hcloses : closes close = true) :
    Viable true k (p >>= fun inner => Parser.expect close >>= fun _ => pure (result inner))
      (Before "NIL") follow :=
  expression.upTo (fun _ => .andThen .expect fun _ => .pure) (unfollowed_of_before hcloses)

theorem Viable.afterName (hlocal : ∀ k m, Local true k m p p)
    (expression : Viable true (k - 1) p (Before "NIL") (Unfollowed 0)) (name : String) :
    Viable false k (Parser.afterName p name) (Unfollowed 4) (Unfollowed 4) := by
  have hlist : Viable true (k - 1) (Parser.expressionList p ")") (Before "NIL") Anything :=
    expression.expressionList hlocal (by decide) (by decide) (by decide)
  exact .skip (.accept .pure (hlist.andThen fun _ => .pure).resumable nofun)
    (.skip (expression.enclosed (by decide)) .pure (fun _ h => h.noIndex) fun _ _ h => h.noIndex)
    (fun _ h => h.noCall) fun _ _ h => h.noCall

theorem Resumable.atom (hlocal : ∀ k m, Local true k m p p)
    (expression : Viable true (k - 1) p (Before "NIL") (Unfollowed 0)) :
    Resumable true k (Parser.atom p) (Unfollowed 4) := by
  refine .of_turn fun head => ?_
  match head with
  | none => exact .stays .fail (fun h => h) (fun _ => atom_of_none p) nofun
  | some token =>
      have hword := Option.some_ne_none token
      cases hname : token.isName with
      | true =>
          have hafter : Viable false (k - 1) (Parser.afterName p token.text) (Unfollowed 4)
              (Unfollowed 4) := .afterName hlocal (expression.mono (Nat.sub_le ..)) _
          exact .moves hword (fun _ h => atom_of_name p h hname) hafter.resumable
            (hafter.opens.imp fun _ h => ⟨_, h⟩)
      | false =>
          cases hvalue : literalOf token with
          | ok value =>
              exact .moves hword (fun _ h => atom_of_value p h hname hvalue) .pure
                ⟨_, Unfollowed 4, .pure⟩
          | error cause =>
              exact .stays .fail (fun h => h) (fun _ h => atom_of_cause p h hname hvalue) nofun

theorem Viable.primaryOver (hlocal : ∀ k m, Local true k m p p)
    (expression : Viable true (k - 1) p (Before "NIL") (Unfollowed 0)) :
    Viable true k (Parser.primaryOver p) (Before "NIL") (Unfollowed 4) :=
  have group := expression.enclosed (by decide)
  .accept .pure (.accept .pure (.accept .pure
    (.accept group (.atom hlocal expression) nofun) nofun) nofun) nofun

end Expressions

theorem opens_primary : Opens primary (.literal .nil none) (Before "NIL") (Unfollowed 4) := by
  rw [primary_eq]
  exact .accept .pure

theorem Viable.primary : Viable true k primary (Before "NIL") (Unfollowed 4) := by
  induction k with
  | zero => exact .of_opens opens_primary
  | succ k ih =>
      rw [primary_eq]
      refine .primaryOver (fun _ _ => .expression) ?_
      rw [expression_eq]
      exact .logicalOver (fun _ _ => .primary) ih

theorem Viable.expression : Viable true k expression (Before "NIL") (Unfollowed 0) := by
  rw [expression_eq]
  exact .logicalOver (fun _ _ => .primary) .primary

/-! ## Statements -/

theorem Viable.name : Viable true k name (Before "x") Anything :=
  .andThen (.expectToken (by decide)) fun _ => .pure

theorem Viable.typeName : Viable true k typeName (Before "x") Anything :=
  .andThen (.expectToken (by decide)) fun _ => .pure

theorem Viable.typed : Viable false k typeAnnotation (Lacks ":") (Lacks ":") :=
  .skip (.andThen .typeName fun _ => .pure) .pure (fun _ h => h) fun _ _ h => h

/-- A literal behind which nothing is read. -/
theorem Viable.closing {close : String} {value : α} :
    Viable true k (Parser.expect close >>= fun _ => pure value) (Before close) follow :=
  .andThen .expect fun _ => .pure

theorem Viable.declaration : Viable true k declaration (Before "x") Anything :=
  .andThen .name fun _ => .upTo .typed
    (fun _ => .skip
      (.upTo (.map .expression) (fun _ => .closing) (unfollowed_of_before (by decide)))
      (.pureBind .closing) (lacks_of_before (by decide)) nofun)
    (lacks_of_before (by decide))

theorem Viable.result : Viable true k result (Before "NIL") Anything :=
  .enclosed .expression (by decide)

theorem Viable.effect : Viable true k effect (Before "NIL") Anything :=
  .upTo .expression
    (fun _ => .skip (.enclosed .expression (by decide)) .closing (lacks_of_before (by decide))
      nofun)
    (unfollowed_of_before (by decide))

/-- The words behind which a block ends. -/
def EndsBlock (rest : List Token) : Prop := ∃ word ∈ blockEnds, Before word rest

section Blocks

variable {p : Parser (List Statement)}

theorem Viable.loop (block : Viable false k p EndsBlock EndsBlock) :
    Viable true k (Parser.loop p) (Before "NIL") Anything :=
  .upTo .expression
    (fun _ => .andThen .expect fun _ => block.upTo (fun _ => .closing)
      fun _ h => ⟨"END", by decide, h⟩)
    (unfollowed_of_before (by decide))

/-- A block that has a statement before some words. -/
def OpensFilled (p : Parser (List Statement)) : Prop :=
  ∃ statement statements, Opens p (statement :: statements) (Before "NIL") EndsBlock

theorem Viable.branch (block : Viable false k p EndsBlock EndsBlock) (hempty : StaysEmpty p)
    (opens : OpensFilled p) : Viable true k (Parser.branch p) (Before "NIL") Anything := by
  obtain ⟨_, _, opens⟩ := opens
  have hthen : Viable false k (Parser.filled p .emptyBranch) (Before "NIL") EndsBlock :=
    .filled block.resumable hempty opens
  have hends : ∀ rest, Before "END" rest → EndsBlock rest := fun _ h => ⟨"END", by decide, h⟩
  exact .upTo .expression
    (fun _ => .andThen .expect fun _ => .checked <| hthen.upTo
      (fun _ => .skip ((block.mono (Nat.sub_le ..)).upTo (fun _ => .closing) hends)
        (.pureBind .closing) (lacks_of_before (by decide)) nofun) hends)
    (unfollowed_of_before (by decide))

theorem Viable.case (block : Viable false k p EndsBlock EndsBlock) :
    Viable true k (Parser.case p) (Before "NIL") EndsBlock :=
  .upTo .expression
    (fun _ => .andThen .expect fun _ => block.bind (fun _ => .pure) (fun _ h => h) fun _ _ h => h)
    (unfollowed_of_before (by decide))

theorem Viable.cases (hlocal : ∀ k m, Local false k m p p)
    (block : Viable false (k - 1) p EndsBlock EndsBlock) :
    Viable false k (do Parser.manyWhile (Parser.accept "CASE") (Parser.case p) (← remaining))
      (Before "DEFAULT") (Before "DEFAULT") :=
  .manyWhile (chooses_accept "CASE") (fun _ _ => .case (hlocal _ _)) (.inl rfl) (.case block)
    (fun _ h => isWord_of_lacks (lacks_of_before (by decide) _ h))
    fun _ h => ⟨"DEFAULT", by decide, h⟩

theorem opens_cases (hlocal : ∀ k m, Local false k m p p) {first : Case}
    (opens : Opens (case p) first (Before "NIL") EndsBlock) :
    Opens (do manyWhile (accept "CASE") (case p) (← remaining)) [first] (Before "CASE")
      (Before "DEFAULT") := by
  have hmore := chooses_accept "CASE"
  have hrest := opens_manyWhile hmore (fun _ _ => .case (hlocal _ _)) (.inl rfl)
    fun rest (h : Before "DEFAULT" rest) => isWord_of_lacks (lacks_of_before (by decide) _ h)
  have hends : ∀ rest, Before "DEFAULT" rest → EndsBlock rest := fun _ h =>
    ⟨"DEFAULT", by decide, h⟩
  rw [remaining_manyWhile hmore (fun _ _ => .case (hlocal _ _)) (.inl rfl)]
  exact .accept <| (opens.weaken (fun _ h => h) hends).bind <| hrest.bind .pure

theorem Viable.switch (hlocal : ∀ k m, Local false k m p p)
    (block : Viable false k p EndsBlock EndsBlock) :
    Viable true k (Parser.switch p) (Before "NIL") Anything := by
  obtain ⟨first, opens⟩ := (Viable.case block).opens
  have hcases : Viable false k (Parser.filled
      (do Parser.manyWhile (Parser.accept "CASE") (Parser.case p) (← remaining)) .missingCase)
      (Before "CASE") (Before "DEFAULT") :=
    .filled (Viable.cases hlocal (block.mono (Nat.sub_le ..))).resumable
      (staysEmpty_manyWhile (chooses_accept "CASE"))
      (opens_cases hlocal opens)
  have hlast : ∀ cases condition, Viable true k (Parser.expect "DEFAULT" >>= fun _ =>
      p >>= fun last => Parser.expect "END" >>= fun _ =>
        pure (Statement.switch condition (cases ++ [.mk none last]))) (Before "DEFAULT")
          Anything := fun _ _ =>
    .andThen .expect fun _ => block.upTo (fun _ => .closing) fun _ h => ⟨"END", by decide, h⟩
  exact .upTo .expression
    (fun _ => .assoc <| .checked <| hcases.upTo (fun _ => hlast _ _) fun _ h => h)
    (unfollowed_of_before (by decide))

theorem Viable.statementOver (hlocal : ∀ k m, Local false k m p p)
    (block : Viable false (k - 1) p EndsBlock EndsBlock) (hempty : StaysEmpty p)
    (opens : OpensFilled p) :
    Viable true k (Parser.statementOver p) (Before "NIL") Anything := by
  refine .skip .declaration ?_ (lacks_of_before (by decide)) nofun
  refine .skip (.switch hlocal block) ?_ (lacks_of_before (by decide)) nofun
  refine .skip (.branch block hempty opens) ?_ (lacks_of_before (by decide)) nofun
  refine .skip (.loop block) ?_ (lacks_of_before (by decide)) nofun
  exact .skip .result .effect (lacks_of_before (by decide)) nofun

end Blocks

/-! ### Blocks -/

section Nesting

variable {p : Parser Statement}

/-- Before the end of a block the look finds it. -/
theorem atBlockEnd_of_endsBlock {cursor : Cursor} (h : EndsBlock cursor.rest) :
    atBlockEnd cursor = .ok true cursor := by
  obtain ⟨word, hword, token, rest, hrest, fits⟩ := h
  have hcurrent : cursor.current = some token := by
    rw [Cursor.current, hrest]
    rfl
  exact atBlockEnd_of_some hcurrent (List.any_eq_true.mpr ⟨word, hword, fits⟩)

theorem opens_blockOver (hlocal : ∀ k m, Local true k m p p) :
    Opens (blockOver p) [] EndsBlock EndsBlock := by
  rw [blockOver_eq hlocal]
  exact .stay (fun _ h => bind_of_ok (atBlockEnd_of_endsBlock h)) .pure

theorem Viable.blockOver (hlocal : ∀ k m, Local true k m p p)
    (statement : Viable true k p starts Anything) :
    Viable false k (Parser.blockOver p) EndsBlock EndsBlock := by
  induction k with
  | zero => exact .of_opens (opens_blockOver hlocal)
  | succ k ih =>
      refine ⟨⟨_, opens_blockOver hlocal⟩, ?_⟩
      have hrest := ih (statement.mono (Nat.le_succ k))
      have hround : Viable true (k + 1) (p >>= fun first => Parser.blockOver p >>= fun rest =>
          pure (first :: rest)) starts EndsBlock :=
        statement.bindBehind (fun _ => hrest.bind (fun _ => .pure) (fun _ h => h) fun _ _ h => h)
          (fun _ _ => trivial) (fun _ _ _ => trivial) .inl
      rw [blockOver_eq hlocal]
      refine .of_turn fun head => ?_
      match head with
      | none =>
          have hfail : Resumable true (k + 1) (Parser.fail .unclosedBlock : Parser (List Statement))
              EndsBlock := .fail
          exact .stays hfail nofun (fun _ h => bind_of_error (atBlockEnd_at_end h)) nofun
      | some token =>
          cases hends : blockEnds.any token.isLiteral with
          | true =>
              exact .stays .pure nofun
                (fun _ h => bind_of_ok (atBlockEnd_of_some h hends))
                fun _ _ h => bind_of_ok (atBlockEnd_of_endsBlock h)
          | false =>
              exact .stays hround.resumable nofun
                (fun _ h => bind_of_ok (atBlockEnd_of_some h hends)) nofun

theorem staysEmpty_blockOver : StaysEmpty (blockOver p) := by
  intro cursor place h
  have hran : statements p cursor.remaining cursor = .ok [] place := h
  rw [statements_eq p (Nat.le_refl _)] at hran
  cases hcurrent : cursor.current with
  | none =>
      rw [bind_of_error (atBlockEnd_at_end hcurrent)] at hran
      cases hran
  | some token =>
      rw [bind_of_ok (atBlockEnd_of_some hcurrent rfl)] at hran
      split at hran
      · exact (pure_eq_ok.mp hran).2.symm
      · obtain ⟨first, _, _, hran⟩ := bind_eq_ok.mp hran
        obtain ⟨rest, _, _, hran⟩ := bind_eq_ok.mp hran
        cases (pure_eq_ok.mp hran).1

/-- A statement before some words makes a block that has a statement. -/
theorem opensFilled_blockOver (hlocal : ∀ k m, Local true k m p p) {first : Statement}
    (opens : Opens p first (Before "NIL") Anything) : OpensFilled (blockOver p) := by
  refine ⟨first, [], ?_⟩
  have hrest := opens_blockOver hlocal
  have hround : Opens (p >>= fun first => blockOver p >>= fun rest => pure (first :: rest)) [first]
      (Before "NIL") EndsBlock :=
    (opens.weaken (fun _ h => h) fun _ _ => trivial).bind (hrest.bind .pure)
  rw [blockOver_eq hlocal]
  refine hround.stay fun cursor hbefore => ?_
  obtain ⟨token, rest, hsplit, fits⟩ := hbefore
  have hcurrent : cursor.current = some token := by
    rw [Cursor.current, hsplit]
    rfl
  have hnone : blockEnds.any token.isLiteral = false := by
    refine List.any_eq_false.mpr fun word hword => ?_
    rw [Token.isLiteral_of_isLiteral fits (by revert word; decide)]
    exact Bool.false_ne_true
  exact bind_of_ok (atBlockEnd_of_some hcurrent hnone)

end Nesting

theorem opens_statement : ∃ first, Opens statement first (Before "NIL") Anything := by
  obtain ⟨first, opens⟩ := (show Viable true 0 effect (Before "NIL") Anything from .effect).opens
  rw [statement_eq]
  refine ⟨first, .skip (.skip ?_ (lacks_of_before (by decide))) (lacks_of_before (by decide))⟩
  refine .skip (.skip ?_ (lacks_of_before (by decide))) (lacks_of_before (by decide))
  exact .skip opens (lacks_of_before (by decide))

theorem opensFilled_block : OpensFilled block := by
  obtain ⟨first, opens⟩ := opens_statement
  rw [block_eq]
  exact opensFilled_blockOver (fun _ _ => .statement) opens

theorem staysEmpty_block : StaysEmpty block := by
  rw [block_eq]
  exact staysEmpty_blockOver

/-- A block is completed by its end. -/
theorem Viable.block : Viable false k block EndsBlock EndsBlock := by
  induction k with
  | zero =>
      rw [block_eq]
      exact .of_opens (opens_blockOver fun _ _ => .statement)
  | succ k ih =>
      -- Every block in a statement stands behind a keyword, so it has fewer words.
      have hstatement : Viable true (k + 1) statement (Before "NIL") Anything := by
        rw [statement_eq]
        exact .statementOver (fun _ _ => .block) ih staysEmpty_block opensFilled_block
      rw [block_eq]
      exact .blockOver (fun _ _ => .statement) hstatement

/-! ## Programs -/

theorem Viable.listGlobal : Viable true k listGlobal (Before "x") follow :=
  .andThen .name fun _ => .upTo .typed
    (fun _ => .andThen .expect fun _ => .andThen .expect fun _ => .andThen
      (.expressionList (fun _ _ => .expression) .expression (by decide) (by decide) (by decide))
      fun _ => .pure)
    (lacks_of_before (by decide))

theorem Viable.variableGlobal (isMutable : Bool) :
    Viable true k (variableGlobal isMutable) (Before "x") (Before ";") := by
  have hvalueless : ∀ name typeName, Resumable false k
      (if isMutable then (pure ⟨name, typeName, isMutable, none, none⟩ : Parser Global)
        else Parser.fail .missingGlobalValue) (Before ";") := by
    intro name typeName
    cases isMutable with
    | true => exact .pure
    | false => exact .fail
  exact .andThen .name fun _ => .bind .typed
    (fun _ => .accept (.bind .expression (fun _ => .pure) (unfollowed_of_before (by decide))
      fun _ => unfollowed_of_before (by decide)) (hvalueless _ _)
      fun _ => lacks_of_before (by decide))
    (lacks_of_before (by decide)) fun _ => lacks_of_before (by decide)

theorem Viable.openGlobal : Viable true k openGlobal (Before "LIST") (Before ";") :=
  .accept .listGlobal (.accept (.variableGlobal true) (.accept (.variableGlobal false) .fail nofun)
    nofun) nofun

theorem Viable.global : Viable true k global (Before "LIST") Anything :=
  .upTo .openGlobal (fun _ => .closing) fun _ h => h

theorem Viable.parameter : Viable true k parameter (Before "x") Anything :=
  .andThen .name fun _ => .andThen .expect fun _ => .andThen .typeName fun _ => .pure

theorem Viable.parameters : Viable true k parameters (Before ")") Anything := by
  have hseparated : Viable true k (do
      Parser.separated Parser.parameter ")" .trailingParameterComma (← remaining)) (Before "x")
        Anything :=
    .separated (fun _ _ => .parameter) .parameter (fun _ _ => trivial)
      (lacks_of_before (by decide)) (by decide)
  exact .accept .pure hseparated.resumable nofun

theorem Viable.function : Viable true k function (Before "FUN") Anything :=
  .andThen .expect fun _ => .andThen .name fun _ => .andThen .expect fun _ =>
    .andThen .parameters fun _ => .upTo .typed
      (fun _ => .andThen .expect fun _ => .upTo .block (fun _ => .closing)
        fun _ h => ⟨"END", by decide, h⟩)
      (lacks_of_before (by decide))

/-- Nothing may follow. -/
def Nothing (rest : List Token) : Prop := rest = []

/-- Behind the functions a program ends. -/
theorem Viable.atLast (tree : Program) : Viable false k (atLast tree) Nothing Nothing := by
  have hends : ∀ cursor : Cursor, Nothing cursor.rest →
      Parser.atLast tree cursor = (pure tree : Parser Program) cursor := fun _ h =>
    atLast_of_none tree (Cursor.current_eq_none.mpr h)
  refine ⟨⟨tree, Opens.pure.stay hends⟩, .of_turn fun head => ?_⟩
  cases head with
  | none => exact .stays .pure nofun (fun _ => atLast_of_none tree) fun _ => hends
  | some token =>
      have hfail : Resumable true k
          (Parser.fail (.afterLastFunction token.text) : Parser Program) Nothing := .fail
      exact .stays hfail nofun (fun _ => atLast_of_some tree) nofun

theorem opens_functions {first : Function} (opens : Opens function first (Before "FUN") Anything) :
    Opens (do manyWhile (peek "FUN") function (← remaining)) [first] (Before "FUN") Nothing := by
  have hmore := chooses_peek "FUN"
  have hlocal : ∀ k m, Local true k m function function := fun _ _ => .function
  have hrest : Opens (do manyWhile (peek "FUN") function (← remaining)) [] Nothing Nothing :=
    opens_manyWhile hmore hlocal (.inr rfl) fun rest h => by rw [h]; rfl
  have hround : Opens (function >>= fun first =>
      (do manyWhile (peek "FUN") function (← remaining)) >>= fun rest => pure (first :: rest))
        [first] (Before "FUN") Nothing :=
    (opens.weaken (fun _ h => h) fun _ _ => trivial).bind (hrest.bind .pure)
  rw [remaining_manyWhile hmore hlocal (.inr rfl)]
  exact hround.stay fun cursor h => bind_of_ok (hmore.found cursor (isWord_of_before h))

/-- What has been taken of a program is completed. -/
theorem Viable.program : Viable false k program (fun rest => opensGlobal rest.head? = false)
    Nothing := by
  obtain ⟨first, opens⟩ :=
    (show Viable true 0 Parser.function (Before "FUN") Anything from .function).opens
  have hglobals : Viable false k (do Parser.manyWhile startsGlobal Parser.global (← remaining))
      (fun rest => opensGlobal rest.head? = false) fun rest => opensGlobal rest.head? = false :=
    .manyWhile chooses_startsGlobal (fun _ _ => .global) (.inr rfl) .global (fun _ h => h)
      fun _ _ => trivial
  have hfunctions : Viable false k (Parser.filled
      (do Parser.manyWhile (Parser.peek "FUN") Parser.function (← remaining)) .missingFunction)
      (Before "FUN") Nothing := by
    have hmany : Viable false k
        (do Parser.manyWhile (Parser.peek "FUN") Parser.function (← remaining)) Nothing Nothing :=
      .manyWhile (chooses_peek "FUN") (fun _ _ => .function) (.inr rfl) .function
        (fun rest h => by rw [h]; rfl) fun _ _ => trivial
    exact .filled hmany.resumable (staysEmpty_manyWhile (chooses_peek "FUN"))
      (opens_functions opens)
  have hnone : ∀ rest, Before "FUN" rest → opensGlobal rest.head? = false := by
    intro rest h
    refine List.any_eq_false.mpr fun word hword => Bool.eq_false_iff.mp ?_
    exact isWord_of_lacks (lacks_of_before (by revert word; decide) _ h)
  -- Each loop stands before its check, and both before what is read next.
  exact .assoc <| .bind hglobals (fun _ => .assoc <| .checked <| .bind hfunctions
    (fun _ => .atLast _) (fun _ h => h) fun _ _ h => h) hnone fun _ rest h => by rw [h]; rfl

end TinyScript.Parser
