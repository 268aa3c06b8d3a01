import TinyScript.Parse.Program
import TinyScript.Proofs.Parse.Words

/-!
# What is read is what is written

A parser is sound for a form if the words that it moves behind have the form of what it returns
(`Reads`). Sound parts make a sound whole (`Reads.bind`), so each production is followed step by
step, and the words of its parts, put one behind the other, are those of a rule of the grammar. The
main statement is `Parser.reads_program`.
-/

namespace TinyScript

open Grammar Token

/-- The words that a parser moves behind have the form of what it returns. -/
def Reads {α : Type} (parser : Parser α) (form : List Token → α → Prop) : Prop :=
  ∀ cursor value cursor', AllClassified cursor.rest → parser cursor = .ok value cursor' →
    ∃ used, cursor.rest = used ++ cursor'.rest ∧ form used value

/-- Among classified words, a literal tests for a given property. -/
def Finds (literal : String) (property : Token → Prop) : Prop :=
  ∀ token : Token, token.Classified → (token.isLiteral literal = true ↔ property token)

theorem finds_mark {mark : String} (hmark : classify mark.toList = .operator) :
    Finds mark (Mark mark) :=
  fun _ classified => classified.isLiteral_mark hmark

theorem finds_reserved {word : String} (hword : classify word.toList = .identifier) :
    Finds word (Reserved word) :=
  fun _ classified => classified.isLiteral_reserved hword

/-! ## Steps -/

namespace Reads

variable {α β : Type} {p q : Parser α} {form : List Token → α → Prop}

theorem mono {form' : List Token → α → Prop} (reads : Reads p form)
    (himp : ∀ used value, form used value → form' used value) : Reads p form' := by
  intro cursor value cursor' classified ran
  obtain ⟨used, split, hform⟩ := reads cursor value cursor' classified ran
  exact ⟨used, split, himp used value hform⟩

protected theorem pure {a : α} (hform : form [] a) : Reads (pure a) form := by
  intro cursor value cursor' _ ran
  obtain ⟨rfl, rfl⟩ := pure_eq_ok.mp ran
  exact ⟨[], rfl, hform⟩

/-- What the second part reads stands behind what the first one reads. -/
protected theorem bind {f : α → Parser β} {whole : List Token → β → Prop} (first : Reads p form)
    (second : ∀ a front, form front a → Reads (f a) fun behind b => whole (front ++ behind) b) :
    Reads (p >>= f) whole := by
  intro cursor b cursor' classified ran
  obtain ⟨a, middle, ran, ran'⟩ := bind_eq_ok.mp ran
  obtain ⟨front, hfront, hform⟩ := first cursor a middle classified ran
  rw [hfront, AllClassified.append] at classified
  obtain ⟨behind, hbehind, hwhole⟩ := second a front hform middle b cursor' classified.2 ran'
  exact ⟨front ++ behind, by rw [hfront, hbehind, List.append_assoc], hwhole⟩

protected theorem map {f : α → β} {whole : List Token → β → Prop}
    (reads : Reads p fun used a => whole used (f a)) : Reads (f <$> p) whole := by
  intro cursor b cursor' classified ran
  obtain ⟨a, ran', rfl⟩ := map_eq_ok.mp ran
  exact reads cursor a cursor' classified ran'

theorem fail (cause : SyntaxError.Cause) : Reads (Parser.fail cause) form := by
  intro cursor a cursor' _ ran
  cases ran

theorem failFinding (cause : Option String → SyntaxError.Cause) :
    Reads (Parser.failFinding cause) form := by
  intro cursor a cursor' _ ran
  cases ran

/-- A failure reads nothing, whatever would come behind it. -/
theorem fail_bind {cause : SyntaxError.Cause} {f : β → Parser α} :
    Reads (Parser.fail cause >>= f) form := by
  intro cursor a cursor' _ ran
  cases ran

protected theorem ite {condition : Prop} [Decidable condition] (yes : condition → Reads p form)
    (no : ¬ condition → Reads q form) : Reads (if condition then p else q) form := by
  split
  · next holds => exact yes holds
  · next fails => exact no fails

theorem remaining {f : Nat → Parser α} (next : ∀ n, Reads (f n) form) :
    Reads (Parser.remaining >>= f) form :=
  fun cursor => next cursor.remaining cursor

/-- A look at the cursor moves nothing. -/
theorem look (test : Cursor → Bool) :
    Reads (fun cursor => .ok (test cursor) cursor) fun used found =>
      (found = true → used = []) ∧ (found = false → used = []) := by
  intro cursor found cursor' _ ran
  cases ran
  exact ⟨[], rfl, fun _ => rfl, fun _ => rfl⟩

theorem peek {literal : String} {f : Bool → Parser α} (next : ∀ found, Reads (f found) form) :
    Reads (Parser.peek literal >>= f) form :=
  fun cursor => next (cursor.isLiteral literal) cursor

/-! ### Words -/

section Words

variable {literal : String} {property : Token → Prop}

/-- A literal is moved behind if it is there, and nothing happens otherwise. -/
theorem accept {f : Bool → Parser α} (finds : Finds literal property)
    (yes : ∀ token, property token → Reads (f true) fun behind a => form (token :: behind) a)
    (no : Reads (f false) form) : Reads (Parser.accept literal >>= f) form := by
  intro cursor a cursor' classified ran
  obtain ⟨found, middle, moved, ran⟩ := bind_eq_ok.mp ran
  unfold Parser.accept Parser.acceptIf Cursor.isLiteral Cursor.isLiteralAhead Cursor.advance
    at moved
  rcases cursor with ⟨_ | ⟨token, rest⟩, index, stop⟩
  · cases moved
    exact no _ a cursor' classified ran
  · simp only [List.getElem?_cons_zero, Option.any_some] at moved
    obtain ⟨here, behind⟩ := List.forall_mem_cons.mp classified
    split at moved
    · next fits =>
        cases moved
        obtain ⟨used, split, hform⟩ :=
          yes token ((finds token here).mp fits) _ a cursor' behind ran
        exact ⟨token :: used, congrArg (token :: ·) split, hform⟩
    · cases moved
      exact no _ a cursor' classified ran

/-- Whether a literal is there is what moving behind it tells. -/
theorem found (finds : Finds literal property) :
    Reads (Parser.accept literal) fun used found =>
      (found = true → ∃ token, used = [token] ∧ property token) ∧ (found = false → used = []) := by
  rw [← bind_pure (Parser.accept literal)]
  exact .accept finds (fun token holds => .pure ⟨fun _ => ⟨token, rfl, holds⟩, nofun⟩)
    (.pure ⟨nofun, fun _ => rfl⟩)

theorem expect {f : Unit → Parser α} (finds : Finds literal property)
    (next : ∀ token, property token → Reads (f ()) fun behind a => form (token :: behind) a) :
    Reads (Parser.expect literal >>= f) form := by
  have found : Reads (Parser.expect literal) fun used _ =>
      ∃ token, used = [token] ∧ property token := by
    unfold Parser.expect
    exact .accept finds (fun token holds => .pure ⟨token, rfl, holds⟩) (.failFinding _)
  refine found.bind ?_
  rintro ⟨⟩ _ ⟨token, rfl, holds⟩
  exact next token holds

end Words

theorem expectToken {test : Token → Bool} {cause : Option String → SyntaxError.Cause} :
    Reads (Parser.expectToken test cause) fun used token => used = [token] ∧ test token = true := by
  intro cursor value cursor' _ ran
  unfold Parser.expectToken at ran
  obtain ⟨_, _, at_, ran⟩ := bind_eq_ok.mp ran
  cases at_
  rcases cursor with ⟨_ | ⟨token, rest⟩, index, stop⟩
  · cases ran
  · simp only [Cursor.current, List.head?_cons] at ran
    split at ran
    · next holds =>
        cases ran
        exact ⟨[value], rfl, rfl, holds⟩
    · cases ran

end Reads

namespace Parser

theorem reads_name : Reads name fun used text => ∃ token, used = [token] ∧ Name text token :=
  Reads.expectToken.bind fun token used holds =>
    .pure ⟨token, by simpa using holds.1, isName_iff.mp holds.2⟩

theorem reads_typeName :
    Reads typeName fun used text => ∃ token, used = [token] ∧ TypeName text token :=
  Reads.expectToken.bind fun token used holds =>
    .pure ⟨token, by simpa using holds.1, by simpa using holds.2, rfl⟩

theorem reads_typed : Reads typeAnnotation Annotates := by
  unfold typeAnnotation
  refine .accept (finds_mark (by decide)) (fun colon hcolon => ?_) (.pure .none)
  refine reads_typeName.bind ?_
  rintro text _ ⟨token, rfl, htoken⟩
  exact .pure (.some hcolon htoken)

/-! ## Repetition -/

section Repetition

variable {α : Type} {item : Parser α}

/-- Where a word or nothing opens an item, the items stand one behind the other. -/
theorem reads_manyWhile {more : Parser Bool} {opens : List Token → Prop}
    {form : List Token → α → Prop}
    (still : Reads more fun used again =>
      (again = true → opens used) ∧ (again = false → used = []))
    (reads : ∀ front, opens front → Reads item fun behind a => form (front ++ behind) a)
    (bound : Nat) : Reads (manyWhile more item bound) (Sequence form) := by
  induction bound with
  | zero => exact .pure .none
  | succ bound ih =>
      unfold manyWhile
      refine still.bind ?_
      rintro again opening ⟨opened, ended⟩
      refine .ite (fun yes => ?_) fun no => ?_
      · refine (reads opening (opened yes)).bind fun first front hfirst => ?_
        refine ih.bind fun items behind hitems => .pure ?_
        simpa using Sequence.more hfirst hitems
      · rw [ended (by simpa using no)]
        exact .pure .none

/-- A look at the next word opens an item too. -/
theorem reads_manyLooking {test : Cursor → Bool} {form : List Token → α → Prop}
    (reads : Reads item form) (bound : Nat) :
    Reads (manyWhile (fun cursor => .ok (test cursor) cursor) item bound) (Sequence form) := by
  refine reads_manyWhile (.look test) ?_ bound
  rintro _ rfl
  exact reads

/-- Items with commas between them, and the word that closes them. -/
theorem reads_separated {form : List Token → α → Prop} {close : String}
    {property : Token → Prop} (finds : Finds close property) (reads : Reads item form)
    {trailing : SyntaxError.Cause} (bound : Nat) :
    Reads (separated item close trailing bound) fun used items =>
      ∃ tokens closing, used = tokens ++ [closing] ∧ Separated form tokens items ∧
        property closing := by
  induction bound with
  | zero =>
      unfold separated
      refine reads.bind fun last tokens hlast => .expect finds fun closing hclosing => .pure ?_
      exact ⟨tokens, closing, rfl, .last hlast, hclosing⟩
  | succ bound ih =>
      unfold separated
      refine reads.bind fun first tokens hfirst => ?_
      refine .accept (finds_mark (by decide)) (fun comma hcomma => ?_) ?_
      · refine .peek fun _ => .ite (fun _ => .fail_bind) fun _ => ih.bind ?_
        rintro items _ ⟨behind, closing, rfl, hitems, hclosing⟩
        refine .pure ⟨tokens ++ comma :: behind, closing, ?_, .more hfirst hcomma hitems, hclosing⟩
        simp
      · refine .expect finds fun closing hclosing => .pure ?_
        exact ⟨tokens, closing, rfl, .last hfirst, hclosing⟩

end Repetition

/-! ## Expressions -/

theorem listed_of_separated {tokens : List Token} {expressions : List Expression}
    (separated : Separated IsExpression tokens expressions) :
    Expresses tokens (.listed expressions) := by
  induction separated with
  | last item => exact .last item
  | more item comma _ ih => exact .more item comma ih

theorem reads_operator {level : Operator.Level} :
    Reads (operator level) fun used found => match found with
      | some operator =>
          ∃ token, used = [token] ∧ operator ∈ level.operators ∧ Mark operator.symbol token
      | none => used = [] := by
  intro cursor value cursor' _ ran
  unfold operator at ran
  obtain ⟨_, _, found, ran⟩ := bind_eq_ok.mp ran
  cases found
  rcases cursor with ⟨_ | ⟨token, rest⟩, index, stop⟩
  · cases ran
    exact ⟨[], rfl, rfl⟩
  · simp only [Cursor.current, List.head?_cons, Option.bind_some] at ran
    cases found : level.operator? token with
    | some operator =>
        rw [found] at ran
        cases ran
        exact ⟨[token], rfl, token, rfl, operator?_eq_some.mp found⟩
    | none =>
        rw [found] at ran
        cases ran
        exact ⟨[], rfl, rfl⟩

section Levels

variable {level : Operator.Level} {operand : Parser Expression}

/-- Further operands extend an expression of the level. -/
theorem reads_operands
    (reads : Reads operand fun used expression => Expresses used (.operand level expression))
    (bound : Nat) {front : List Token} {left : Expression}
    (hleft : Expresses front (.joined level left)) :
    Reads (operands level operand bound left) fun behind expression =>
      Expresses (front ++ behind) (.joined level expression) := by
  induction bound generalizing front left with
  | zero => exact .pure (by simpa using hleft)
  | succ bound ih =>
      unfold operands
      refine reads_operator.bind ?_
      rintro (_ | operator) used found
      · obtain rfl := found
        exact .pure (by simpa using hleft)
      · obtain ⟨token, rfl, member, mark⟩ := found
        refine reads.bind fun right behind hright => ?_
        refine (ih (hleft.operation member mark hright)).mono ?_
        intro used expression h
        simpa using h

theorem reads_joined
    (reads : Reads operand fun used expression => Expresses used (.operand level expression)) :
    Reads (joined level operand) fun used expression =>
      Expresses used (.joined level expression) :=
  reads.bind fun _ _ hfirst => .remaining fun bound => reads_operands reads bound hfirst.operand

end Levels

section Primaries

variable {expression : Parser Expression}

theorem reads_expressionList (reads : Reads expression IsExpression) {close : String}
    {property : Token → Prop} (finds : Finds close property) :
    Reads (expressionList expression close) fun used expressions =>
      ∃ tokens closing, used = tokens ++ [closing] ∧ Expresses tokens (.listed expressions) ∧
        property closing := by
  refine .remaining fun bound => (reads_separated finds reads bound).mono ?_
  rintro _ expressions ⟨tokens, closing, rfl, separated, hclosing⟩
  exact ⟨tokens, closing, rfl, listed_of_separated separated, hclosing⟩

theorem reads_afterName (reads : Reads expression IsExpression) {name : String} {token : Token}
    (hname : Name name token) :
    Reads (afterName expression name) fun behind value =>
      Expresses (token :: behind) (.primary value) := by
  unfold afterName
  refine .accept (finds_mark (by decide)) (fun opening hopening => ?_) ?_
  · refine .accept (finds_mark (by decide)) (fun closing hclosing => ?_) ?_
    · exact .pure (.emptyCall hname hopening hclosing)
    · refine (reads_expressionList reads (finds_mark (by decide))).bind ?_
      rintro arguments _ ⟨tokens, closing, rfl, harguments, hclosing⟩
      exact .pure (by simpa using .call hname hopening harguments hclosing)
  · refine .accept (finds_mark (by decide)) (fun opening hopening => ?_) (.pure (.access hname))
    refine reads.bind fun index tokens hindex => ?_
    refine .expect (finds_mark (by decide)) fun closing hclosing => .pure ?_
    exact .element hname hopening hindex hclosing

theorem reads_atom (reads : Reads expression IsExpression) :
    Reads (atom expression) fun used value => Expresses used (.primary value) := by
  intro cursor value cursor' classified ran
  unfold atom at ran
  obtain ⟨_, _, found, ran⟩ := bind_eq_ok.mp ran
  cases found
  rcases cursor with ⟨_ | ⟨token, rest⟩, index, stop⟩
  · cases ran
  · obtain ⟨here, behind⟩ := List.forall_mem_cons.mp classified
    simp only [Cursor.current, List.head?_cons] at ran
    split at ran
    · next hname =>
        obtain ⟨_, _, moved, ran⟩ := bind_eq_ok.mp ran
        cases moved
        obtain ⟨used, split, hform⟩ :=
          reads_afterName reads (isName_iff.mp hname) _ value cursor' behind ran
        exact ⟨token :: used, congrArg (token :: ·) split, hform⟩
    · cases decoded : literalOf token with
      | ok literal =>
          rw [decoded] at ran
          cases ran
          have hkind : token.kind ≠ .identifier := by
            intro hkind
            simp [literalOf, hkind] at decoded
          exact ⟨[token], rfl, .literal ((literalOf_eq_ok hkind).mp decoded)⟩
      | error cause =>
          rw [decoded] at ran
          cases ran

theorem reads_primaryOver (reads : Reads expression IsExpression) :
    Reads (primaryOver expression) fun used value => Expresses used (.primary value) := by
  unfold primaryOver
  refine .accept (finds_reserved (by decide)) (fun word hword => .pure (.literal (.nil hword))) ?_
  refine .accept (finds_reserved (by decide)) (fun word hword => .pure (.literal (.true hword))) ?_
  refine .accept (finds_reserved (by decide)) (fun word hword => .pure (.literal (.false hword))) ?_
  refine .accept (finds_mark (by decide)) (fun opening hopening => ?_) (reads_atom reads)
  refine reads.bind fun inner tokens hinner => ?_
  exact .expect (finds_mark (by decide)) fun closing hclosing =>
    .pure (.group hopening hinner hclosing)

end Primaries

theorem reads_logicalOver {primary : Parser Expression}
    (reads : Reads primary fun used expression => Expresses used (.primary expression)) :
    Reads (logicalOver primary) IsExpression :=
  reads_joined (reads_joined (reads_joined (reads_joined reads)))

theorem reads_primaryWithin (bound : Nat) :
    Reads (primaryWithin bound) fun used expression => Expresses used (.primary expression) := by
  induction bound with
  | zero => exact .fail _
  | succ bound ih => exact reads_primaryOver (reads_logicalOver ih)

theorem reads_expression : Reads expression IsExpression :=
  .remaining fun bound => reads_logicalOver (reads_primaryWithin bound)

/-! ## Statements -/

theorem reads_declaration {word : Token} (hword : Reserved "LET" word) :
    Reads declaration fun behind statement => States (word :: behind) (.statement statement) := by
  unfold declaration
  refine reads_name.bind ?_
  rintro name _ ⟨token, rfl, hname⟩
  refine reads_typed.bind fun typeName typed htyped => ?_
  have close : ∀ initial value, Initialises initial value →
      Reads (do expect ";"; return Statement.declaration name typeName value none)
        fun behind statement =>
          States (word :: token :: (typed ++ (initial ++ behind))) (.statement statement) :=
    fun initial value hinitial => .expect (finds_mark (by decide)) fun semicolon hsemicolon =>
      .pure (.declaration hword hname htyped hinitial hsemicolon)
  have optional : Reads (some <$> expression) fun tokens value =>
      ∀ equals, Mark "=" equals → Initialises (equals :: tokens) value :=
    .map (reads_expression.mono fun tokens value hvalue equals hequals => .some hequals hvalue)
  refine .accept (finds_mark (by decide)) (fun equals hequals => ?_) ?_
  · exact optional.bind fun value tokens hvalue => close _ value (hvalue equals hequals)
  · exact close [] none .none

theorem reads_result {word : Token} (hword : Reserved "RETURN" word) :
    Reads result fun behind statement => States (word :: behind) (.statement statement) :=
  reads_expression.bind fun _ _ hvalue => .expect (finds_mark (by decide))
    fun _ hsemicolon => .pure (.result hword hvalue hsemicolon)

theorem reads_effect : Reads effect fun used statement => States used (.statement statement) := by
  unfold effect
  refine reads_expression.bind fun first target hfirst => ?_
  refine .accept (finds_mark (by decide)) (fun equals hequals => ?_) ?_
  · refine reads_expression.bind fun value tokens hvalue => ?_
    exact .expect (finds_mark (by decide)) fun semicolon hsemicolon =>
      .pure (.assignment hfirst hequals hvalue hsemicolon)
  · exact .expect (finds_mark (by decide)) fun semicolon hsemicolon =>
      .pure (.effect hfirst hsemicolon)

/-! ### Statements with blocks -/

/-- The words of a case are those that make more cases of cases behind them. -/
def Leads (used : List Token) (first : Case) : Prop :=
  ∀ rest cases, States rest (.cases cases) → States (used ++ rest) (.cases (first :: cases))

section Blocks

variable {block : Parser (List Statement)}
  (reads : Reads block fun used statements => States used (.block statements))
include reads

theorem reads_branch {word : Token} (hword : Reserved "IF" word) :
    Reads (branch block) fun behind statement =>
      States (word :: behind) (.statement statement) := by
  unfold branch
  refine reads_expression.bind fun condition test htest => ?_
  refine .expect (finds_reserved (by decide)) fun opening hopening => ?_
  refine reads.bind fun thenBody front hthen => ?_
  refine .ite (fun _ => .fail_bind) fun hfilled => ?_
  have filled : thenBody ≠ [] := by simpa using hfilled
  refine .accept (finds_reserved (by decide)) (fun other hother => ?_) ?_
  · refine reads.bind fun elseBody behind helse => ?_
    exact .expect (finds_reserved (by decide)) fun closing hclosing =>
      .pure (.alternative hword htest hopening hthen filled hother helse hclosing)
  · have nothing : Reads (pure []) fun used (body : List Statement) => used = [] ∧ body = [] :=
      .pure ⟨rfl, rfl⟩
    refine nothing.bind ?_
    rintro _ _ ⟨rfl, rfl⟩
    exact .expect (finds_reserved (by decide)) fun closing hclosing =>
      .pure (.branch hword htest hopening hthen filled hclosing)

theorem reads_loop {word : Token} (hword : Reserved "WHILE" word) :
    Reads (loop block) fun behind statement => States (word :: behind) (.statement statement) := by
  unfold loop
  refine reads_expression.bind fun condition test htest => ?_
  refine .expect (finds_reserved (by decide)) fun opening hopening => ?_
  refine reads.bind fun body front hbody => ?_
  exact .expect (finds_reserved (by decide)) fun closing hclosing =>
    .pure (.loop hword htest hopening hbody hclosing)

theorem reads_cases (bound : Nat) :
    Reads (manyWhile (accept "CASE") (case block) bound) fun used cases =>
      States used (.cases cases) := by
  have one : ∀ front, (∃ word, front = [word] ∧ Reserved "CASE" word) →
      Reads (case block) fun behind first => Leads (front ++ behind) first := by
    rintro _ ⟨word, rfl, hword⟩
    refine reads_expression.bind fun value tokens hvalue => ?_
    refine .expect (finds_mark (by decide)) fun colon hcolon => ?_
    refine reads.bind fun body behind hbody => .pure fun rest cases hcases => ?_
    simpa using States.cases hword hvalue hcolon hbody hcases
  refine (reads_manyWhile (.found (finds_reserved (by decide))) one bound).mono ?_
  intro used cases hsequence
  induction hsequence with
  | none => exact .noCase
  | more hfirst _ ih => exact hfirst _ _ ih

theorem reads_switch {word : Token} (hword : Reserved "SWITCH" word) :
    Reads (switch block) fun behind statement =>
      States (word :: behind) (.statement statement) := by
  unfold switch
  refine reads_expression.bind fun condition test htest => .remaining fun bound => ?_
  refine (reads_cases reads bound).bind fun cases branches hcases => ?_
  refine .ite (fun _ => .fail_bind) fun hfilled => ?_
  have filled : cases ≠ [] := by simpa using hfilled
  refine .expect (finds_reserved (by decide)) fun last hlast => ?_
  refine reads.bind fun body front hbody => ?_
  exact .expect (finds_reserved (by decide)) fun closing hclosing =>
    .pure (.switch hword htest hcases filled hlast hbody hclosing)

theorem reads_statementOver :
    Reads (statementOver block) fun used statement => States used (.statement statement) := by
  unfold statementOver
  refine .accept (finds_reserved (by decide)) (fun _ hword => reads_declaration hword) ?_
  refine .accept (finds_reserved (by decide)) (fun _ hword => reads_switch reads hword) ?_
  refine .accept (finds_reserved (by decide)) (fun _ hword => reads_branch reads hword) ?_
  refine .accept (finds_reserved (by decide)) (fun _ hword => reads_loop reads hword) ?_
  exact .accept (finds_reserved (by decide)) (fun _ hword => reads_result hword) reads_effect

end Blocks

theorem reads_statements {statement : Parser Statement}
    (reads : Reads statement fun used statement => States used (.statement statement))
    (bound : Nat) :
    Reads (statements statement bound) fun used statements => States used (.block statements) := by
  induction bound with
  | zero => exact .fail _
  | succ bound ih =>
      unfold statements
      have still : Reads atBlockEnd fun used _ => used = [] := by
        intro cursor value cursor' _ ran
        unfold atBlockEnd at ran
        split at ran
        · cases ran
        · cases ran
          exact ⟨[], rfl, rfl⟩
      refine still.bind ?_
      rintro ended _ rfl
      refine .ite (fun _ => .pure .noStatement) fun _ => ?_
      refine reads.bind fun first front hfirst => ih.bind fun statements behind hrest => .pure ?_
      simpa using States.statements hfirst hrest

theorem reads_statementWithin (bound : Nat) :
    Reads (statementWithin bound) fun used statement => States used (.statement statement) := by
  induction bound with
  | zero => exact reads_statementOver (.fail _)
  | succ bound ih => exact reads_statementOver (.remaining fun bound => reads_statements ih bound)

theorem reads_block : Reads block fun used statements => States used (.block statements) :=
  .remaining fun depth => .remaining fun bound =>
    reads_statements (reads_statementWithin depth) bound

/-! ## Programs -/

theorem reads_listGlobal {word : Token} (hword : Reserved "LIST" word) :
    Reads listGlobal fun behind global => ∀ semicolon, Mark ";" semicolon →
      IsGlobal (word :: (behind ++ [semicolon])) global := by
  unfold listGlobal
  refine reads_name.bind ?_
  rintro name _ ⟨token, rfl, hname⟩
  refine reads_typed.bind fun typeName typed htyped => ?_
  refine .expect (finds_mark (by decide)) fun equals hequals => ?_
  refine .expect (finds_mark (by decide)) fun opening hopening => ?_
  refine (reads_expressionList reads_expression (finds_mark (by decide))).bind ?_
  rintro elements _ ⟨tokens, closing, rfl, helements, hclosing⟩
  refine .pure fun semicolon hsemicolon => ?_
  simpa using .list hword hname htyped hequals hopening helements hclosing hsemicolon

theorem reads_openGlobal :
    Reads openGlobal fun used global => ∀ semicolon, Mark ";" semicolon →
      IsGlobal (used ++ [semicolon]) global := by
  have single : ∀ isMutable, Reads (variableGlobal isMutable) fun behind global =>
      ∃ name token typed typeName initial value, behind = token :: (typed ++ initial) ∧
        Name name token ∧ Annotates typed typeName ∧ Initialises initial value ∧
        (isMutable = false → value.isSome) ∧
        global = ⟨name, typeName, isMutable, value, none⟩ := by
    intro isMutable
    unfold variableGlobal
    refine reads_name.bind ?_
    rintro name _ ⟨token, rfl, hname⟩
    refine reads_typed.bind fun typeName typed htyped => ?_
    refine .accept (finds_mark (by decide)) (fun equals hequals => ?_) ?_
    · refine reads_expression.bind fun value tokens hvalue => .pure ?_
      exact ⟨name, token, typed, typeName, equals :: tokens, some value, by simp, hname, htyped,
        .some hequals hvalue, fun _ => rfl, rfl⟩
    · cases isMutable with
      | false => exact .fail _
      | true =>
          exact .pure ⟨name, token, typed, typeName, [], none, by simp, hname, htyped, .none, nofun,
            rfl⟩
  unfold openGlobal
  refine .accept (finds_reserved (by decide)) (fun word hword => reads_listGlobal hword) ?_
  refine .accept (finds_reserved (by decide)) (fun word hword => ?_) ?_
  · refine (single true).mono ?_
    rintro _ _ ⟨name, token, typed, typeName, initial, value, rfl, hname, htyped, hinitial, -, rfl⟩
    intro semicolon hsemicolon
    simpa using .mutable hword hname htyped hinitial hsemicolon
  refine .accept (finds_reserved (by decide)) (fun word hword => ?_) (.fail _)
  refine (single false).mono ?_
  rintro _ _ ⟨name, token, typed, typeName, initial, value, rfl, hname, htyped, hinitial, given,
    rfl⟩
  obtain ⟨value, rfl⟩ := Option.isSome_iff_exists.mp (given rfl)
  intro semicolon hsemicolon
  simpa using .immutable hword hname htyped hinitial hsemicolon

theorem reads_global : Reads global IsGlobal :=
  reads_openGlobal.bind fun _ _ hglobal => .expect (finds_mark (by decide))
    fun semicolon hsemicolon => .pure (hglobal semicolon hsemicolon)

theorem reads_parameter : Reads parameter IsParameter := by
  unfold parameter
  refine reads_name.bind ?_
  rintro name _ ⟨token, rfl, hname⟩
  refine .expect (finds_mark (by decide)) fun colon hcolon => reads_typeName.bind ?_
  rintro typeName _ ⟨type, rfl, htype⟩
  exact .pure (.parameter hname hcolon htype)

theorem reads_parameters :
    Reads parameters fun used parameters => ∃ tokens closing, used = tokens ++ [closing] ∧
      AreParameters tokens parameters ∧ Mark ")" closing := by
  unfold parameters
  refine .accept (finds_mark (by decide)) (fun closing hclosing => ?_) (.remaining fun bound => ?_)
  · exact .pure ⟨[], closing, rfl, .none, hclosing⟩
  · refine (reads_separated (finds_mark (by decide)) reads_parameter bound).mono ?_
    rintro _ parameters ⟨tokens, closing, rfl, hparameters, hclosing⟩
    exact ⟨tokens, closing, rfl, .some hparameters, hclosing⟩

theorem reads_function : Reads function IsFunction := by
  unfold function
  refine .expect (finds_reserved (by decide)) fun word hword => reads_name.bind ?_
  rintro name _ ⟨token, rfl, hname⟩
  refine .expect (finds_mark (by decide)) fun opening hopening => reads_parameters.bind ?_
  rintro parameters _ ⟨tokens, closing, rfl, hparameters, hclosing⟩
  refine reads_typed.bind fun returnTypeName typed htyped => ?_
  refine .expect (finds_reserved (by decide)) fun start hstart => ?_
  refine reads_block.bind fun body block hbody => ?_
  refine .expect (finds_reserved (by decide)) fun stop hstop => .pure ?_
  simpa using .function hword hname hopening hparameters hclosing htyped hstart hbody hstop

/-- A program that is read is written by the words it is read from, to the last one. -/
theorem writes_of_program {cursor cursor' : Cursor} {tree : Program}
    (classified : AllClassified cursor.rest) (ran : program cursor = .ok tree cursor') :
    Writes cursor.rest tree := by
  unfold program at ran
  obtain ⟨bound, _, hbound, ran⟩ := bind_eq_ok.mp ran
  cases hbound
  obtain ⟨globals, middle, hglobals, ran⟩ := bind_eq_ok.mp ran
  obtain ⟨bound, _, hbound, ran⟩ := bind_eq_ok.mp ran
  cases hbound
  obtain ⟨functions, last, hfunctions, ran⟩ := bind_eq_ok.mp ran
  split at ran
  · cases ran
  next filled =>
  obtain ⟨found, _, hfound, ran⟩ := bind_eq_ok.mp ran
  cases hfound
  have ended : last.rest = [] := by
    cases hrest : last.rest with
    | nil => rfl
    | cons token rest =>
        simp only [Cursor.current, hrest, List.head?_cons] at ran
        cases ran
  simp only [Cursor.current, ended, List.head?_nil] at ran
  cases ran
  obtain ⟨front, hfront, sequence⟩ := reads_manyLooking reads_global _ _ _ _ classified hglobals
  rw [hfront, AllClassified.append] at classified
  obtain ⟨behind, hbehind, sequence'⟩ :=
    reads_manyLooking reads_function _ _ _ _ classified.2 hfunctions
  rw [hfront, hbehind, ended, List.append_nil]
  exact .program sequence sequence' (by simpa using filled)

end Parser

end TinyScript
