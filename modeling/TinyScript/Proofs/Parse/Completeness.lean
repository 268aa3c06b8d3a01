import TinyScript.Proofs.Parse.Taking

/-!
# What is written is read

A parser that stands before words of its form takes exactly them and returns their tree, provided
that the word behind them cannot continue the form.

An operation associates to the left while the reader adds one operand after the other. For this the
words of an expression are shown to bring the reader into its loop with that expression as what was
read so far (`TakenJoined`). The main statement is `Parser.takes_program`.
-/

namespace TinyScript

open Grammar Token

namespace Parser

/-! ## Expressions -/

variable {token : Token} {tokens rest out : List Token}

theorem takes_operator {level : Operator.Level} {operator : Operator}
    (member : operator ∈ level.operators) (mark : Mark operator.symbol token) :
    Takes (Parser.operator level) (token :: rest) (some operator) rest := by
  refine .bind .current ?_
  simp only [List.head?_cons, Option.bind_some, operator?_eq_some.mpr ⟨member, mark⟩]
  exact .bind .advance .pure

theorem takes_noOperator {level : Operator.Level}
    (free : ∀ token ∈ rest.head?, level.operator? token = none) :
    Takes (Parser.operator level) rest none rest := by
  refine .bind .current ?_
  cases rest with
  | nil => exact .pure
  | cons token rest =>
      simp only [List.head?_cons, Option.bind_some, free token rfl]
      exact .pure

/-- The parser for the operands of a level over given primary expressions. -/
def operandOver : Operator.Level → Parser Expression → Parser Expression
  | .logical, primary => comparisonOver primary
  | .comparison, primary => additiveOver primary
  | .additive, primary => multiplicativeOver primary
  | .multiplicative, primary => primary

/-- The parser for expressions of a level over given primary ones. -/
def levelOver (level : Operator.Level) (primary : Parser Expression) : Parser Expression :=
  joined level (operandOver level primary)

/-- A reader takes the words of a primary expression, whatever the bound that pays for them. -/
def TakenPrimary (tokens : List Token) (expression : Expression) : Prop :=
  ∀ bound rest, tokens.length ≤ bound → Unfollowed 4 rest →
    Takes (primaryWithin bound) (tokens ++ rest) expression rest

/-- The words of an expression of a level bring a reader into its loop, with that expression as what
was read so far. -/
def TakenJoined (level : Operator.Level) (tokens : List Token) (expression : Expression) : Prop :=
  ∀ bound rest value out, tokens.length ≤ bound → Unfollowed (level.rank + 1) rest →
    (∀ n, rest.length ≤ n →
      Takes (operands level (operandOver level (primaryWithin bound)) n expression)
        rest value out) →
    Takes (levelOver level (primaryWithin bound)) (tokens ++ rest) value out

/-- What is shown of the words of a form. -/
def Taken (tokens : List Token) : Phrase → Prop
  | .primary expression => TakenPrimary tokens expression
  | .joined level expression => TakenJoined level tokens expression
  | .listed expressions =>
      Separated (fun tokens expression =>
        IsExpression tokens expression ∧ TakenJoined .logical tokens expression) tokens expressions

/-- Where no operator of the level follows, the loop ends at once. -/
theorem TakenJoined.takes {level : Operator.Level} {expression : Expression} {bound : Nat}
    (taken : TakenJoined level tokens expression) (paid : tokens.length ≤ bound)
    (ends : Unfollowed level.rank rest) :
    Takes (levelOver level (primaryWithin bound)) (tokens ++ rest) expression rest := by
  refine taken bound rest expression rest paid (ends.mono (Nat.le_succ _)) fun n _ => ?_
  cases n with
  | zero => exact .pure
  | succ n => exact .bind (takes_noOperator (ends.noOperator level (Nat.le_refl _))) .pure

theorem Taken.operand_takes {level : Operator.Level} {expression : Expression} {bound : Nat}
    (taken : Taken tokens (.operand level expression)) (paid : tokens.length ≤ bound)
    (ends : Unfollowed (level.rank + 1) rest) :
    Takes (operandOver level (primaryWithin bound)) (tokens ++ rest) expression rest := by
  cases level with
  | logical => exact TakenJoined.takes taken paid ends
  | comparison => exact TakenJoined.takes taken paid ends
  | additive => exact TakenJoined.takes taken paid ends
  | multiplicative => exact taken bound rest paid ends

/-! ### Primary expressions -/

/-- A word that is a name is none of the words before which a primary expression is no atom. -/
theorem takes_primaryOver_of_name {expression : Parser Expression} {name : String}
    {value : Expression} (hname : Name name token)
    (next : Takes (afterName expression name) tokens value rest) :
    Takes (primaryOver expression) (token :: tokens) value rest := by
  refine .of_classified fun classified => ?_
  have noParenthesis : token.isLiteral "(" = false :=
    (List.forall_mem_cons.mp classified).1.isLiteral_of_kind (by rw [hname.1]; decide)
  unfold primaryOver
  refine .skip (by simpa using hname.isLiteral (by decide)) ?_
  refine .skip (by simpa using hname.isLiteral (by decide)) ?_
  refine .skip (by simpa using hname.isLiteral (by decide)) ?_
  refine .skip (by simpa using noParenthesis) ?_
  refine .bind .current ?_
  obtain ⟨kind, rfl, free⟩ := hname
  simp only [List.head?_cons, isName_iff.mpr ⟨kind, rfl, free⟩, if_true]
  exact .bind .advance next

theorem takes_literal {expression : Parser Expression} {value : Literal}
    (hvalue : Denotes token value) :
    Takes (primaryOver expression) (token :: rest) (.literal value none) rest := by
  refine .of_classified fun classified => ?_
  have here : token.Classified := (List.forall_mem_cons.mp classified).1
  -- Three literals are words of their own; all others are atoms.
  have ofAtom : token.kind ≠ .identifier → token.kind ≠ .operator →
      Takes (primaryOver expression) (token :: rest) (.literal value none) rest := by
    intro noIdentifier noOperator
    have noWord : ∀ word, classify word.toList = .identifier → Lacks word (token :: rest) :=
      fun word kind => lacks_cons.mpr (here.isLiteral_of_kind (by rwa [kind]))
    have noParenthesis : Lacks "(" (token :: rest) :=
      lacks_cons.mpr (here.isLiteral_of_kind noOperator)
    unfold primaryOver
    refine .skip (noWord _ (by decide)) (.skip (noWord _ (by decide)) ?_)
    refine .skip (noWord _ (by decide)) (.skip noParenthesis ?_)
    refine .bind .current ?_
    have noName : token.isName = false := by simp [Token.isName, noIdentifier]
    simp only [List.head?_cons, noName, Bool.false_eq_true, if_false,
      (literalOf_eq_ok noIdentifier).mpr hvalue]
    exact .bind .advance .pure
  cases hvalue with
  | nil hword => exact .accept hword.isLiteral .pure
  | true hword =>
      refine .skip (hword.lacks (by decide)) ?_
      exact .accept hword.isLiteral .pure
  | false hword =>
      refine .skip (hword.lacks (by decide)) ?_
      refine .skip (hword.lacks (by decide)) ?_
      exact .accept hword.isLiteral .pure
  | integer kind => exact ofAtom (by rw [kind]; decide) (by rw [kind]; decide)
  | decimal kind => exact ofAtom (by rw [kind]; decide) (by rw [kind]; decide)
  | character kind => exact ofAtom (by rw [kind]; decide) (by rw [kind]; decide)
  | string kind => exact ofAtom (by rw [kind]; decide) (by rw [kind]; decide)

/-- A primary expression has a word at least, which pays for what it holds. -/
theorem TakenPrimary.of_takes {expression : Expression}
    (takes : ∀ bound rest, tokens.length ≤ bound + 1 → Unfollowed 4 rest →
      Takes (primaryOver (levelOver .logical (primaryWithin bound)))
        (token :: (tokens ++ rest)) expression rest) :
    TakenPrimary (token :: tokens) expression := by
  intro bound rest paid ends
  cases bound with
  | zero => cases paid
  | succ bound => exact takes bound rest (by simp at paid; omega) ends

theorem takenPrimary_group {opening closing : Token} {inner : Expression}
    (hopening : Mark "(" opening) (hclosing : Mark ")" closing)
    (taken : TakenJoined .logical tokens inner) :
    TakenPrimary (opening :: (tokens ++ [closing])) (.group inner none) := by
  refine .of_takes fun bound rest paid _ => ?_
  unfold primaryOver
  refine .skip (hopening.lacks (by decide)) (.skip (hopening.lacks (by decide)) ?_)
  refine .skip (hopening.lacks (by decide)) (.accept hopening.isLiteral ?_)
  rw [List.append_assoc]
  refine .bind (taken.takes (by simp at paid; omega) ?_) (.expect hclosing.isLiteral .pure)
  exact unfollowed_of_closes hclosing.isLiteral (by decide) _

theorem takenPrimary_element {name : String} {opening closing : Token} {index : Expression}
    (hname : Name name token) (hopening : Mark "[" opening) (hclosing : Mark "]" closing)
    (taken : TakenJoined .logical tokens index) :
    TakenPrimary (token :: opening :: (tokens ++ [closing]))
      (.element name index none none) := by
  refine .of_takes fun bound rest paid _ => takes_primaryOver_of_name hname ?_
  rw [List.cons_append, List.append_assoc]
  refine .skip (hopening.lacks (by decide)) (.accept hopening.isLiteral ?_)
  refine .bind (taken.takes (by simp at paid; omega) ?_) (.expect hclosing.isLiteral .pure)
  exact unfollowed_of_closes hclosing.isLiteral (by decide) _

theorem takenPrimary_call {name : String} {opening closing : Token}
    {arguments : List Expression} (hname : Name name token) (hopening : Mark "(" opening)
    (hclosing : Mark ")" closing)
    (written : Separated (fun tokens expression =>
      IsExpression tokens expression ∧ TakenJoined .logical tokens expression) tokens arguments) :
    TakenPrimary (token :: opening :: (tokens ++ [closing]))
      (.call name arguments none none) := by
  refine .of_takes fun bound rest paid _ => takes_primaryOver_of_name hname ?_
  rw [List.cons_append, List.append_assoc]
  refine .of_classified fun classified => .accept hopening.isLiteral (.skip ?_ ?_)
  · have inside := (AllClassified.append.mp (List.forall_mem_cons.mp classified).2).1
    cases written with
    | last hlast => exact hlast.1.lacks inside (by decide)
    | more hfirst _ _ =>
        rw [List.append_assoc]
        exact hfirst.1.lacks (AllClassified.append.mp inside).1 (by decide)
  · refine .bind (.remaining ?_) .pure
    have inside : tokens.length ≤ bound := by
      simp at paid
      omega
    refine takes_separated (separated_bounded written inside)
      (fun {front rest value token} h fits => ?_) (fun h inside => h.1.1.lacks inside (by decide))
      hclosing.isLiteral (by decide) (by simp)
    refine h.1.2.takes h.2 ?_
    rcases fits with fits | fits
    · exact unfollowed_of_closes fits (by decide) 0
    · exact unfollowed_of_closes fits (by decide) 0

/-! ### Operators -/

/-- One more operand extends what was read before it. -/
theorem takenJoined_operation {level : Operator.Level} {operator : Operator}
    {left right : Expression} {front behind : List Token}
    (hleft : TakenJoined level front left) (member : operator ∈ level.operators)
    (mark : Mark operator.symbol token) (hright : Taken behind (.operand level right)) :
    TakenJoined level (front ++ token :: behind) (.binary operator left right none) := by
  intro bound rest value out paid ends next
  rw [List.length_append, List.length_cons] at paid
  rw [List.append_assoc]
  refine hleft bound _ value out (by omega) (unfollowed_of_operator member mark) fun n enough => ?_
  cases n with
  | zero => cases enough
  | succ n =>
      refine .bind (takes_operator member mark) ?_
      refine .bind (hright.operand_takes (by omega) ends) (next n ?_)
      simp at enough
      omega

/-- The words of an expression are taken, by induction on how they make it up. -/
theorem Taken.of_expresses {phrase : Phrase} (h : Expresses tokens phrase) :
    Taken tokens phrase := by
  induction h with
  | literal hvalue => exact TakenPrimary.of_takes fun _ _ _ _ => takes_literal hvalue
  | group hopening _ hclosing taken => exact takenPrimary_group hopening hclosing taken
  | access hname =>
      exact TakenPrimary.of_takes fun _ _ _ ends =>
        takes_primaryOver_of_name hname (.skip ends.noCall (.skip ends.noIndex .pure))
  | element hname hopening _ hclosing taken =>
      exact takenPrimary_element hname hopening hclosing taken
  | emptyCall hname hopening hclosing =>
      exact TakenPrimary.of_takes fun _ _ _ _ => takes_primaryOver_of_name hname
        (.accept hopening.isLiteral (.accept hclosing.isLiteral .pure))
  | call hname hopening _ hclosing taken =>
      exact takenPrimary_call hname hopening hclosing taken
  | operand _ taken =>
      intro bound rest value out paid ends next
      exact .bind (taken.operand_takes paid ends) (.remaining (next _ (Nat.le_refl _)))
  | operation _ member mark _ taken taken' =>
      exact takenJoined_operation taken member mark taken'
  | last written taken => exact Separated.last ⟨written, taken⟩
  | more written hcomma _ taken taken' => exact Separated.more ⟨written, taken⟩ hcomma taken'

theorem takes_expression {value : Expression} (h : IsExpression tokens value)
    (ends : Unfollowed 0 rest) : Takes expression (tokens ++ rest) value rest :=
  .remaining (TakenJoined.takes (Taken.of_expresses h) (by simp) ends)

/-- The shape in which rules use expressions: a closing word stands behind them. -/
theorem takes_expression_before {value : Expression} {literal : String}
    (h : IsExpression tokens value) (fits : token.isLiteral literal = true)
    (closing : closes literal = true) :
    Takes expression (tokens ++ token :: rest) value (token :: rest) :=
  takes_expression h (unfollowed_of_closes fits closing 0)

theorem takes_elements {elements : List Expression} {closing : Token}
    (h : Expresses tokens (.listed elements)) (hclosing : Mark "]" closing) :
    Takes (expressionList expression "]") (tokens ++ closing :: rest) elements rest := by
  refine .remaining ?_
  refine takes_separated (Taken.of_expresses h) (fun {front rest value token} h fits => ?_)
    (fun h inside => h.1.lacks inside (by decide)) hclosing.isLiteral (by decide) (by simp)
  rcases fits with fits | fits
  · exact takes_expression_before h.1 fits (by decide)
  · exact takes_expression_before h.1 fits (by decide)

/-! ## Statements -/

/-- Behind a block stands a word that ends it. -/
def Ends (token : Token) : Prop := ∃ word ∈ blockEnds, token.isLiteral word = true

theorem takes_atBlockEnd :
    Takes atBlockEnd (token :: rest) (blockEnds.any token.isLiteral) (token :: rest) := by
  rintro ⟨_, index, stop⟩ rfl classified
  exact ⟨_, rfl, rfl, classified⟩

/-- What it is for a reader to take the words of a form of statements, whatever the bound that pays
for them. -/
def TakenForm (tokens : List Token) : Form → Prop
  | .statement statement => ∀ bound rest, tokens.length ≤ bound →
      Takes (statementWithin bound) (tokens ++ rest) statement rest
  | .block body => ∀ bound n token rest, tokens.length ≤ bound → tokens.length < n →
      Ends token →
      Takes (statements (statementWithin bound) n) (tokens ++ token :: rest) body (token :: rest)
  | .cases cases => ∀ bound n token rest, tokens.length ≤ bound → tokens.length ≤ n →
      token.isLiteral "DEFAULT" = true →
      Takes (manyWhile (accept "CASE") (case (blockOver (statementWithin bound))) n)
        (tokens ++ token :: rest) cases (token :: rest)

theorem TakenForm.body {statements : List Statement} {bound : Nat}
    (taken : TakenForm tokens (.block statements)) (paid : tokens.length ≤ bound) {word : String}
    (fits : token.isLiteral word = true) (hword : word ∈ blockEnds) :
    Takes (blockOver (statementWithin bound)) (tokens ++ token :: rest) statements
      (token :: rest) :=
  .remaining (taken bound _ token rest paid (by simp) ⟨word, hword, fits⟩)

theorem TakenForm.statement {statement : Statement}
    (takes : ∀ bound rest, tokens.length ≤ bound →
      Takes (statementOver (blockOver (statementWithin bound))) (token :: (tokens ++ rest))
        statement rest) :
    TakenForm (token :: tokens) (.statement statement) := by
  intro bound rest paid
  cases bound with
  | zero => cases paid
  | succ bound => exact takes bound rest (by simpa using paid)

section Statements

variable {word : Token}

theorem TakenForm.declaration {name : String} {typed initial : List Token}
    {typeName : Option String} {value : Option Expression} {semicolon : Token}
    (hword : Reserved "LET" word) (hname : Name name token) (htyped : Annotates typed typeName)
    (hinitial : Initialises initial value) (hsemicolon : Mark ";" semicolon) :
    TakenForm (word :: token :: (typed ++ (initial ++ [semicolon])))
      (.statement (.declaration name typeName value none)) := by
  refine .statement fun bound rest _ => ?_
  rw [List.cons_append, List.append_assoc, List.append_assoc]
  refine .accept hword.isLiteral (.bind (takes_name hname) ?_)
  cases hinitial with
  | none =>
      refine .bind (takes_typed htyped (hsemicolon.lacks (by decide))) ?_
      exact .skip (hsemicolon.lacks (by decide)) (.bind .pure (.expect hsemicolon.isLiteral .pure))
  | some hequals hvalue =>
      rw [List.cons_append]
      refine .bind (takes_typed htyped ?_) (.accept hequals.isLiteral ?_)
      · exact hequals.lacks (by decide)
      · refine .bind (.map (takes_expression_before hvalue hsemicolon.isLiteral (by decide))) ?_
        exact .expect hsemicolon.isLiteral .pure

/-- A statement that starts with none of the words of other statements is read as an effect. -/
theorem TakenForm.effect {statement : Statement} {front : List Token} {expression : Expression}
    (hfront : IsExpression front expression)
    (takes : ∀ rest, Takes effect (front ++ (tokens ++ rest)) statement rest) :
    TakenForm (front ++ tokens) (.statement statement) := by
  obtain ⟨first, behind, rfl, starts⟩ := hfront.starts
  refine .statement fun bound rest _ => .of_classified fun classified => ?_
  have apart : ∀ word, isForeign word = true →
      Lacks word (first :: (behind.append tokens ++ rest)) := fun word foreign =>
    lacks_cons.mpr (starts.isLiteral (List.forall_mem_cons.mp classified).1 foreign)
  unfold statementOver
  refine .skip (apart _ (by decide)) (.skip (apart _ (by decide)) (.skip (apart _ (by decide)) ?_))
  refine .skip (apart _ (by decide)) (.skip (apart _ (by decide)) ?_)
  simpa using takes rest

theorem TakenForm.assignment {target : List Token} {receiver value : Expression}
    {equals semicolon : Token} (htarget : IsExpression target receiver) (hequals : Mark "=" equals)
    (hvalue : IsExpression tokens value) (hsemicolon : Mark ";" semicolon) :
    TakenForm (target ++ equals :: (tokens ++ [semicolon]))
      (.statement (.assignment receiver value)) := by
  refine .effect htarget fun rest => ?_
  rw [List.cons_append, List.append_assoc]
  refine .bind (takes_expression_before htarget hequals.isLiteral (by decide)) ?_
  refine .accept hequals.isLiteral ?_
  refine .bind (takes_expression_before hvalue hsemicolon.isLiteral (by decide)) ?_
  exact .expect hsemicolon.isLiteral .pure

theorem TakenForm.alone {value : Expression} {semicolon : Token}
    (hvalue : IsExpression tokens value) (hsemicolon : Mark ";" semicolon) :
    TakenForm (tokens ++ [semicolon]) (.statement (.expression value)) := by
  refine .effect hvalue fun rest => ?_
  refine .bind (takes_expression_before hvalue hsemicolon.isLiteral (by decide)) ?_
  refine .skip ?_ (.expect hsemicolon.isLiteral .pure)
  exact hsemicolon.lacks (by decide)

theorem TakenForm.result {value : Expression} {semicolon : Token} (hword : Reserved "RETURN" word)
    (hvalue : IsExpression tokens value) (hsemicolon : Mark ";" semicolon) :
    TakenForm (word :: (tokens ++ [semicolon])) (.statement (.result value)) := by
  refine .statement fun bound rest _ => ?_
  rw [List.append_assoc]
  refine .skip (hword.lacks (by decide)) (.skip (hword.lacks (by decide)) ?_)
  refine .skip (hword.lacks (by decide)) (.skip (hword.lacks (by decide)) ?_)
  refine .accept hword.isLiteral ?_
  refine .bind (takes_expression_before hvalue hsemicolon.isLiteral (by decide)) ?_
  exact .expect hsemicolon.isLiteral .pure

/-! ### Statements with blocks -/

variable {condition : Expression} {test block : List Token} {opening closing : Token}

theorem TakenForm.branch {thenBody : List Statement} (hword : Reserved "IF" word)
    (htest : IsExpression test condition) (hopening : Reserved "DO" opening)
    (taken : TakenForm block (.block thenBody)) (filled : thenBody ≠ [])
    (hclosing : Reserved "END" closing) :
    TakenForm (word :: (test ++ opening :: (block ++ [closing])))
      (.statement (.branch condition thenBody [])) := by
  refine .statement fun bound rest paid => ?_
  simp only [List.append_assoc, List.cons_append, List.nil_append]
  refine .skip (hword.lacks (by decide)) (.skip (hword.lacks (by decide)) ?_)
  refine .accept hword.isLiteral ?_
  refine .bind (takes_expression_before htest hopening.isLiteral (by decide)) ?_
  refine .expect hopening.isLiteral ?_
  refine .bind (taken.body (by simp at paid; omega) hclosing.isLiteral (by decide)) ?_
  rw [List.isEmpty_eq_false_iff.mpr filled]
  exact .skip (hclosing.lacks (by decide)) (.bind .pure (.expect hclosing.isLiteral .pure))

theorem TakenForm.alternative {thenBody elseBody : List Statement} {other : Token}
    {otherBlock : List Token} (hword : Reserved "IF" word) (htest : IsExpression test condition)
    (hopening : Reserved "DO" opening) (taken : TakenForm block (.block thenBody))
    (filled : thenBody ≠ []) (hother : Reserved "ELSE" other)
    (taken' : TakenForm otherBlock (.block elseBody)) (hclosing : Reserved "END" closing) :
    TakenForm (word :: (test ++ opening :: (block ++ other :: (otherBlock ++ [closing]))))
      (.statement (.branch condition thenBody elseBody)) := by
  refine .statement fun bound rest paid => ?_
  simp only [List.append_assoc, List.cons_append, List.nil_append]
  refine .skip (hword.lacks (by decide)) (.skip (hword.lacks (by decide)) ?_)
  refine .accept hword.isLiteral ?_
  refine .bind (takes_expression_before htest hopening.isLiteral (by decide)) ?_
  refine .expect hopening.isLiteral ?_
  refine .bind (taken.body (by simp at paid; omega) hother.isLiteral (by decide)) ?_
  rw [List.isEmpty_eq_false_iff.mpr filled]
  refine .accept hother.isLiteral ?_
  refine .bind (taken'.body (by simp at paid; omega) hclosing.isLiteral (by decide)) ?_
  exact .expect hclosing.isLiteral .pure

theorem TakenForm.switch {branches : List Token} {cases : List Case} {last : Token}
    {body : List Statement} (hword : Reserved "SWITCH" word) (htest : IsExpression test condition)
    (written : States branches (.cases cases)) (taken : TakenForm branches (.cases cases))
    (filled : cases ≠ [])
    (hlast : Reserved "DEFAULT" last) (taken' : TakenForm block (.block body))
    (hclosing : Reserved "END" closing) :
    TakenForm (word :: (test ++ (branches ++ last :: (block ++ [closing]))))
      (.statement (.switch condition (cases ++ [.mk none body]))) := by
  refine .statement fun bound rest paid => ?_
  simp only [List.append_assoc, List.cons_append, List.nil_append]
  refine .skip (hword.lacks (by decide)) (.accept hword.isLiteral ?_)
  obtain ⟨-, empty⟩ | ⟨case, rest', rfl, hcase⟩ := written.starts_cases
  · exact absurd empty filled
  refine .bind (takes_expression_before htest hcase.isLiteral (by decide)) ?_
  refine .remaining (.bind (taken bound _ last _ ?_ ?_ ?_) ?_)
  · simp at paid ⊢
    omega
  · simp
  · exact hlast.isLiteral
  · rw [List.isEmpty_eq_false_iff.mpr filled]
    refine .expect hlast.isLiteral ?_
    refine .bind (taken'.body (by simp at paid; omega) hclosing.isLiteral (by decide)) ?_
    exact .expect hclosing.isLiteral .pure

theorem TakenForm.loop {body : List Statement} (hword : Reserved "WHILE" word)
    (htest : IsExpression test condition) (hopening : Reserved "DO" opening)
    (taken : TakenForm block (.block body)) (hclosing : Reserved "END" closing) :
    TakenForm (word :: (test ++ opening :: (block ++ [closing])))
      (.statement (.loop condition body)) := by
  refine .statement fun bound rest paid => ?_
  simp only [List.append_assoc, List.cons_append, List.nil_append]
  refine .skip (hword.lacks (by decide)) (.skip (hword.lacks (by decide)) ?_)
  refine .skip (hword.lacks (by decide)) (.accept hword.isLiteral ?_)
  refine .bind (takes_expression_before htest hopening.isLiteral (by decide)) ?_
  refine .expect hopening.isLiteral ?_
  refine .bind (taken.body (by simp at paid; omega) hclosing.isLiteral (by decide)) ?_
  exact .expect hclosing.isLiteral .pure

/-! ### Blocks and cases -/

theorem TakenForm.noStatement : TakenForm [] (.block []) := by
  intro bound n token rest _ enough ends
  cases n with
  | zero => cases enough
  | succ n =>
      refine .bind takes_atBlockEnd ?_
      rw [List.any_eq_true.mpr ends]
      exact .pure

theorem TakenForm.statements {first : List Token} {statement : Statement}
    {statements : List Statement} (written : States first (.statement statement))
    (taken : TakenForm first (.statement statement))
    (taken' : TakenForm tokens (.block statements)) :
    TakenForm (first ++ tokens) (.block (statement :: statements)) := by
  obtain ⟨initial, behind, rfl, starts⟩ := written.starts
  intro bound n token rest paid enough ends
  cases n with
  | zero => cases enough
  | succ n =>
      simp only [List.length_append, List.length_cons] at paid enough
      refine .of_classified fun classified => ?_
      have foreign : ∀ word ∈ blockEnds, isForeign word = true := by decide
      have unlike : ∀ word ∈ blockEnds, ∀ other ∈ statementWords,
          sameIgnoringCase other word = false := by decide
      have noEnd : blockEnds.any initial.isLiteral = false := by
        refine List.any_eq_false.mpr fun word hword => Bool.not_eq_true _ ▸ ?_
        rcases starts with starts | ⟨other, hother, reserved⟩
        · exact starts.isLiteral (List.forall_mem_cons.mp classified).1 (foreign word hword)
        · exact isLiteral_of_isLiteral reserved.isLiteral (unlike word hword other hother)
      rw [List.append_assoc]
      refine .bind takes_atBlockEnd ?_
      rw [noEnd]
      refine .bind (taken bound _ (by simp; omega)) (.bind ?_ .pure)
      exact taken' bound n token rest (by omega) (by omega) ends

theorem TakenForm.noCase : TakenForm [] (.cases []) := by
  intro bound n token rest _ enough ends
  cases n with
  | zero => exact .pure
  | succ n => exact .skip (lacks_of_isLiteral ends (by decide)) .pure

theorem TakenForm.case {value : Expression} {colon : Token} {behind : List Token}
    {body : List Statement} {cases : List Case} (hword : Reserved "CASE" word)
    (hvalue : IsExpression tokens value) (hcolon : Mark ":" colon)
    (taken : TakenForm block (.block body)) (written : States behind (.cases cases))
    (taken' : TakenForm behind (.cases cases)) :
    TakenForm (word :: (tokens ++ colon :: (block ++ behind)))
      (.cases (.mk (some value) body :: cases)) := by
  intro bound n token rest paid enough ends
  cases n with
  | zero => cases enough
  | succ n =>
      simp only [List.length_append, List.length_cons] at paid enough
      simp only [List.append_assoc, List.cons_append]
      refine .accept hword.isLiteral ?_
      refine .bind (.bind (takes_expression_before hvalue hcolon.isLiteral (by decide)) ?_)
        (.bind (taken' bound n token rest (by omega) (by omega) ends) .pure)
      refine .expect hcolon.isLiteral (.bind ?_ .pure)
      obtain ⟨rfl, -⟩ | ⟨word', behind, rfl, hword'⟩ := written.starts_cases
      · exact taken.body (by omega) ends (by decide)
      · exact taken.body (by omega) hword'.isLiteral (by decide)

/-- The words of statements are taken, by induction on how they make them up. -/
theorem TakenForm.of_states {form : Form} (h : States tokens form) : TakenForm tokens form := by
  induction h with
  | declaration hword hname htyped hinitial hsemicolon =>
      exact .declaration hword hname htyped hinitial hsemicolon
  | assignment htarget hequals hvalue hsemicolon =>
      exact .assignment htarget hequals hvalue hsemicolon
  | effect hvalue hsemicolon => exact .alone hvalue hsemicolon
  | result hword hvalue hsemicolon => exact .result hword hvalue hsemicolon
  | branch hword htest hopening _ filled hclosing taken =>
      exact .branch hword htest hopening taken filled hclosing
  | alternative hword htest hopening _ filled hother _ hclosing taken taken' =>
      exact .alternative hword htest hopening taken filled hother taken' hclosing
  | switch hword htest written filled hlast _ hclosing taken taken' =>
      exact .switch hword htest written taken filled hlast taken' hclosing
  | loop hword htest hopening _ hclosing taken => exact .loop hword htest hopening taken hclosing
  | noStatement => exact .noStatement
  | statements written _ taken taken' => exact .statements written taken taken'
  | noCase => exact .noCase
  | cases hword hvalue hcolon _ written taken taken' =>
      exact .case hword hvalue hcolon taken written taken'

end Statements

/-! ## Programs -/

theorem takes_block {body : List Statement} {literal : String} (h : States tokens (.block body))
    (fits : token.isLiteral literal = true) (hliteral : literal ∈ blockEnds) :
    Takes block (tokens ++ token :: rest) body (token :: rest) :=
  .remaining ((TakenForm.of_states h).body (by simp) fits hliteral)

theorem takes_initialised {isMutable : Bool} {name : String} {typed : List Token}
    {typeName : Option String} {equals semicolon : Token} {value : Expression}
    (hname : Name name token) (htyped : Annotates typed typeName) (hequals : Mark "=" equals)
    (hvalue : IsExpression tokens value) (hsemicolon : Mark ";" semicolon) :
    Takes (variableGlobal isMutable) (token :: (typed ++ equals :: (tokens ++ semicolon :: rest)))
      ⟨name, typeName, isMutable, some value, none⟩ (semicolon :: rest) := by
  refine .bind (takes_name hname) ?_
  refine .bind (takes_typed htyped (hequals.lacks (by decide))) ?_
  refine .accept hequals.isLiteral ?_
  exact .bind (takes_expression_before hvalue hsemicolon.isLiteral (by decide)) .pure

theorem takes_global {global : Global} (h : IsGlobal tokens global) :
    Takes Parser.global (tokens ++ rest) global rest := by
  cases h with
  | list hword hname htyped hequals hopening helements hclosing hsemicolon =>
      simp only [List.append_assoc, List.cons_append, List.nil_append]
      refine .bind (.accept hword.isLiteral (.bind (takes_name hname) ?_))
        (.expect hsemicolon.isLiteral .pure)
      refine .bind (takes_typed htyped (hequals.lacks (by decide))) ?_
      refine .expect hequals.isLiteral (.expect hopening.isLiteral ?_)
      exact .bind (takes_elements helements hclosing) .pure
  | mutable hword hname htyped hinitial hsemicolon =>
      simp only [List.append_assoc, List.cons_append, List.nil_append]
      refine .bind (.skip (hword.lacks (by decide)) (.accept hword.isLiteral ?_))
        (.expect hsemicolon.isLiteral .pure)
      cases hinitial with
      | none =>
          refine .bind (takes_name hname) ?_
          refine .bind (takes_typed htyped (hsemicolon.lacks (by decide))) ?_
          exact .skip (hsemicolon.lacks (by decide)) .pure
      | some hequals hvalue => exact takes_initialised hname htyped hequals hvalue hsemicolon
  | immutable hword hname htyped hinitial hsemicolon =>
      simp only [List.append_assoc, List.cons_append, List.nil_append]
      refine .bind (.skip (hword.lacks (by decide)) (.skip (hword.lacks (by decide)) ?_))
        (.expect hsemicolon.isLiteral .pure)
      refine .accept hword.isLiteral ?_
      cases hinitial with
      | some hequals hvalue => exact takes_initialised hname htyped hequals hvalue hsemicolon

theorem takes_parameters {parameters : List Parameter} {closing : Token}
    (h : AreParameters tokens parameters) (hclosing : Mark ")" closing) :
    Takes Parser.parameters (tokens ++ closing :: rest) parameters rest := by
  have opens : ∀ {tokens rest parameter}, IsParameter tokens parameter → AllClassified tokens →
      Lacks ")" (tokens ++ rest) := by
    rintro _ rest _ ⟨hname, _, _⟩ classified
    exact lacks_cons.mpr ((Starts.name hname).isLiteral
      (List.forall_mem_cons.mp classified).1 (by decide))
  have takes : ∀ {tokens rest parameter}, IsParameter tokens parameter →
      Takes Parser.parameter (tokens ++ rest) parameter rest := by
    rintro _ rest _ ⟨hname, hcolon, htype⟩
    exact .bind (takes_name hname) (.expect hcolon.isLiteral (.bind (takes_typeName htype) .pure))
  cases h with
  | none => exact .accept hclosing.isLiteral .pure
  | some written =>
      refine .of_classified fun classified => .skip ?_ (.remaining ?_)
      · have inside := (AllClassified.append.mp classified).1
        cases written with
        | last hlast => exact opens hlast inside
        | more hfirst _ _ => simpa using opens hfirst (AllClassified.append.mp inside).1
      · exact takes_separated written (fun h _ => takes h) opens hclosing.isLiteral (by decide)
          (by simp)

theorem takes_function {function : Function} (h : IsFunction tokens function) :
    Takes Parser.function (tokens ++ rest) function rest := by
  obtain ⟨hword, hname, hopening, hparameters, hclosing, htyped, hstart, hbody, hstop⟩ := h
  simp only [List.append_assoc, List.cons_append, List.nil_append]
  refine .expect hword.isLiteral (.bind (takes_name hname) (.expect hopening.isLiteral ?_))
  refine .bind (takes_parameters hparameters hclosing) ?_
  refine .bind (takes_typed htyped (hstart.lacks (by decide))) ?_
  refine .expect hstart.isLiteral (.bind (takes_block hbody hstop.isLiteral (by decide)) ?_)
  exact .expect hstop.isLiteral .pure

theorem isLiteral_of_rest {cursor : Cursor} (hrest : cursor.rest = token :: rest)
    (literal : String) : cursor.isLiteral literal = token.isLiteral literal := by
  simp [Cursor.isLiteral, Cursor.isLiteralAhead, hrest]

/-- A global is told by its first word. -/
theorem starts_of_isGlobal {global : Global} (h : IsGlobal tokens global) :
    ∃ word behind, tokens = word :: behind ∧
      ∃ literal ∈ ["LIST", "VAR", "VAL"], word.isLiteral literal = true := by
  cases h with
  | list hword => exact ⟨_, _, rfl, _, by decide, hword.isLiteral⟩
  | mutable hword => exact ⟨_, _, rfl, _, by decide, hword.isLiteral⟩
  | immutable hword => exact ⟨_, _, rfl, _, by decide, hword.isLiteral⟩

theorem starts_of_isFunction {function : Function} (h : IsFunction tokens function) :
    ∃ word behind, tokens = word :: behind ∧ Reserved "FUN" word := by
  obtain ⟨hword, _⟩ := h
  exact ⟨_, _, rfl, hword⟩

theorem takes_globals {globals : List Global} {bound : Nat}
    (written : Sequence IsGlobal tokens globals) (hword : Reserved "FUN" token)
    (enough : tokens.length ≤ bound) :
    Takes (manyWhile startsGlobal Parser.global bound) (tokens ++ token :: rest) globals
      (token :: rest) := by
  refine takes_manyLooking written takes_global ?_ ?_ ?_ enough
  · intro tokens rest global cursor h hrest
    obtain ⟨word, behind, rfl, literal, member, fits⟩ := starts_of_isGlobal h
    exact List.any_eq_true.mpr ⟨literal, member, (isLiteral_of_rest hrest literal).trans fits⟩
  · intro tokens global h
    obtain ⟨word, behind, rfl, -⟩ := starts_of_isGlobal h
    simp
  · intro cursor hrest
    have unlike : ∀ literal ∈ ["LIST", "VAR", "VAL"], sameIgnoringCase "FUN" literal = false := by
      decide
    refine List.any_eq_false.mpr fun literal member => Bool.not_eq_true _ ▸ ?_
    rw [isLiteral_of_rest hrest]
    exact isLiteral_of_isLiteral hword.isLiteral (unlike literal member)

theorem takes_functions {functions : List Function}
    (written : Sequence IsFunction tokens functions) :
    Takes (manyWhile (peek "FUN") Parser.function tokens.length) tokens functions [] := by
  rw [← List.append_nil tokens]
  refine takes_manyLooking written takes_function ?_ ?_ ?_ (by simp)
  · intro tokens rest function cursor h hrest
    obtain ⟨word, behind, rfl, hword⟩ := starts_of_isFunction h
    exact (isLiteral_of_rest hrest _).trans hword.isLiteral
  · intro tokens function h
    obtain ⟨word, behind, rfl, -⟩ := starts_of_isFunction h
    simp
  · intro cursor hrest
    simp [Cursor.isLiteral, Cursor.isLiteralAhead, hrest]

/-- A program is read from the words that write it, to the last one. -/
theorem takes_program {tree : Program} (h : Writes tokens tree) :
    Takes Parser.program tokens tree [] := by
  cases h with
  | program globals functions filled =>
      have all := takes_functions functions
      cases functions with
      | none => exact absurd rfl filled
      | more first _ =>
          obtain ⟨word, behind, rfl, hword⟩ := starts_of_isFunction first
          refine .remaining (.bind (takes_globals globals hword (by simp)) ?_)
          exact .remaining (.bind all (.bind .current .pure))

end Parser

end TinyScript
