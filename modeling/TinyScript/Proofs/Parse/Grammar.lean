import TinyScript.Parse.Expression

/-!
# The grammar of programs

Which words write which tree, by rules alone: a rule says how the words of a form are put together
from the words of its parts, and nothing here reads words in any order. Trees are those of a reader,
without annotations.

Operators of a level associate to the left, so an operation of a level has an operation of the same
level on its left and one of the next level on its right. Lists have no comma behind the last item.
The two recursive parts are `Expresses`, for expressions, and `States`, for statements; a program
(`Writes`) is a sequence of globals and then of one function or more.
-/

namespace TinyScript.Grammar

/-! ## Words -/

/-- A reserved word, in any ASCII case. -/
def Reserved (word : String) (token : Token) : Prop :=
  token.kind = .identifier ∧ Token.sameIgnoringCase token.text word = true

/-- An operator or a punctuation character, as it is written. -/
def Mark (mark : String) (token : Token) : Prop := token.kind = .operator ∧ token.text = mark

/-- A name is an identifier that is no reserved word. -/
def Name (name : String) (token : Token) : Prop :=
  token.kind = .identifier ∧ token.text = name ∧
    ∀ word ∈ Token.reservedWords, Token.sameIgnoringCase name word = false

/-- The name of a type may be a reserved word. -/
def TypeName (name : String) (token : Token) : Prop :=
  token.kind = .identifier ∧ token.text = name

/-! ## Literals -/

/-- What stands between the quotes of a literal, and the characters that it means. -/
inductive Spells : List Char → List Char → Prop
  | nothing : Spells [] []
  | plain {c inside meant} : c ≠ '\\' → Spells inside meant → Spells (c :: inside) (c :: meant)
  | escaped {letter c inside meant} :
      Text.escapeValue? letter = some c → Spells inside meant →
      Spells ('\\' :: letter :: inside) (c :: meant)

/-- A literal between quotes, and the characters that it means. -/
def Quotes (quote : Char) (text meant : List Char) : Prop :=
  ∃ inside, text = quote :: (inside ++ [quote]) ∧ Spells inside meant

/-- A word that is a literal, and its value. -/
inductive Denotes : Token → Literal → Prop
  | nil {token} : Reserved "NIL" token → Denotes token .nil
  | true {token} : Reserved "TRUE" token → Denotes token (.boolean true)
  | false {token} : Reserved "FALSE" token → Denotes token (.boolean false)
  | integer {token value} :
      token.kind = .integer → Text.readInteger? token.text.toList = some value →
      Denotes token (.integer value)
  | decimal {token value} :
      token.kind = .decimal → Decimal.read? token.text.toList = some value →
      Denotes token (.decimal value)
  | character {token c} :
      token.kind = .character → Quotes '\'' token.text.toList [c] → Denotes token (.character c)
  | string {token meant} :
      token.kind = .string → Quotes '"' token.text.toList meant →
      Denotes token (.string (String.ofList meant))

/-! ## Expressions -/

/-- A form that words of an expression can have. -/
inductive Phrase where
  /-- An expression that no operator joins. -/
  | primary (expression : Expression)
  /-- An expression that operators of the level, or of stronger ones, join. -/
  | joined (level : Operator.Level) (expression : Expression)
  /-- Expressions with commas between them, one at least. -/
  | listed (expressions : List Expression)

/-- The form of the operands of a level. -/
def Phrase.operand : Operator.Level → Expression → Phrase
  | .logical, expression => joined .comparison expression
  | .comparison, expression => joined .additive expression
  | .additive, expression => joined .multiplicative expression
  | .multiplicative, expression => primary expression

/-- The levels in the symbols of their operators, weakest first. Every operator is on one level. -/
theorem symbols_of_levels :
    Operator.Level.logical.operators.map Operator.symbol = ["&&", "||"] ∧
      Operator.Level.comparison.operators.map Operator.symbol = ["<", ">", "==", "!="] ∧
      Operator.Level.additive.operators.map Operator.symbol = ["+", "-"] ∧
      Operator.Level.multiplicative.operators.map Operator.symbol = ["*", "/", "^"] ∧
      ∀ operator : Operator, ∃ level : Operator.Level, operator ∈ level.operators ∧
        ∀ other : Operator.Level, operator ∈ other.operators → other = level := by
  refine ⟨rfl, rfl, rfl, rfl, fun operator => ?_⟩
  have hunique : ∀ level other : Operator.Level, operator ∈ level.operators →
      operator ∈ other.operators → other = level := by
    intro level other
    cases operator <;> cases level <;> cases other <;> decide
  have hsome : ∃ level : Operator.Level, operator ∈ level.operators := by
    cases operator with
    | and | or => exact ⟨.logical, by decide⟩
    | less | greater | equal | notEqual => exact ⟨.comparison, by decide⟩
    | add | subtract => exact ⟨.additive, by decide⟩
    | multiply | divide | power => exact ⟨.multiplicative, by decide⟩
  obtain ⟨level, hlevel⟩ := hsome
  exact ⟨level, hlevel, fun other => hunique level other hlevel⟩

/-- The rules for expressions. -/
inductive Expresses : List Token → Phrase → Prop
  | literal {token value} :
      Denotes token value → Expresses [token] (.primary (.literal value none))
  | group {opening tokens inner closing} :
      Mark "(" opening → Expresses tokens (.joined .logical inner) → Mark ")" closing →
      Expresses (opening :: (tokens ++ [closing])) (.primary (.group inner none))
  | access {name token} : Name name token → Expresses [token] (.primary (.access name none none))
  | element {name token opening tokens index closing} :
      Name name token → Mark "[" opening → Expresses tokens (.joined .logical index) →
      Mark "]" closing →
      Expresses (token :: opening :: (tokens ++ [closing]))
        (.primary (.element name index none none))
  | emptyCall {name token opening closing} :
      Name name token → Mark "(" opening → Mark ")" closing →
      Expresses [token, opening, closing] (.primary (.call name [] none none))
  | call {name token opening tokens arguments closing} :
      Name name token → Mark "(" opening → Expresses tokens (.listed arguments) →
      Mark ")" closing →
      Expresses (token :: opening :: (tokens ++ [closing]))
        (.primary (.call name arguments none none))
  | operand {level tokens expression} :
      Expresses tokens (.operand level expression) → Expresses tokens (.joined level expression)
  | operation {level : Operator.Level} {operator : Operator} {front left token behind right} :
      Expresses front (.joined level left) → operator ∈ level.operators →
      Mark operator.symbol token → Expresses behind (.operand level right) →
      Expresses (front ++ token :: behind) (.joined level (.binary operator left right none))
  | last {tokens expression} :
      Expresses tokens (.joined .logical expression) → Expresses tokens (.listed [expression])
  | more {tokens expression comma behind expressions} :
      Expresses tokens (.joined .logical expression) → Mark "," comma →
      Expresses behind (.listed expressions) →
      Expresses (tokens ++ comma :: behind) (.listed (expression :: expressions))

/-- The words of an expression. -/
abbrev IsExpression (tokens : List Token) (expression : Expression) : Prop :=
  Expresses tokens (.joined .logical expression)

/-! ## Optional parts -/

/-- The type of a variable or a result, if there is one. -/
inductive Annotates : List Token → Option String → Prop
  | none : Annotates [] none
  | some {colon token name} :
      Mark ":" colon → TypeName name token → Annotates [colon, token] (some name)

/-- The initial value of a variable, if there is one. -/
inductive Initialises : List Token → Option Expression → Prop
  | none : Initialises [] none
  | some {equals tokens value} :
      Mark "=" equals → IsExpression tokens value → Initialises (equals :: tokens) (some value)

/-! ## Statements -/

/-- A form that words of a statement can have. -/
inductive Form where
  | statement (statement : Statement)
  | block (statements : List Statement)
  /-- The cases of a switch but the last. -/
  | cases (cases : List Case)

/-- The rules for statements. -/
inductive States : List Token → Form → Prop
  | declaration {word name token typed typeName initial value semicolon} :
      Reserved "LET" word → Name name token → Annotates typed typeName →
      Initialises initial value → Mark ";" semicolon →
      States (word :: token :: (typed ++ (initial ++ [semicolon])))
        (.statement (.declaration name typeName value none))
  | assignment {target receiver equals tokens value semicolon} :
      IsExpression target receiver → Mark "=" equals → IsExpression tokens value →
      Mark ";" semicolon →
      States (target ++ equals :: (tokens ++ [semicolon])) (.statement (.assignment receiver value))
  | effect {tokens expression semicolon} :
      IsExpression tokens expression → Mark ";" semicolon →
      States (tokens ++ [semicolon]) (.statement (.expression expression))
  | result {word tokens value semicolon} :
      Reserved "RETURN" word → IsExpression tokens value → Mark ";" semicolon →
      States (word :: (tokens ++ [semicolon])) (.statement (.result value))
  | branch {word test condition opening block thenBody closing} :
      Reserved "IF" word → IsExpression test condition → Reserved "DO" opening →
      States block (.block thenBody) → thenBody ≠ [] → Reserved "END" closing →
      States (word :: (test ++ opening :: (block ++ [closing])))
        (.statement (.branch condition thenBody []))
  | alternative {word test condition opening block thenBody other otherBlock elseBody closing} :
      Reserved "IF" word → IsExpression test condition → Reserved "DO" opening →
      States block (.block thenBody) → thenBody ≠ [] → Reserved "ELSE" other →
      States otherBlock (.block elseBody) → Reserved "END" closing →
      States (word :: (test ++ opening :: (block ++ other :: (otherBlock ++ [closing]))))
        (.statement (.branch condition thenBody elseBody))
  | switch {word test condition branches cases word' block body closing} :
      Reserved "SWITCH" word → IsExpression test condition → States branches (.cases cases) →
      cases ≠ [] → Reserved "DEFAULT" word' → States block (.block body) →
      Reserved "END" closing →
      States (word :: (test ++ (branches ++ word' :: (block ++ [closing]))))
        (.statement (.switch condition (cases ++ [.mk none body])))
  | loop {word test condition opening block body closing} :
      Reserved "WHILE" word → IsExpression test condition → Reserved "DO" opening →
      States block (.block body) → Reserved "END" closing →
      States (word :: (test ++ opening :: (block ++ [closing]))) (.statement (.loop condition body))
  | noStatement : States [] (.block [])
  | statements {first statement rest statements} :
      States first (.statement statement) → States rest (.block statements) →
      States (first ++ rest) (.block (statement :: statements))
  | noCase : States [] (.cases [])
  | cases {word tokens value colon block body rest cases} :
      Reserved "CASE" word → IsExpression tokens value → Mark ":" colon →
      States block (.block body) → States rest (.cases cases) →
      States (word :: (tokens ++ colon :: (block ++ rest)))
        (.cases (.mk (some value) body :: cases))

/-! ## Programs -/

/-- Items of a form, one behind the other. -/
inductive Sequence {α : Type} (form : List Token → α → Prop) : List Token → List α → Prop
  | none : Sequence form [] []
  | more {first item rest items} :
      form first item → Sequence form rest items → Sequence form (first ++ rest) (item :: items)

/-- Items of a form with commas between them, one at least. -/
inductive Separated {α : Type} (form : List Token → α → Prop) : List Token → List α → Prop
  | last {tokens item} : form tokens item → Separated form tokens [item]
  | more {tokens item comma behind items} :
      form tokens item → Mark "," comma → Separated form behind items →
      Separated form (tokens ++ comma :: behind) (item :: items)

/-- The rules for globals. -/
inductive IsGlobal : List Token → Global → Prop
  | list {word name token typed typeName equals opening tokens elements closing semicolon} :
      Reserved "LIST" word → Name name token → Annotates typed typeName →
      Mark "=" equals → Mark "[" opening → Expresses tokens (.listed elements) →
      Mark "]" closing → Mark ";" semicolon →
      IsGlobal (word :: token :: (typed ++ equals :: opening :: (tokens ++ [closing, semicolon])))
        ⟨name, typeName, true, some (.list elements none), none⟩
  | mutable {word name token typed typeName initial value semicolon} :
      Reserved "VAR" word → Name name token → Annotates typed typeName →
      Initialises initial value → Mark ";" semicolon →
      IsGlobal (word :: token :: (typed ++ (initial ++ [semicolon])))
        ⟨name, typeName, true, value, none⟩
  | immutable {word name token typed typeName initial value semicolon} :
      Reserved "VAL" word → Name name token → Annotates typed typeName →
      Initialises initial (some value) → Mark ";" semicolon →
      IsGlobal (word :: token :: (typed ++ (initial ++ [semicolon])))
        ⟨name, typeName, false, some value, none⟩

/-- The rule for parameters. -/
inductive IsParameter : List Token → Parameter → Prop
  | parameter {name token colon typeName type} :
      Name name token → Mark ":" colon → TypeName typeName type →
      IsParameter [token, colon, type] ⟨name, typeName⟩

/-- The parameters of a function, with commas between them. -/
inductive AreParameters : List Token → List Parameter → Prop
  | none : AreParameters [] []
  | some {tokens parameters} :
      Separated IsParameter tokens parameters → AreParameters tokens parameters

/-- The rule for functions. -/
inductive IsFunction : List Token → Function → Prop
  | function {word name token opening tokens parameters closing typed returnTypeName start block
        body stop} :
      Reserved "FUN" word → Name name token → Mark "(" opening → AreParameters tokens parameters →
      Mark ")" closing → Annotates typed returnTypeName → Reserved "DO" start →
      States block (.block body) → Reserved "END" stop →
      IsFunction
        (word :: token :: opening ::
          (tokens ++ closing :: (typed ++ start :: (block ++ [stop]))))
        ⟨name, parameters, returnTypeName, body, none⟩

/-- The rule for programs. -/
inductive Writes : List Token → Program → Prop
  | program {front globals behind functions} :
      Sequence IsGlobal front globals → Sequence IsFunction behind functions → functions ≠ [] →
      Writes (front ++ behind) ⟨globals, functions⟩

end TinyScript.Grammar
