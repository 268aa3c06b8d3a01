import TinyScript.Decimal.Text
import TinyScript.Parse.Cursor

/-!
# Reading expressions

Four levels of operators, each associating to the left, over primary expressions: logical,
comparison, additive and multiplicative. Within a level the operators rank equally, so a power
associates to the left too. What stands in parentheses or brackets is an expression again; the
bracket pays for the step, so the number of words left bounds the nesting.
-/

namespace TinyScript

/-- The levels of binding, weakest first. -/
inductive Operator.Level where
  | logical
  | comparison
  | additive
  | multiplicative
deriving DecidableEq, Repr

/-- The operators of a level. -/
def Operator.Level.operators : Operator.Level → List Operator
  | logical => [.and, .or]
  | comparison => [.less, .greater, .equal, .notEqual]
  | additive => [.add, .subtract]
  | multiplicative => [.multiply, .divide, .power]

/-- The operator of a level that a word stands for. -/
def Operator.Level.operator? (level : Operator.Level) (token : Token) : Option Operator :=
  if token.kind = .operator then
    (Operator.ofSymbol? token.text).filter (level.operators.contains ·)
  else none

namespace Parser

/-! ## Operators -/

/-- Reads an operator of a level, if there is one at the cursor. -/
def operator (level : Operator.Level) : Parser (Option Operator) := do
  match (← current).bind level.operator? with
  | some operator =>
    advance
    return some operator
  | none => return none

/-- Reads further operands of a level behind what was read so far. -/
def operands (level : Operator.Level) (operand : Parser Expression) :
    Nat → Expression → Parser Expression
  | 0, left => return left
  | bound + 1, left => do
    match ← operator level with
    | none => return left
    | some operator =>
      let right ← operand
      operands level operand bound (.binary operator left right none)

/-- Reads operands joined by the operators of a level. -/
def joined (level : Operator.Level) (operand : Parser Expression) : Parser Expression := do
  let first ← operand
  operands level operand (← remaining) first

/-- Multiplicative expressions over given primary ones. -/
def multiplicativeOver (primary : Parser Expression) : Parser Expression :=
  joined .multiplicative primary

/-- Additive expressions over given primary ones. -/
def additiveOver (primary : Parser Expression) : Parser Expression :=
  joined .additive (multiplicativeOver primary)

/-- Comparisons over given primary expressions. -/
def comparisonOver (primary : Parser Expression) : Parser Expression :=
  joined .comparison (additiveOver primary)

/-- Logical expressions over given primary ones. -/
def logicalOver (primary : Parser Expression) : Parser Expression :=
  joined .logical (comparisonOver primary)

/-! ## Primary expressions -/

/-- Reads expressions separated by commas, one at least, and the word that closes them. -/
def expressionList (expression : Parser Expression) (close : String) :
    Parser (List Expression) := do
  separated expression close (.trailingComma close) (← remaining)

/-- Reads what follows a name: the arguments of a call, an index, or nothing. -/
def afterName (expression : Parser Expression) (name : String) : Parser Expression := do
  if ← accept "(" then
    if ← accept ")" then return .call name [] none none
    return .call name (← expressionList expression ")") none none
  else if ← accept "[" then
    let index ← expression
    expect "]"
    return .element name index none none
  else return .access name none none

/-- The value of a word that is a number or a quoted literal. -/
def literalOf (token : Token) : Except SyntaxError.Cause Literal :=
  let chars := token.text.toList
  match token.kind with
  | .integer =>
    match Text.readInteger? chars with
    | some value => .ok (.integer value)
    | none => .error (.malformedInteger token.text)
  | .decimal =>
    match Decimal.read? chars with
    | some value => .ok (.decimal value)
    | none => .error (.malformedDecimal token.text)
  | .character => ((Text.readCharacter chars).map .character).mapError (.malformedQuoted token.text)
  | .string => ((Text.readString chars).map .string).mapError (.malformedQuoted token.text)
  | .identifier => .error (.reservedWord token.text)
  | .operator => .error (.unexpectedWord token.text)

/-- Reads a primary expression that starts with no reserved word and no parenthesis. -/
def atom (expression : Parser Expression) : Parser Expression := do
  match ← current with
  | none => fail .missingExpression
  | some token =>
    if token.isName then
      advance
      afterName expression token.text
    else
      match literalOf token with
      | .ok value =>
        advance
        return .literal value none
      | .error cause => fail cause

/-- Reads a primary expression whose inner expressions a given parser reads. -/
def primaryOver (expression : Parser Expression) : Parser Expression := do
  if ← accept "NIL" then return .literal .nil none
  if ← accept "TRUE" then return .literal (.boolean true) none
  if ← accept "FALSE" then return .literal (.boolean false) none
  if ← accept "(" then
    let inner ← expression
    expect ")"
    return .group inner none
  atom expression

/-- Reads a primary expression nested no deeper than a bound. With no word left there is none. -/
def primaryWithin : Nat → Parser Expression
  | 0 => fail .missingExpression
  | bound + 1 => primaryOver (logicalOver (primaryWithin bound))

/-! ## The rules -/

/-- Reads a primary expression: a literal, a group, a call, an element or a variable. -/
def primary : Parser Expression := do
  primaryWithin (← remaining)

/-- Reads primary expressions joined by `*`, `/` and `^`. -/
def multiplicative : Parser Expression := do
  multiplicativeOver (primaryWithin (← remaining))

/-- Reads multiplicative expressions joined by `+` and `-`. -/
def additive : Parser Expression := do
  additiveOver (primaryWithin (← remaining))

/-- Reads additive expressions joined by comparisons. -/
def comparison : Parser Expression := do
  comparisonOver (primaryWithin (← remaining))

/-- Reads comparisons joined by `&&` and `||`. -/
def logical : Parser Expression := do
  logicalOver (primaryWithin (← remaining))

/-- Reads an expression. -/
def expression : Parser Expression := logical

end Parser

end TinyScript
