import TinyScript.Parse.Expression

/-!
# Reading statements

A block runs up to the word that ends it, which it leaves to the statement around it. A statement
that holds blocks starts with a word of its own, so the number of words left bounds the nesting.
-/

namespace TinyScript.Parser

/-! ## Statements over a given block -/

/-- Reads a declaration behind its first word. -/
def declaration : Parser Statement := do
  let name ← name
  let typeName ← typeAnnotation
  let value ← if ← accept "=" then some <$> expression else pure none
  expect ";"
  return .declaration name typeName value none

/-- Reads one case behind its first word. -/
def case (block : Parser (List Statement)) : Parser Case := do
  let value ← expression
  expect ":"
  return .mk (some value) (← block)

/-- Reads a switch behind its first word. -/
def switch (block : Parser (List Statement)) : Parser Statement := do
  let condition ← expression
  let cases ← manyWhile (accept "CASE") (case block) (← remaining)
  if cases.isEmpty then fail .missingCase
  expect "DEFAULT"
  let last ← block
  expect "END"
  return .switch condition (cases ++ [.mk none last])

/-- Reads a branch behind its first word. -/
def branch (block : Parser (List Statement)) : Parser Statement := do
  let condition ← expression
  expect "DO"
  let thenBody ← block
  if thenBody.isEmpty then fail .emptyBranch
  let elseBody ← if ← accept "ELSE" then block else pure []
  expect "END"
  return .branch condition thenBody elseBody

/-- Reads a loop behind its first word. -/
def loop (block : Parser (List Statement)) : Parser Statement := do
  let condition ← expression
  expect "DO"
  let body ← block
  expect "END"
  return .loop condition body

/-- Reads the value of a result behind its first word. -/
def result : Parser Statement := do
  let value ← expression
  expect ";"
  return .result value

/-- Reads an assignment or an expression that stands alone. -/
def effect : Parser Statement := do
  let first ← expression
  if ← accept "=" then
    let value ← expression
    expect ";"
    return .assignment first value
  else
    expect ";"
    return .expression first

/-- Reads a statement whose blocks a given parser reads. -/
def statementOver (block : Parser (List Statement)) : Parser Statement := do
  if ← accept "LET" then declaration
  else if ← accept "SWITCH" then switch block
  else if ← accept "IF" then branch block
  else if ← accept "WHILE" then loop block
  else if ← accept "RETURN" then result
  else effect

/-! ## Blocks -/

/-- The words that end a block. -/
def blockEnds : List String := ["END", "ELSE", "CASE", "DEFAULT"]

/-- Whether a cursor is at the end of a block. -/
def isBlockEnd (cursor : Cursor) : Bool := blockEnds.any cursor.isLiteral

/-- Whether the cursor is at the end of a block, which the end of the program is not. -/
def atBlockEnd : Parser Bool := fun cursor =>
  if cursor.rest.isEmpty then fail .unclosedBlock cursor else .ok (isBlockEnd cursor) cursor

/-- Reads statements up to the end of the block. With no word left the block is not closed. -/
def statements (statement : Parser Statement) : Nat → Parser (List Statement)
  | 0 => fail .unclosedBlock
  | bound + 1 => do
    if ← atBlockEnd then return []
    let first ← statement
    return first :: (← statements statement bound)

/-- Reads a block whose statements a given parser reads. -/
def blockOver (statement : Parser Statement) : Parser (List Statement) := do
  statements statement (← remaining)

/-- Reads a statement nested no deeper than a bound. -/
def statementWithin : Nat → Parser Statement
  | 0 => statementOver (fail .unclosedBlock)
  | bound + 1 => statementOver (blockOver (statementWithin bound))

/-! ## The rules -/

/-- Reads a statement. -/
def statement : Parser Statement := do
  statementWithin (← remaining)

/-- Reads statements up to, and without, the word that ends the block. -/
def block : Parser (List Statement) := do
  blockOver (statementWithin (← remaining))

end TinyScript.Parser
