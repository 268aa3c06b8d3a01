import TinyScript.Parse.Statement

/-!
# Reading programs

A program is a sequence of globals, then one function or more, and nothing behind them.
-/

namespace TinyScript

namespace Parser

/-! ## Globals -/

/-- Reads a list global behind its first word. The list has one element at least. -/
def listGlobal : Parser Global := do
  let name ← name
  let typeName ← typeAnnotation
  expect "="
  expect "["
  let elements ← expressionList expression "]"
  return ⟨name, typeName, true, some (.list elements none), none⟩

/-- Reads any other global behind its first word. An immutable one needs a value. -/
def variableGlobal (isMutable : Bool) : Parser Global := do
  let name ← name
  let typeName ← typeAnnotation
  if ← accept "=" then
    return ⟨name, typeName, isMutable, some (← expression), none⟩
  else if isMutable then return ⟨name, typeName, isMutable, none, none⟩
  else fail .missingGlobalValue

/-- Reads a global without the semicolon behind it. A word decides on the kind of global before
the next word is looked at. -/
def openGlobal : Parser Global := do
  if ← accept "LIST" then listGlobal
  else if ← accept "VAR" then variableGlobal true
  else if ← accept "VAL" then variableGlobal false
  else fail .missingGlobal

/-- Reads a global and the semicolon behind it. -/
def global : Parser Global := do
  let global ← openGlobal
  expect ";"
  return global

/-! ## Functions -/

/-- Reads a parameter. -/
def parameter : Parser Parameter := do
  let name ← name
  expect ":"
  return ⟨name, ← typeName⟩

/-- Reads the parameters behind the opening parenthesis, and the closing one. -/
def parameters : Parser (List Parameter) := do
  if ← accept ")" then return []
  separated parameter ")" .trailingParameterComma (← remaining)

/-- Reads a function. -/
def function : Parser Function := do
  expect "FUN"
  let name ← name
  expect "("
  let parameters ← parameters
  let returnTypeName ← typeAnnotation
  expect "DO"
  let body ← block
  expect "END"
  return ⟨name, parameters, returnTypeName, body, none⟩

/-! ## Programs -/

/-- Whether a global starts at the cursor. -/
def startsGlobal : Parser Bool := fun cursor =>
  .ok (["LIST", "VAR", "VAL"].any cursor.isLiteral) cursor

/-- Reads a program, to the last word. -/
def program : Parser Program := do
  let globals ← manyWhile startsGlobal global (← remaining)
  let functions ← manyWhile (peek "FUN") function (← remaining)
  if functions.isEmpty then fail .missingFunction
  match ← current with
  | some token => fail (.afterLastFunction token.text)
  | none => return ⟨globals, functions⟩

/-- What a parser makes of words, from the first one on. -/
def run {α : Type} (parser : Parser α) (tokens : List Token) : Except SyntaxError α :=
  match parser (Cursor.start tokens) with
  | .ok value _ => .ok value
  | .error error _ => .error error

end Parser

/-- The tree of a program. -/
def Program.parse (tokens : List Token) : Except SyntaxError Program := Parser.program.run tokens

end TinyScript
