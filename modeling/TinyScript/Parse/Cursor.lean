import TinyScript.Parse.Error
import TinyScript.Token
import TinyScript.Tree

/-!
# A place among the words

`Cursor` is the place reading has come to: the words that are left, how many lie behind, and where
the last of those ended. A `Parser` moves a cursor and may fail; the cursor stays where the
failure arose, and the error names that very place.
-/

namespace TinyScript

/-- A place among the words of a program. -/
structure Cursor where
  rest : List Token
  index : Nat
  /-- The offset at which the last word read ends. -/
  lastStop : Nat
deriving Repr, Inhabited

namespace Cursor

/-- The place before the first word. -/
def start (tokens : List Token) : Cursor := ⟨tokens, 0, 0⟩

/-- The number of words left. -/
def remaining (cursor : Cursor) : Nat := cursor.rest.length

/-- The word at the cursor. -/
def current (cursor : Cursor) : Option Token := cursor.rest.head?

/-- The offset of the word at the cursor, or of the end of the program. -/
def offset (cursor : Cursor) : Nat :=
  match cursor.rest with
  | [] => cursor.lastStop
  | token :: _ => token.offset

/-- The place behind the word at the cursor. -/
def advance (cursor : Cursor) : Cursor :=
  match cursor.rest with
  | [] => cursor
  | token :: rest => ⟨rest, cursor.index + 1, token.stop⟩

/-- Whether the word some places ahead is a given literal. -/
def isLiteralAhead (cursor : Cursor) (ahead : Nat) (literal : String) : Bool :=
  cursor.rest[ahead]?.any (·.isLiteral literal)

/-- Whether the word at the cursor is a given literal. -/
def isLiteral (cursor : Cursor) (literal : String) : Bool := cursor.isLiteralAhead 0 literal

/-- Whether the word at the cursor has a given kind. -/
def isKind (cursor : Cursor) (kind : Token.Kind) : Bool := cursor.current.any (·.kind = kind)

/-- The error of a given cause at the cursor. -/
def error (cursor : Cursor) (cause : SyntaxError.Cause) : SyntaxError :=
  ⟨cause, cursor.index, cursor.offset⟩

end Cursor

/-- Reads something at a cursor and moves it. -/
abbrev Parser (α : Type) := EStateM SyntaxError Cursor α

namespace Parser

/-- Fails at the cursor. -/
def fail {α : Type} (cause : SyntaxError.Cause) : Parser α := fun cursor =>
  .error (cursor.error cause) cursor

/-- Fails at the cursor with a cause that tells the word found there. -/
def failFinding {α : Type} (cause : Option String → SyntaxError.Cause) : Parser α := fun cursor =>
  .error (cursor.error (cause (cursor.current.map Token.text))) cursor

/-- The number of words left. -/
def remaining : Parser Nat := fun cursor => .ok cursor.remaining cursor

/-- The word at the cursor. -/
def current : Parser (Option Token) := fun cursor => .ok cursor.current cursor

/-- Moves behind the word at the cursor. -/
def advance : Parser Unit := fun cursor => .ok () cursor.advance

/-- Whether the word at the cursor is a given literal. -/
def peek (literal : String) : Parser Bool := fun cursor => .ok (cursor.isLiteral literal) cursor

/-- Moves behind the word at the cursor if a test holds of the cursor, and tells whether. -/
def acceptIf (test : Cursor → Bool) : Parser Bool := fun cursor =>
  if test cursor then .ok true cursor.advance else .ok false cursor

/-- Moves behind a given literal, if it is at the cursor. -/
def accept (literal : String) : Parser Bool := acceptIf (·.isLiteral literal)

/-- Moves behind a word of a given kind, if there is one at the cursor. -/
def acceptKind (kind : Token.Kind) : Parser Bool := acceptIf (·.isKind kind)

/-- Moves behind a given literal, which has to be at the cursor. -/
def expect (literal : String) : Parser Unit := do
  if ← accept literal then return () else failFinding (.missingWord literal)

/-- Reads a word that satisfies a test. -/
def expectToken (test : Token → Bool) (cause : Option String → SyntaxError.Cause) :
    Parser Token := do
  match ← current with
  | some token =>
    if test token then
      advance
      return token
    else failFinding cause
  | none => failFinding cause

/-- Reads a name. -/
def name : Parser String := do
  return (← expectToken Token.isName .missingName).text

/-- Reads the name of a type, which may be a reserved word. -/
def typeName : Parser String := do
  return (← expectToken (·.kind = .identifier) .missingTypeName).text

/-- Reads a colon and the name of a type, if there is a colon. -/
def typeAnnotation : Parser (Option String) := do
  if ← accept ":" then return some (← typeName) else return none

/-! ## Repetition

The bound of a repetition is at least the number of words left. Every item takes a word, so the
bound runs out only where the words do. -/

/-- Reads items as long as a test holds before them. -/
def manyWhile {α : Type} (more : Parser Bool) (item : Parser α) : Nat → Parser (List α)
  | 0 => return []
  | bound + 1 => do
    if ← more then
      let first ← item
      return first :: (← manyWhile more item bound)
    else return []

/-- Reads items separated by commas, one at least, and the word that closes them. -/
def separated {α : Type} (item : Parser α) (close : String) (trailing : SyntaxError.Cause) :
    Nat → Parser (List α)
  | 0 => do
    let last ← item
    expect close
    return [last]
  | bound + 1 => do
    let first ← item
    if ← accept "," then
      if ← peek close then fail trailing
      return first :: (← separated item close trailing bound)
    else
      expect close
      return [first]

end Parser

end TinyScript
