import TinyScript.Text.Quoted

/-!
# Why a program cannot be read

Reading stops at the first word that does not fit. The error says what was expected there and
where the word stands: its index among the words and its byte offset, or one past the last word
at the end of the program.
-/

namespace TinyScript

/-- What is wrong with the word at which reading stops. -/
inductive SyntaxError.Cause where
  /-- A fixed word is missing. -/
  | missingWord (word : String) (found : Option String)
  | missingName (found : Option String)
  | missingTypeName (found : Option String)
  | missingFunction
  | afterLastFunction (found : String)
  | missingGlobal
  | missingGlobalValue
  | trailingParameterComma
  | trailingComma (close : String)
  | unclosedBlock
  | missingCase
  | emptyBranch
  | missingExpression
  | reservedWord (found : String)
  | unexpectedWord (found : String)
  | malformedInteger (literal : String)
  | malformedDecimal (literal : String)
  | malformedQuoted (literal : String) (fault : Text.QuoteError)
deriving DecidableEq, Repr

/-- A cause with the place where it arises. -/
structure SyntaxError where
  cause : SyntaxError.Cause
  index : Nat
  offset : Nat
deriving DecidableEq, Repr

namespace SyntaxError

/-- How a message ends that tells what stands in the place of the expected word. -/
def foundText : Option String → String
  | some found => s!", found '{found}'"
  | none => ", found end of input"

/-- The wording of a cause. -/
def Cause.message : Cause → String
  | missingWord word found => s!"expected '{word}'{foundText found}"
  | missingName found => s!"expected identifier{foundText found}"
  | missingTypeName found => s!"expected type name{foundText found}"
  | missingFunction => "expected 'FUN'"
  | afterLastFunction found => s!"unexpected '{found}' after last function"
  | missingGlobal => "expected 'LIST', 'VAR' or 'VAL'"
  | missingGlobalValue => "expected '=' after immutable global"
  | trailingParameterComma => "trailing ',' in parameter list"
  | trailingComma close => s!"trailing ',' before '{close}'"
  | unclosedBlock => "unexpected end of input, expected 'END'"
  | missingCase => "expected 'CASE'"
  | emptyBranch => "expected at least one statement after 'DO'"
  | missingExpression => "expected expression, found end of input"
  | reservedWord found => s!"expected expression, found keyword '{found}'"
  | unexpectedWord found => s!"expected expression, found '{found}'"
  | malformedInteger literal => s!"malformed integer literal {literal}"
  | malformedDecimal literal => s!"malformed decimal literal {literal}"
  | malformedQuoted literal fault => fault.message literal

/-- The wording of an error without its place. -/
def message (error : SyntaxError) : String := error.cause.message

/-- The wording of an error with its place. -/
def text (error : SyntaxError) : String :=
  s!"{error.message} at token {error.index} (offset {error.offset})"

end SyntaxError

end TinyScript
