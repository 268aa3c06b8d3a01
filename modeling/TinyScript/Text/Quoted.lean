/-!
# Quoted literals

A quoted literal is a quote, characters and escapes, and the same quote again. `unquote` takes
the quotes off and resolves the seven escapes `\b \n \r \t \' \" \\`; every other use of a
backslash is refused.
-/

namespace TinyScript.Text

/-- Why a quoted literal has no meaning. -/
inductive QuoteError where
  | unterminated
  | invalidEscape (escaped : Char)
  | danglingBackslash
  | notOneCharacter
deriving DecidableEq, Repr

/-- The wording of a fault in a literal. -/
def QuoteError.message (literal : String) : QuoteError → String
  | unterminated => s!"unterminated literal {literal}"
  | invalidEscape escaped => s!"invalid escape sequence '\\{escaped}'"
  | danglingBackslash => "dangling '\\' at end of literal"
  | notOneCharacter => s!"character literal {literal} must hold exactly one character"

/-- The character that a backslash before the given one stands for. -/
def escapeValue? (escaped : Char) : Option Char :=
  if escaped = 'b' then some '\x08'
  else if escaped = 'n' then some '\n'
  else if escaped = 'r' then some '\r'
  else if escaped = 't' then some '\t'
  else if escaped = '\'' then some '\''
  else if escaped = '"' then some '"'
  else if escaped = '\\' then some '\\'
  else none

/-- Resolves the escapes between the quotes. -/
def resolveEscapes : List Char → Except QuoteError (List Char)
  | [] => .ok []
  | ['\\'] => .error .danglingBackslash
  | '\\' :: escaped :: rest =>
    match escapeValue? escaped with
    | none => .error (.invalidEscape escaped)
    | some c => (resolveEscapes rest).map (c :: ·)
  | c :: rest => (resolveEscapes rest).map (c :: ·)

/-- What stands between a quote in front and the same quote at the end. -/
def stripQuotes? (quote : Char) (literal : List Char) : Option (List Char) :=
  match literal with
  | [] => none
  | first :: rest =>
    if first = quote ∧ rest.getLast? = some quote then some rest.dropLast else none

/-- The characters that a quoted literal stands for. -/
def unquote (quote : Char) (literal : List Char) : Except QuoteError (List Char) :=
  match stripQuotes? quote literal with
  | none => .error .unterminated
  | some inside => resolveEscapes inside

/-- The string that a literal in double quotes stands for. -/
def readString (literal : List Char) : Except QuoteError String :=
  (unquote '"' literal).map String.ofList

/-- The character that a literal in single quotes stands for. -/
def readCharacter (literal : List Char) : Except QuoteError Char :=
  match unquote '\'' literal with
  | .error fault => .error fault
  | .ok [c] => .ok c
  | .ok _ => .error .notOneCharacter

end TinyScript.Text
