import TinyScript.Text.Alphabetic

/-!
# Words of a program

A program reaches the reader as a sequence of words, each with a coarse kind, its exact text and
the byte offset at which it starts. Reserved words have no kind of their own: they are identifiers
whose text, in any ASCII case, is in `reservedWords`. Quoted words keep their quotes and escapes.
-/

namespace TinyScript

/-- The coarse category of a word. -/
inductive Token.Kind where
  | identifier
  | integer
  | decimal
  | character
  | string
  | operator
deriving DecidableEq, Repr, Inhabited

/-- A word with its category, its text as written and the byte offset of its first character. -/
structure Token where
  kind : Token.Kind
  text : String
  offset : Nat
deriving DecidableEq, Repr, Inhabited

namespace Token

/-- The byte offset just past the word. -/
def stop (token : Token) : Nat := token.offset + token.text.utf8ByteSize

/-! ## Kinds -/

/-- Every kind. -/
def Kind.all : List Kind := [.identifier, .integer, .decimal, .character, .string, .operator]

/-- The name of a kind. -/
def Kind.name : Kind → String
  | .identifier => "Identifier"
  | .integer => "Integer"
  | .decimal => "Decimal"
  | .character => "Character"
  | .string => "String"
  | .operator => "Operator"

/-- The kind with a given name. -/
def Kind.ofName? (text : String) : Option Kind := Kind.all.find? fun kind => kind.name == text

theorem Kind.ofName?_name (kind : Kind) : Kind.ofName? kind.name = some kind := by
  cases kind <;> decide

/-- The kind of a word that starts like a number: a point anywhere makes it a decimal. -/
def numberKind (word : List Char) : Kind :=
  if word.contains '.' then .decimal else .integer

/-- The kind of a word, told from its leading characters. A sign starts a number only when a
digit follows it directly. -/
def classify (word : List Char) : Kind :=
  match word with
  | [] => .operator
  | first :: rest =>
    if first = '\'' then .character
    else if first = '"' then .string
    else if first.isDigit then numberKind word
    else if (first = '-' ∨ first = '+') ∧ rest.head?.any Char.isDigit then numberKind word
    else if Text.isAlphabetic first ∨ first = '_' ∨ first = '@' then .identifier
    else .operator

/-! ## Reserved words -/

/-- Words that are never names. -/
def reservedWords : List String :=
  ["LIST", "VAR", "VAL", "FUN", "DO", "END", "LET", "SWITCH", "CASE", "DEFAULT", "IF", "ELSE",
   "WHILE", "RETURN", "NIL", "TRUE", "FALSE"]

/-- Equality of texts up to the case of ASCII letters. -/
def sameIgnoringCase (left right : String) : Bool :=
  left.toList.map Char.toLower == right.toList.map Char.toLower

/-- Whether a text is reserved, in any ASCII case. -/
def isReserved (text : String) : Bool := reservedWords.any (sameIgnoringCase text)

/-- Whether a word is the given literal. Identifiers are compared ignoring ASCII case, all other
words exactly. -/
def isLiteral (token : Token) (literal : String) : Bool :=
  if token.kind = .identifier then sameIgnoringCase token.text literal
  else token.text == literal

/-- Whether a word can be a name. -/
def isName (token : Token) : Bool :=
  token.kind = .identifier && !isReserved token.text

theorem sameIgnoringCase_refl (text : String) : sameIgnoringCase text text := by
  simp [sameIgnoringCase]

end Token

end TinyScript
