import TinyScript.Decimal.Text
import TinyScript.Tree

/-!
# Programs as source text

A tree is written as the words of a program with one blank between any two. Names are written as
they are and reserved words in capitals. A decimal is written as all its digits, a point, and its
scale as an exponent, so that it can be read back at any scale. Between quotes only the quote and
the backslash are escaped.

Annotations are not written, and nothing is added: what stands in parentheses is a group of the
tree.
-/

namespace TinyScript

/-! ## Literals -/

/-- Puts a backslash before the quote and before every backslash. -/
def escapeQuoted (quote : Char) (text : List Char) : List Char :=
  text.flatMap fun c => if c = quote ∨ c = '\\' then ['\\', c] else [c]

/-- Characters between quotes. -/
def quotedWord (quote : Char) (text : List Char) : String :=
  String.ofList (quote :: (escapeQuoted quote text ++ [quote]))

/-- The digits of a decimal with a point behind them, and its scale as an exponent. -/
def Decimal.word (d : Decimal) : String :=
  String.ofList (Text.integerDigits d.unscaled ++ '.' :: 'e' :: Text.integerDigits (-d.scale))

/-- The word of a literal. -/
def Literal.word : Literal → String
  | .nil => "NIL"
  | .boolean true => "TRUE"
  | .boolean false => "FALSE"
  | .character c => quotedWord '\'' [c]
  | .string text => quotedWord '"' text.toList
  | .integer n => String.ofList (Text.integerDigits n)
  | .decimal d => d.word

/-! ## Expressions -/

mutual

/-- The words of an expression. -/
def Expression.words : Expression → List String
  | .literal value _ => [value.word]
  | .group inner _ => "(" :: (inner.words ++ [")"])
  | .binary operator left right _ => left.words ++ operator.symbol :: right.words
  | .access name _ _ => [name]
  | .element name index _ _ => name :: "[" :: (index.words ++ ["]"])
  | .call name arguments _ _ => name :: "(" :: (listWords arguments ++ [")"])
  | .list elements _ => "[" :: (listWords elements ++ ["]"])

/-- The words of expressions, with commas between them. -/
def listWords : List Expression → List String
  | [] => []
  | expression :: expressions => expression.words ++ listWordsBehind expressions

/-- The words of expressions, with a comma before each. -/
def listWordsBehind : List Expression → List String
  | [] => []
  | expression :: expressions => "," :: (expression.words ++ listWordsBehind expressions)

end

/-! ## Statements -/

/-- The words of the name of a type, if there is one. -/
def typeWords : Option String → List String
  | none => []
  | some name => [":", name]

/-- The words of an initial value, if there is one. -/
def initialWords : Option Expression → List String
  | none => []
  | some value => "=" :: value.words

mutual

/-- The words of a statement. -/
def Statement.words : Statement → List String
  | .expression expression => expression.words ++ [";"]
  | .declaration name typeName value _ =>
    "LET" :: name :: (typeWords typeName ++ (initialWords value ++ [";"]))
  | .assignment receiver value => receiver.words ++ "=" :: (value.words ++ [";"])
  | .branch condition thenBody elseBody =>
    "IF" :: (condition.words ++ "DO" :: (blockWords thenBody ++ (elseWords elseBody ++ ["END"])))
  | .switch condition cases => "SWITCH" :: (condition.words ++ (caseWords cases ++ ["END"]))
  | .loop condition body =>
    "WHILE" :: (condition.words ++ "DO" :: (blockWords body ++ ["END"]))
  | .result value => "RETURN" :: (value.words ++ [";"])

/-- The words of statements, one behind the other. -/
def blockWords : List Statement → List String
  | [] => []
  | statement :: statements => statement.words ++ blockWords statements

/-- The words of an alternative, if it has statements. -/
def elseWords : List Statement → List String
  | [] => []
  | statement :: statements => "ELSE" :: (statement.words ++ blockWords statements)

/-- The words of cases. -/
def caseWords : List Case → List String
  | [] => []
  | .mk none body :: cases => "DEFAULT" :: (blockWords body ++ caseWords cases)
  | .mk (some value) body :: cases =>
    "CASE" :: (value.words ++ ":" :: (blockWords body ++ caseWords cases))

end

/-! ## Programs -/

/-- The words of a global. A list of values makes it a list. -/
def Global.words (global : Global) : List String :=
  match global.value with
  | some (.list elements ty) =>
    "LIST" :: global.name :: (typeWords global.typeName ++
      "=" :: ((Expression.list elements ty).words ++ [";"]))
  | value =>
    (if global.isMutable then "VAR" else "VAL") :: global.name ::
      (typeWords global.typeName ++ (initialWords value ++ [";"]))

/-- The words of parameters, with commas between them. -/
def parameterWords : List Parameter → List String
  | [] => []
  | [parameter] => [parameter.name, ":", parameter.typeName]
  | parameter :: parameters =>
    parameter.name :: ":" :: parameter.typeName :: "," :: parameterWords parameters

/-- The words of a function. -/
def Function.words (function : Function) : List String :=
  "FUN" :: function.name :: "(" :: (parameterWords function.parameters ++
    ")" :: (typeWords function.returnTypeName ++ "DO" :: (blockWords function.body ++ ["END"])))

/-- The words of a program. -/
def Program.words (program : Program) : List String :=
  program.globals.flatMap Global.words ++ program.functions.flatMap Function.words

/-- The text of a program: its words with blanks between them. -/
def Program.sourceText (program : Program) : String :=
  String.ofList ([' '].intercalate (program.words.map String.toList))

end TinyScript
