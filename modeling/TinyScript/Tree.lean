import TinyScript.Decimal.Basic
import TinyScript.Ty

/-!
# Programs as trees

The tree of a program, as the reader builds it. Some places of a tree are annotations: the type
of every expression, the binding of every access, call, global and declaration, and the signature
of every function. The reader leaves them empty and the checker fills them in; a run does not
look at them.
-/

namespace TinyScript

/-! ## Operators and literals -/

/-- The binary operators. -/
inductive Operator where
  | and
  | or
  | less
  | greater
  | equal
  | notEqual
  | add
  | subtract
  | multiply
  | divide
  | power
deriving DecidableEq, Repr, Inhabited

namespace Operator

/-- Every operator. -/
def all : List Operator :=
  [and, or, less, greater, equal, notEqual, add, subtract, multiply, divide, power]

/-- The operator as it is written in programs. -/
def symbol : Operator → String
  | and => "&&"
  | or => "||"
  | less => "<"
  | greater => ">"
  | equal => "=="
  | notEqual => "!="
  | add => "+"
  | subtract => "-"
  | multiply => "*"
  | divide => "/"
  | power => "^"

/-- The operator written with a given symbol. -/
def ofSymbol? (text : String) : Option Operator := all.find? fun operator => operator.symbol == text

/-- The name of an operator. -/
def name : Operator → String
  | and => "And"
  | or => "Or"
  | less => "Less"
  | greater => "Greater"
  | equal => "Equal"
  | notEqual => "NotEqual"
  | add => "Add"
  | subtract => "Subtract"
  | multiply => "Multiply"
  | divide => "Divide"
  | power => "Power"

/-- The operator with a given name. -/
def ofName? (text : String) : Option Operator := all.find? fun operator => operator.name == text

theorem ofSymbol?_symbol (operator : Operator) : ofSymbol? operator.symbol = some operator := by
  cases operator <;> decide

theorem ofName?_name (operator : Operator) : ofName? operator.name = some operator := by
  cases operator <;> decide

end Operator

/-- The values that can be written in a program. -/
inductive Literal where
  | nil
  | boolean (value : Bool)
  | character (value : Char)
  | string (value : String)
  | integer (value : Int)
  | decimal (value : Decimal)
deriving DecidableEq, Repr, Inhabited

/-! ## Annotations -/

/-- What the checker knows of a variable. A list has the type of its elements beside its own. -/
structure VariableBinding where
  name : String
  ty : Ty
  element : Option Ty
  isMutable : Bool
deriving DecidableEq, Repr, Inhabited

/-- What the checker knows of a function. -/
structure Signature where
  name : String
  parameters : List Ty
  returns : Ty
deriving DecidableEq, Repr, Inhabited

/-! ## Expressions -/

/-- Expressions. The last place of each is the annotation with its type. -/
inductive Expression where
  | literal (value : Literal) (ty : Option Ty)
  /-- An expression in parentheses. -/
  | group (inner : Expression) (ty : Option Ty)
  | binary (operator : Operator) (left right : Expression) (ty : Option Ty)
  /-- A variable read by its name. -/
  | access (name : String) (binding : Option VariableBinding) (ty : Option Ty)
  /-- An element of the list that a variable holds. -/
  | element (name : String) (index : Expression) (binding : Option VariableBinding)
      (ty : Option Ty)
  | call (name : String) (arguments : List Expression) (binding : Option Signature)
      (ty : Option Ty)
  | list (elements : List Expression) (ty : Option Ty)
deriving Inhabited

namespace Expression

/-- The annotation with the type. -/
def ty : Expression → Option Ty
  | literal _ ty | group _ ty | binary _ _ _ ty | access _ _ ty | element _ _ _ ty
  | call _ _ _ ty | list _ ty => ty

/-- Whether an expression is a call. -/
def isCall : Expression → Bool
  | call .. => true
  | _ => false

/-- Whether an expression applies an operator. -/
def isBinary : Expression → Bool
  | binary .. => true
  | _ => false

/-- Whether an expression can be assigned to. -/
def isReceiver : Expression → Bool
  | access .. | element .. => true
  | _ => false

end Expression

/-! ## Statements -/

mutual

/-- Statements. -/
inductive Statement where
  /-- A call made for its effects. -/
  | expression (expression : Expression)
  | declaration (name : String) (typeName : Option String) (value : Option Expression)
      (binding : Option VariableBinding)
  | assignment (receiver value : Expression)
  | branch (condition : Expression) (thenBody elseBody : List Statement)
  | switch (condition : Expression) (cases : List Case)
  | loop (condition : Expression) (body : List Statement)
  | result (value : Expression)

/-- One case of a switch. Only the last one, the default, has no value. -/
inductive Case where
  | mk (value : Option Expression) (body : List Statement)

end

instance : Inhabited Statement := ⟨.expression default⟩
instance : Inhabited Case := ⟨.mk none []⟩

/-! ## Programs -/

/-- A parameter with the name of its type. -/
structure Parameter where
  name : String
  typeName : String
deriving DecidableEq, Repr, Inhabited

/-- A function. Functions are told apart by name and arity. -/
structure Function where
  name : String
  parameters : List Parameter
  returnTypeName : Option String
  body : List Statement
  /-- Annotation with the types of parameters and result. -/
  signature : Option Signature
deriving Inhabited

/-- The number of parameters. -/
def Function.arity (function : Function) : Nat := function.parameters.length

/-- A variable of the whole program. -/
structure Global where
  name : String
  typeName : Option String
  isMutable : Bool
  value : Option Expression
  /-- Annotation with the type. -/
  binding : Option VariableBinding
deriving Inhabited

/-- A program: its globals in order, then its functions. -/
structure Program where
  globals : List Global
  functions : List Function
deriving Inhabited

end TinyScript
