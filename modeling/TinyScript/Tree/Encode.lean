import TinyScript.Decimal.Text
import TinyScript.Json.Basic
import TinyScript.Token
import TinyScript.Tree

/-!
# Trees as JSON

Every part of a tree is an object that names all its places, in the order of the type, with
`null` for an absent one. A choice is an object with one key that names the case, or the bare
name for a case without content. An integer is its sign and its digits to the base `2 ^ 32`,
lowest first.
-/

namespace TinyScript

open Json (ofOption record tagged)

/-! ## Scalars -/

/-- A type by its name. -/
def Ty.toJson (ty : Ty) : Json := .ofString ty.name

/-- An optional type name. -/
def encodeName : Option String → Json := ofOption .ofString

/-- The digits of a number to a base, lowest first, without a leading zero digit. -/
def digitsOfBase (base n : Nat) : List Nat :=
  if _ : 1 < base ∧ 0 < n then n % base :: digitsOfBase base (n / base) else []
termination_by n
decreasing_by
  have large : 1 < base ∧ 0 < n := ‹1 < base ∧ 0 < n›
  exact Nat.div_lt_self large.2 large.1

/-- The base of the digits of integers. -/
def integerBase : Nat := 0x100000000

/-- An integer as its sign and its digits. -/
def encodeInteger (n : Int) : Json :=
  .array [.ofInt n.sign, .ofList Json.ofNat (digitsOfBase integerBase n.natAbs)]

/-- A literal. -/
def Literal.toJson : Literal → Json
  | nil => .ofString "Nil"
  | boolean value => tagged "Boolean" (.bool value)
  | character value => tagged "Character" (.ofString value.toString)
  | string value => tagged "String" (.ofString value)
  | integer value => tagged "Integer" (encodeInteger value)
  | decimal value => tagged "Decimal" (.ofString value.text)

/-- A word. -/
def Token.toJson (token : Token) : Json :=
  record [("kind", .ofString token.kind.name), ("literal", .ofString token.text),
    ("offset", .ofNat token.offset)]

/-! ## Annotations -/

/-- What is known of a variable. -/
def VariableBinding.toJson (binding : VariableBinding) : Json :=
  record [("name", .ofString binding.name), ("ty", binding.ty.toJson),
    ("element", ofOption Ty.toJson binding.element), ("mutable", .bool binding.isMutable)]

/-- What is known of a function. -/
def Signature.toJson (signature : Signature) : Json :=
  record [("name", .ofString signature.name),
    ("parameters", .ofList Ty.toJson signature.parameters),
    ("returns", signature.returns.toJson)]

/-! ## Expressions -/

/-- The object of an expression: its kind and its type. -/
def encodeNode (kind : Json) (ty : Option Ty) : Json :=
  record [("kind", kind), ("ty", ofOption Ty.toJson ty)]

/-- A variable, with the index when an element is meant. -/
def encodeAccess (name : String) (index : Json) (binding : Option VariableBinding) : Json :=
  tagged "Access" (record [("name", .ofString name), ("index", index),
    ("binding", ofOption VariableBinding.toJson binding)])

mutual

/-- An expression. -/
def Expression.toJson : Expression → Json
  | .literal value ty => encodeNode (tagged "Literal" value.toJson) ty
  | .group inner ty => encodeNode (tagged "Group" inner.toJson) ty
  | .binary operator left right ty =>
    encodeNode (tagged "Binary" (record [("operator", .ofString operator.name),
      ("left", left.toJson), ("right", right.toJson)])) ty
  | .access name binding ty => encodeNode (encodeAccess name .null binding) ty
  | .element name index binding ty => encodeNode (encodeAccess name index.toJson binding) ty
  | .call name arguments binding ty =>
    encodeNode (tagged "Call" (record [("name", .ofString name),
      ("arguments", .array (encodeExpressions arguments)),
      ("binding", ofOption Signature.toJson binding)])) ty
  | .list elements ty => encodeNode (tagged "List" (.array (encodeExpressions elements))) ty

/-- Expressions in order. -/
def encodeExpressions : List Expression → List Json
  | [] => []
  | expression :: expressions => expression.toJson :: encodeExpressions expressions

end

/-! ## Statements -/

mutual

/-- A statement. -/
def Statement.toJson : Statement → Json
  | .expression expression => tagged "Expression" expression.toJson
  | .declaration name typeName value binding =>
    tagged "Declaration" (record [("name", .ofString name), ("type_name", encodeName typeName),
      ("value", ofOption Expression.toJson value),
      ("binding", ofOption VariableBinding.toJson binding)])
  | .assignment receiver value =>
    tagged "Assignment" (record [("receiver", receiver.toJson), ("value", value.toJson)])
  | .branch condition thenBody elseBody =>
    tagged "If" (record [("condition", condition.toJson),
      ("then_body", .array (encodeStatements thenBody)),
      ("else_body", .array (encodeStatements elseBody))])
  | .switch condition cases =>
    tagged "Switch" (record [("condition", condition.toJson),
      ("cases", .array (encodeCases cases))])
  | .loop condition body =>
    tagged "While" (record [("condition", condition.toJson),
      ("body", .array (encodeStatements body))])
  | .result value => tagged "Return" value.toJson

/-- A case of a switch. -/
def Case.toJson : Case → Json
  | .mk value body =>
    record [("value", ofOption Expression.toJson value), ("body", .array (encodeStatements body))]

/-- Statements in order. -/
def encodeStatements : List Statement → List Json
  | [] => []
  | statement :: statements => statement.toJson :: encodeStatements statements

/-- Cases in order. -/
def encodeCases : List Case → List Json
  | [] => []
  | case :: cases => case.toJson :: encodeCases cases

end

/-! ## Programs -/

/-- A parameter. -/
def Parameter.toJson (parameter : Parameter) : Json :=
  record [("name", .ofString parameter.name), ("type_name", .ofString parameter.typeName)]

/-- A function. -/
def Function.toJson (function : Function) : Json :=
  record [("name", .ofString function.name),
    ("parameters", .ofList Parameter.toJson function.parameters),
    ("return_type_name", encodeName function.returnTypeName),
    ("body", .array (encodeStatements function.body)),
    ("signature", ofOption Signature.toJson function.signature)]

/-- A global. -/
def Global.toJson (global : Global) : Json :=
  record [("name", .ofString global.name), ("type_name", encodeName global.typeName),
    ("mutable", .bool global.isMutable), ("value", ofOption Expression.toJson global.value),
    ("binding", ofOption VariableBinding.toJson global.binding)]

/-- A program. -/
def Program.toJson (program : Program) : Json :=
  record [("globals", .ofList Global.toJson program.globals),
    ("functions", .ofList Function.toJson program.functions)]

end TinyScript
