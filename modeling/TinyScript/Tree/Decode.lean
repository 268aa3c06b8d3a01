import TinyScript.Json.Number
import TinyScript.Tree.Encode

/-!
# Trees from JSON

Reads what `Tree.Encode` writes, and is more lenient in some ways: members may come in any order,
unknown ones are skipped, absent optional ones are `null`, an object with fixed members may be an
array of all of them in order, and a case without content may be an object with content `null`.

Every function takes a limit on how many arrays and objects may still be entered one inside the
other. Skipped members do not count.
-/

namespace TinyScript

namespace Json

/-! ## Shapes -/

/-- The values of the named members of an object, in the order of the names; an absent member
has none, and a repeated one is a fault. -/
def fields? (names : List String) (json : Json) : Option (List (Option Json)) :=
  match json with
  | array items => if items.length = names.length then some (items.map some) else none
  | object _ => do
    let members ← json.members?
    names.mapM fun name =>
      match members.filter (·.1 == name) with
      | [] => some none
      | [(_, value)] => some (some value)
      | _ => none
  | _ => none

/-- The case that a choice names, with its content if it has any. -/
def choice? : Json → Option (String × Option Json)
  | string inside => (unquote? inside).map (·, none)
  | object [(key, content)] => (unquote? key).map (·, some content)
  | _ => none

/-- The name of a case without content. -/
def unit? (json : Json) : Option String :=
  match json.choice? with
  | some (name, none) => some name
  | some (name, some null) => some name
  | _ => none

/-- Reads an optional value. -/
def optional? {α : Type} (read : Json → Option α) : Option Json → Option (Option α)
  | none => some none
  | some null => some none
  | some json => (read json).map some

end Json

open Json (optional?)

/-- Enters an array or object, if the limit admits it. -/
def entering {α : Type} (limit : Nat) (read : Nat → Option α) : Option α :=
  match limit with
  | 0 => none
  | limit + 1 => read limit

/-- Reads the items of an array. -/
def decodeList {α : Type} (limit : Nat) (read : Nat → Json → Option α) (json : Json) :
    Option (List α) :=
  entering limit fun limit => do (← json.array?).mapM (read limit)

/-- Reads a case without content, which may be written as an object. -/
def decodeUnit {α : Type} (ofName? : String → Option α) (limit : Nat) (json : Json) : Option α :=
  match json with
  | .object _ => entering limit fun _ => json.unit?.bind ofName?
  | _ => json.unit?.bind ofName?

/-! ## Scalars -/

/-- A type. -/
def Ty.ofJson? : Nat → Json → Option Ty := decodeUnit Ty.ofName?

/-- The number that digits to a base denote, lowest first. -/
def numberOfBase (base : Nat) : List Nat → Nat
  | [] => 0
  | digit :: digits => digit + base * numberOfBase base digits

/-- A sign times a magnitude. -/
def decodeInteger (limit : Nat) (json : Json) : Option Int :=
  entering limit fun limit => do
    let [sign, digits] ← json.array? | none
    let sign ← sign.int?
    let digits ← decodeList limit (fun _ => Json.nat? integerBase) digits
    if -1 ≤ sign ∧ sign ≤ 1 then return sign * numberOfBase integerBase digits else none

/-- A decimal, as a text or as a number. -/
def decodeDecimal : Json → Option Decimal
  | .number text => Json.decimalOfNumber? text.toList
  | json => json.string?.bind fun text => Decimal.read? text.toList

/-- A text of exactly one character. -/
def decodeCharacter (json : Json) : Option Char :=
  match json.string?.map String.toList with
  | some [c] => some c
  | _ => none

/-- A literal. -/
def Literal.ofJson? (limit : Nat) (json : Json) : Option Literal :=
  match json.choice? with
  | some ("Nil", none) => some .nil
  | some (name, some content) =>
    entering limit fun limit =>
      match name with
      | "Nil" => match content with
        | .null => some .nil
        | _ => none
      | "Boolean" => content.bool?.map .boolean
      | "Character" => (decodeCharacter content).map .character
      | "String" => content.string?.map .string
      | "Integer" => (decodeInteger limit content).map .integer
      | "Decimal" => (decodeDecimal content).map .decimal
      | _ => none
  | _ => none

/-- A word. -/
def Token.ofJson? (limit : Nat) (json : Json) : Option Token :=
  entering limit fun limit => do
    let [kind, text, offset] ← json.fields? ["kind", "literal", "offset"] | none
    return ⟨← decodeUnit Kind.ofName? limit (← kind), ← (← text).string?,
      ← (← offset).nat? Json.wordBound⟩

/-! ## Annotations -/

/-- What is known of a variable. -/
def VariableBinding.ofJson? (limit : Nat) (json : Json) : Option VariableBinding :=
  entering limit fun limit => do
    let [name, ty, element, isMutable] ← json.fields? ["name", "ty", "element", "mutable"] | none
    return ⟨← (← name).string?, ← Ty.ofJson? limit (← ty), ← optional? (Ty.ofJson? limit) element,
      ← (← isMutable).bool?⟩

/-- What is known of a function. -/
def Signature.ofJson? (limit : Nat) (json : Json) : Option Signature :=
  entering limit fun limit => do
    let [name, parameters, returns] ← json.fields? ["name", "parameters", "returns"] | none
    return ⟨← (← name).string?, ← decodeList limit Ty.ofJson? (← parameters),
      ← Ty.ofJson? limit (← returns)⟩

/-! ## Expressions

What stands inside of an object or array is read with a lower limit, so a tree is read by a
recursion on the limit. Each shape has a reader of its own, given how what is inside of it is
read. -/

/-- A binary expression behind its kind. -/
def decodeBinary (read : Nat → Json → Option Expression) (limit : Nat) (content : Json)
    (ty : Option Ty) : Option Expression :=
  entering limit fun limit => do
    let [operator, left, right] ← content.fields? ["operator", "left", "right"] | none
    return .binary (← decodeUnit Operator.ofName? limit (← operator)) (← read limit (← left))
      (← read limit (← right)) ty

/-- A variable, or an element of it, behind its kind. -/
def decodeAccess (read : Nat → Json → Option Expression) (limit : Nat) (content : Json)
    (ty : Option Ty) : Option Expression :=
  entering limit fun limit => do
    let [name, index, binding] ← content.fields? ["name", "index", "binding"] | none
    let name ← (← name).string?
    let binding ← optional? (VariableBinding.ofJson? limit) binding
    match ← optional? (read limit) index with
    | none => return .access name binding ty
    | some index => return .element name index binding ty

/-- A call behind its kind. -/
def decodeCall (read : Nat → Json → Option Expression) (limit : Nat) (content : Json)
    (ty : Option Ty) : Option Expression :=
  entering limit fun limit => do
    let [name, arguments, binding] ← content.fields? ["name", "arguments", "binding"] | none
    return .call (← (← name).string?) (← decodeList limit read (← arguments))
      (← optional? (Signature.ofJson? limit) binding) ty

/-- What a kind of expression holds. -/
def decodeKind (read : Nat → Json → Option Expression) (limit : Nat) (name : String)
    (content : Json) (ty : Option Ty) : Option Expression :=
  match name with
  | "Literal" => return .literal (← Literal.ofJson? limit content) ty
  | "Group" => return .group (← read limit content) ty
  | "Binary" => decodeBinary read limit content ty
  | "Access" => decodeAccess read limit content ty
  | "Call" => decodeCall read limit content ty
  | "List" => return .list (← decodeList limit read content) ty
  | _ => none

/-- The object of an expression. -/
def decodeNode (read : Nat → Json → Option Expression) (limit : Nat) (json : Json) :
    Option Expression :=
  entering limit fun limit => do
    let [kind, ty] ← json.fields? ["kind", "ty"] | none
    let ty ← optional? (Ty.ofJson? limit) ty
    let (name, content) ← (← kind).choice?
    let content ← content
    entering limit fun limit => decodeKind read limit name content ty

/-- An expression. -/
def Expression.ofJson? (limit : Nat) (json : Json) : Option Expression :=
  decodeNode (fun inner json => if inner < limit then ofJson? inner json else none) limit json
termination_by limit
decreasing_by assumption

/-! ## Statements -/

/-- An optional name. -/
def decodeName : Option Json → Option (Option String) := optional? Json.string?

/-- A declaration behind its kind. -/
def decodeDeclaration (limit : Nat) (content : Json) : Option Statement :=
  entering limit fun limit => do
    let [name, typeName, value, binding] ←
      content.fields? ["name", "type_name", "value", "binding"] | none
    return .declaration (← (← name).string?) (← decodeName typeName)
      (← optional? (Expression.ofJson? limit) value)
      (← optional? (VariableBinding.ofJson? limit) binding)

/-- An assignment behind its kind. -/
def decodeAssignment (limit : Nat) (content : Json) : Option Statement :=
  entering limit fun limit => do
    let [receiver, value] ← content.fields? ["receiver", "value"] | none
    return .assignment (← Expression.ofJson? limit (← receiver))
      (← Expression.ofJson? limit (← value))

/-- A branch behind its kind. -/
def decodeBranch (read : Nat → Json → Option Statement) (limit : Nat) (content : Json) :
    Option Statement :=
  entering limit fun limit => do
    let [condition, thenBody, elseBody] ←
      content.fields? ["condition", "then_body", "else_body"] | none
    return .branch (← Expression.ofJson? limit (← condition))
      (← decodeList limit read (← thenBody)) (← decodeList limit read (← elseBody))

/-- A case of a switch. -/
def decodeCase (read : Nat → Json → Option Statement) (limit : Nat) (json : Json) : Option Case :=
  entering limit fun limit => do
    let [value, body] ← json.fields? ["value", "body"] | none
    return .mk (← optional? (Expression.ofJson? limit) value) (← decodeList limit read (← body))

/-- A switch behind its kind. -/
def decodeSwitch (read : Nat → Json → Option Statement) (limit : Nat) (content : Json) :
    Option Statement :=
  entering limit fun limit => do
    let [condition, cases] ← content.fields? ["condition", "cases"] | none
    return .switch (← Expression.ofJson? limit (← condition))
      (← decodeList limit (decodeCase read) (← cases))

/-- A loop behind its kind. -/
def decodeLoop (read : Nat → Json → Option Statement) (limit : Nat) (content : Json) :
    Option Statement :=
  entering limit fun limit => do
    let [condition, body] ← content.fields? ["condition", "body"] | none
    return .loop (← Expression.ofJson? limit (← condition)) (← decodeList limit read (← body))

/-- What a kind of statement holds. -/
def decodeStatementKind (read : Nat → Json → Option Statement) (limit : Nat) (name : String)
    (content : Json) : Option Statement :=
  match name with
  | "Expression" => return .expression (← Expression.ofJson? limit content)
  | "Declaration" => decodeDeclaration limit content
  | "Assignment" => decodeAssignment limit content
  | "If" => decodeBranch read limit content
  | "Switch" => decodeSwitch read limit content
  | "While" => decodeLoop read limit content
  | "Return" => return .result (← Expression.ofJson? limit content)
  | _ => none

/-- The object of a statement. -/
def decodeStatement (read : Nat → Json → Option Statement) (limit : Nat) (json : Json) :
    Option Statement :=
  entering limit fun limit => do
    let (name, content) ← json.choice?
    decodeStatementKind read limit name (← content)

/-- A statement. -/
def Statement.ofJson? (limit : Nat) (json : Json) : Option Statement :=
  decodeStatement (fun inner json => if inner < limit then ofJson? inner json else none) limit json
termination_by limit
decreasing_by assumption

/-! ## Programs -/

/-- A parameter. -/
def Parameter.ofJson? (limit : Nat) (json : Json) : Option Parameter :=
  entering limit fun _ => do
    let [name, typeName] ← json.fields? ["name", "type_name"] | none
    return ⟨← (← name).string?, ← (← typeName).string?⟩

/-- A function. -/
def Function.ofJson? (limit : Nat) (json : Json) : Option Function :=
  entering limit fun limit => do
    let [name, parameters, returnTypeName, body, signature] ←
      json.fields? ["name", "parameters", "return_type_name", "body", "signature"] | none
    return ⟨← (← name).string?, ← decodeList limit Parameter.ofJson? (← parameters),
      ← decodeName returnTypeName, ← decodeList limit Statement.ofJson? (← body),
      ← optional? (Signature.ofJson? limit) signature⟩

/-- A global. -/
def Global.ofJson? (limit : Nat) (json : Json) : Option Global :=
  entering limit fun limit => do
    let [name, typeName, isMutable, value, binding] ←
      json.fields? ["name", "type_name", "mutable", "value", "binding"] | none
    return ⟨← (← name).string?, ← decodeName typeName, ← (← isMutable).bool?,
      ← optional? (Expression.ofJson? limit) value,
      ← optional? (VariableBinding.ofJson? limit) binding⟩

/-- A program. -/
def Program.ofJson? (limit : Nat) (json : Json) : Option Program :=
  entering limit fun limit => do
    let [globals, functions] ← json.fields? ["globals", "functions"] | none
    return ⟨← decodeList limit Global.ofJson? (← globals),
      ← decodeList limit Function.ofJson? (← functions)⟩

/-- How many arrays and objects of a text may be entered one inside the other. -/
def textNestingLimit : Nat := 127

end TinyScript
