import TinyScript.Decimal.Range
import TinyScript.Typing.Names
import TinyScript.Typing.Rules

/-!
# Checking expressions

`Expression.annotate` finds the type of an expression in a scope and writes down on the way what
it finds: the type of every part and the binding of every name. At the first fault it stops, and
the fault carries the tree as far as it has been annotated.
-/

namespace TinyScript.Typing

/-- What the checker knows of names. -/
abbrev StaticScope := Scope VariableBinding Signature

/-- What a host can adjust. -/
structure Settings where
  names : TypeNames
  /-- Whether only applications of operators may be put in parentheses. -/
  strictGroups : Bool
deriving Repr

instance : Inhabited Settings := ⟨⟨.builtin, true⟩⟩

/-- A fault, with the tree as far as it has been annotated. -/
structure Fault (Tree : Type) where
  reason : TypeError
  tree : Tree

/-- A fault in a part of a tree, as a fault in the whole. -/
def Fault.within {Part Whole : Type} (rebuild : Part → Whole) (fault : Fault Part) :
    Fault Whole :=
  ⟨fault.reason, rebuild fault.tree⟩

/-- What checking a part of a tree gives, with a fault carried over to the whole. -/
def within {Part Whole α : Type} (rebuild : Part → Whole) (checked : Except (Fault Part) α) :
    Except (Fault Whole) α :=
  checked.mapError (Fault.within rebuild)

/-- A demand made on a tree, which is part of the fault if the demand is not met. -/
def demand {Tree α : Type} (tree : Tree) (result : Except TypeError α) : Except (Fault Tree) α :=
  result.mapError (⟨·, tree⟩)

/-! ## Types of parts -/

/-- Whether an integer literal fits 32 bits. -/
def isSmallInteger (n : Int) : Bool := -0x80000000 ≤ n && n < 0x80000000

/-- The type of a literal, which has to lie in range. -/
def literalType : Literal → Except TypeError Ty
  | .nil => .ok .nil
  | .boolean _ => .ok .boolean
  | .character _ => .ok .character
  | .string _ => .ok .string
  | .integer n => if isSmallInteger n then .ok .integer else .error (.integerOutOfRange n)
  | .decimal d => if d.isInRange then .ok .decimal else .error (.decimalOutOfRange d)

/-- The type of an element of what a variable holds, given the type of the index. -/
def elementType (binding : VariableBinding) (name : String) (index : Ty) :
    Except TypeError Ty := do
  requireExact .integer index
  match binding.ty with
  | .list => return binding.element.getD .any
  | .any => return .any
  | other => throw (.notIndexable name other)

/-- The element type that a copy of a list variable takes over. -/
def copiedElement : Expression → Option Ty
  | .access _ (some binding) _ => binding.element
  | _ => none

/-! ## Expressions -/

mutual

/-- Annotates an expression and gives its type. -/
def annotateExpression (settings : Settings) (scope : StaticScope) :
    Expression → Except (Fault Expression) (Expression × Ty)
  | .literal value old => do
    let ty ← demand (.literal value old) (literalType value)
    return (.literal value (some ty), ty)
  | .group inner old => do
    if settings.strictGroups && !inner.isBinary then
      throw ⟨.groupWithoutOperator, .group inner old⟩
    let (inner, ty) ← within (.group · old) (annotateExpression settings scope inner)
    return (.group inner (some ty), ty)
  | .binary operator left right old => do
    let (left, leftTy) ←
      within (.binary operator · right old) (annotateExpression settings scope left)
    let (right, rightTy) ←
      within (.binary operator left · old) (annotateExpression settings scope right)
    let ty ← demand (.binary operator left right old) (operatorType operator leftTy rightTy)
    return (.binary operator left right (some ty), ty)
  | .access name oldBinding old =>
    match scope.lookupVariable name with
    | none => .error ⟨.undeclared name, .access name oldBinding old⟩
    | some binding => .ok (.access name (some binding) (some binding.ty), binding.ty)
  | .element name index oldBinding old =>
    match scope.lookupVariable name with
    | none => .error ⟨.undeclared name, .element name index oldBinding old⟩
    | some binding => do
      let (index, indexTy) ←
        within (.element name · oldBinding old) (annotateExpression settings scope index)
      let ty ← demand (.element name index oldBinding old) (elementType binding name indexTy)
      return (.element name index (some binding) (some ty), ty)
  | .call name arguments oldBinding old =>
    match scope.lookupFunction name arguments.length with
    | none =>
      .error ⟨.undefinedFunction name arguments.length, .call name arguments oldBinding old⟩
    | some (signature, _) => do
      let arguments ← within (.call name · oldBinding old)
        (annotateArguments settings scope arguments signature.parameters)
      return (.call name arguments (some signature) (some signature.returns), signature.returns)
  | .list elements old => do
    let elements ← within (.list · old) (annotateElements settings scope elements)
    return (.list elements (some .list), .list)

/-- Annotates the arguments of a call, which have to fit the types of the parameters. -/
def annotateArguments (settings : Settings) (scope : StaticScope) :
    List Expression → List Ty → Except (Fault (List Expression)) (List Expression)
  | [], _ => .ok []
  | arguments, [] => .ok arguments
  | argument :: arguments, expected :: parameters => do
    let (argument, received) ←
      within (· :: arguments) (annotateExpression settings scope argument)
    demand (argument :: arguments) (requireAssignable expected received)
    let arguments ←
      within (argument :: ·) (annotateArguments settings scope arguments parameters)
    return argument :: arguments

/-- Annotates the elements of a list, whatever their types. -/
def annotateElements (settings : Settings) (scope : StaticScope) :
    List Expression → Except (Fault (List Expression)) (List Expression)
  | [] => .ok []
  | element :: elements => do
    let (element, _) ← within (· :: elements) (annotateExpression settings scope element)
    let elements ← within (element :: ·) (annotateElements settings scope elements)
    return element :: elements

end

end TinyScript.Typing
