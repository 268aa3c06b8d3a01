import TinyScript.Typing.Program

/-!
# Where lists are moved

The type of a list says nothing about its elements; an element type is kept with the variables
that lists are read from. So a list can come to a variable with another element type than that of
the variable it comes from. `Program.transfers` collects all places of an annotated program where
a list can be moved, each with the element type that is expected of it there, and a program keeps
elements when the lists moved have the element types that are expected.
-/

namespace TinyScript

/-- The type of what is found in lists that a variable holds. -/
def VariableBinding.itemType (binding : VariableBinding) : Ty :=
  if binding.ty = .list then binding.element.getD .any else .any

namespace Expression

/-- The element type of a list that an expression evaluates to. Only variables know one. -/
def elementOf : Expression → Ty
  | access _ (some binding) _ => binding.itemType
  | group inner _ => inner.elementOf
  | _ => .any

/-- A list that an expression evaluates to may stand where elements of a type are expected: a new
list if its elements may stand there, and any other if it has that very element type. -/
def Holds (element : Ty) : Expression → Prop
  | list elements _ =>
    ∀ value ∈ elements, Typing.isAssignable element (value.ty.getD .any) = true
  | group inner _ => inner.Holds element
  | expression => expression.elementOf = element

/-- Whether a list may stand where elements of a type are expected can be computed. -/
def decidableHolds (wanted : Ty) : (expression : Expression) → Decidable (expression.Holds wanted)
  | .list elements _ =>
    inferInstanceAs (Decidable (∀ value ∈ elements,
      Typing.isAssignable wanted (value.ty.getD .any) = true))
  | .group inner _ => decidableHolds wanted inner
  | .access name binding ty =>
    inferInstanceAs (Decidable ((access name binding ty).elementOf = wanted))
  | .literal .. | .binary .. | .element .. | .call .. => inferInstanceAs (Decidable (.any = wanted))

instance (wanted : Ty) (expression : Expression) : Decidable (expression.Holds wanted) :=
  decidableHolds wanted expression

/-- Every expression may stand somewhere. -/
theorem exists_holds : ∀ expression : Expression, ∃ wanted, expression.Holds wanted
  | .list _ _ => ⟨.any, fun _ _ => Typing.isAssignable_any _⟩
  | .group inner _ => inner.exists_holds
  | .literal .. | .binary .. | .access .. | .element .. | .call .. => ⟨_, rfl⟩

end Expression

/-! ## Transfers -/

/-- A place where the value of an expression is moved, with the element type that is expected of
lists there. -/
structure Transfer where
  element : Ty
  value : Expression

/-- A list that is moved has the element type that is expected. -/
def Transfer.Kept (transfer : Transfer) : Prop := transfer.value.Holds transfer.element

instance (transfer : Transfer) : Decidable transfer.Kept := by
  unfold Transfer.Kept
  infer_instance

mutual

/-- The transfers in an expression. What is printed is not moved. -/
def Expression.transfers : Expression → List Transfer
  | .literal .. | .access .. => []
  | .group inner _ => inner.transfers
  | .binary _ left right _ => left.transfers ++ right.transfers
  | .element _ index _ _ => index.transfers
  | .call _ arguments binding _ =>
    (if binding = some Typing.printSignature then [] else arguments.map (⟨.any, ·⟩)) ++
      transfersOfExpressions arguments
  | .list elements _ => elements.map (⟨.any, ·⟩) ++ transfersOfExpressions elements

/-- The transfers in expressions. -/
def transfersOfExpressions : List Expression → List Transfer
  | [] => []
  | expression :: expressions => expression.transfers ++ transfersOfExpressions expressions

end

mutual

/-- The transfers in a statement. -/
def Statement.transfers : Statement → List Transfer
  | .expression expression => expression.transfers
  | .declaration _ _ none _ => []
  | .declaration _ _ (some value) binding =>
    ⟨binding.elim .any VariableBinding.itemType, value⟩ :: value.transfers
  | .assignment receiver value =>
    ⟨receiver.elementOf, value⟩ :: (receiver.transfers ++ value.transfers)
  | .branch test thenBody elseBody =>
    test.transfers ++ (transfersOfStatements thenBody ++ transfersOfStatements elseBody)
  | .switch test cases => test.transfers ++ transfersOfCases cases
  | .loop test body => test.transfers ++ transfersOfStatements body
  | .result value => ⟨.any, value⟩ :: value.transfers

/-- The transfers in statements. -/
def transfersOfStatements : List Statement → List Transfer
  | [] => []
  | statement :: statements => statement.transfers ++ transfersOfStatements statements

/-- The transfers in the cases of a switch. -/
def transfersOfCases : List Case → List Transfer
  | [] => []
  | .mk none body :: cases => transfersOfStatements body ++ transfersOfCases cases
  | .mk (some value) body :: cases =>
    value.transfers ++ (transfersOfStatements body ++ transfersOfCases cases)

end

/-- The transfers in a global. -/
def Global.transfers (global : Global) : List Transfer :=
  match global.value with
  | none => []
  | some value => ⟨global.binding.elim .any VariableBinding.itemType, value⟩ :: value.transfers

/-- The transfers in a program. -/
def Program.transfers (program : Program) : List Transfer :=
  program.globals.flatMap Global.transfers ++
    program.functions.flatMap fun function => transfersOfStatements function.body

/-- Every list of an annotated program stays with variables of its element type. -/
def Program.KeepsElements (program : Program) : Prop :=
  ∀ transfer ∈ program.transfers, transfer.Kept

instance (program : Program) : Decidable program.KeepsElements := by
  unfold Program.KeepsElements
  infer_instance

end TinyScript
