import TinyScript.Tree

/-!
# Variables of a tree

The names of the variables that a tree reads, assigns or declares.
-/

namespace TinyScript

mutual

/-- The variables that an expression reads. -/
def Expression.variables : Expression → List String
  | .literal _ _ => []
  | .group inner _ => inner.variables
  | .binary _ left right _ => left.variables ++ right.variables
  | .access name _ _ => [name]
  | .element name index _ _ => name :: index.variables
  | .call _ arguments _ _ => variablesOfEach arguments
  | .list elements _ => variablesOfEach elements

/-- The variables that expressions read. -/
def variablesOfEach : List Expression → List String
  | [] => []
  | expression :: expressions => expression.variables ++ variablesOfEach expressions

end

mutual

/-- The variables of a statement. -/
def Statement.variables : Statement → List String
  | .expression expression => expression.variables
  | .declaration name _ value _ => name :: value.elim [] Expression.variables
  | .assignment receiver value => receiver.variables ++ value.variables
  | .branch condition thenBody elseBody =>
    condition.variables ++ (variablesOfBlock thenBody ++ variablesOfBlock elseBody)
  | .switch condition cases => condition.variables ++ variablesOfCases cases
  | .loop condition body => condition.variables ++ variablesOfBlock body
  | .result value => value.variables

/-- The variables of statements. -/
def variablesOfBlock : List Statement → List String
  | [] => []
  | statement :: statements => statement.variables ++ variablesOfBlock statements

/-- The variables of cases. -/
def variablesOfCases : List Case → List String
  | [] => []
  | .mk value body :: cases =>
    value.elim [] Expression.variables ++ (variablesOfBlock body ++ variablesOfCases cases)

end

/-- The variables of a function. -/
def Function.variables (function : Function) : List String :=
  function.parameters.map Parameter.name ++ variablesOfBlock function.body

/-- The variables of a global. -/
def Global.variables (global : Global) : List String :=
  global.name :: global.value.elim [] Expression.variables

/-- The variables of a program. -/
def Program.variables (program : Program) : List String :=
  program.globals.flatMap Global.variables ++ program.functions.flatMap Function.variables

end TinyScript
