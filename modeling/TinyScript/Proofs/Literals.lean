import TinyScript.Proofs.Rewriting

/-!
# The literals of a tree

A rewriting replaces each literal of a tree (`literals_rewrite`), and one that touches literals only
leaves a tree as it is if it leaves those as they are (`rewrite_ofLiteral`).
-/

namespace TinyScript

/-! ## Listing literals -/

mutual

/-- The literals of an expression, in order. -/
def Expression.literals : Expression → List Literal
  | .literal value _ => [value]
  | .group inner _ => inner.literals
  | .binary _ left right _ => left.literals ++ right.literals
  | .access _ _ _ => []
  | .element _ index _ _ => index.literals
  | .call _ arguments _ _ => literalsOf arguments
  | .list elements _ => literalsOf elements

/-- The literals of expressions, in order. -/
def literalsOf : List Expression → List Literal
  | [] => []
  | expression :: expressions => expression.literals ++ literalsOf expressions

end

mutual

/-- The literals of a statement, in order. -/
def Statement.literals : Statement → List Literal
  | .expression expression => expression.literals
  | .declaration _ _ value _ => value.elim [] Expression.literals
  | .assignment receiver value => receiver.literals ++ value.literals
  | .branch condition thenBody elseBody =>
    condition.literals ++ (literalsOfStatements thenBody ++ literalsOfStatements elseBody)
  | .switch condition cases => condition.literals ++ literalsOfCases cases
  | .loop condition body => condition.literals ++ literalsOfStatements body
  | .result value => value.literals

/-- The literals of statements, in order. -/
def literalsOfStatements : List Statement → List Literal
  | [] => []
  | statement :: statements => statement.literals ++ literalsOfStatements statements

/-- The literals of cases, in order. -/
def literalsOfCases : List Case → List Literal
  | [] => []
  | .mk value body :: cases =>
    value.elim [] Expression.literals ++ (literalsOfStatements body ++ literalsOfCases cases)

end

/-- The literals of a global. -/
def Global.literals (global : Global) : List Literal := global.value.elim [] Expression.literals

/-- The literals of a function. -/
def Function.literals (function : Function) : List Literal := literalsOfStatements function.body

/-- The literals of a program. -/
def Program.literals (program : Program) : List Literal :=
  program.globals.flatMap Global.literals ++ program.functions.flatMap Function.literals

/-! ## A rewriting replaces the literals -/

section Literals

variable {r : Rewriting}

mutual

theorem literals_rewrite_expression : ∀ expression : Expression,
    (expression.rewrite r).literals = expression.literals.map r.literal
  | .literal value ty => rfl
  | .group inner ty => literals_rewrite_expression inner
  | .binary operator left right ty => by
      simp only [Expression.rewrite, Expression.literals, List.map_append,
        literals_rewrite_expression left, literals_rewrite_expression right]
  | .access name binding ty => rfl
  | .element name index binding ty => literals_rewrite_expression index
  | .call name arguments binding ty => literals_rewrite_expressions arguments
  | .list elements ty => literals_rewrite_expressions elements

theorem literals_rewrite_expressions : ∀ expressions : List Expression,
    literalsOf (rewriteExpressions r expressions) = (literalsOf expressions).map r.literal
  | [] => rfl
  | expression :: expressions => by
      simp only [rewriteExpressions, literalsOf, List.map_append,
        literals_rewrite_expression expression, literals_rewrite_expressions expressions]

end

theorem literals_rewrite_value (value : Option Expression) :
    (value.map (·.rewrite r)).elim [] Expression.literals =
      (value.elim [] Expression.literals).map r.literal := by
  cases value with
  | none => rfl
  | some value => exact literals_rewrite_expression value

mutual

theorem literals_rewrite_statement : ∀ statement : Statement,
    (statement.rewrite r).literals = statement.literals.map r.literal
  | .expression expression => literals_rewrite_expression expression
  | .declaration name typeName value binding => literals_rewrite_value value
  | .assignment receiver value => by
      simp only [Statement.rewrite, Statement.literals, List.map_append,
        literals_rewrite_expression receiver, literals_rewrite_expression value]
  | .branch condition thenBody elseBody => by
      simp only [Statement.rewrite, Statement.literals, List.map_append,
        literals_rewrite_expression condition, literals_rewrite_statements thenBody,
        literals_rewrite_statements elseBody]
  | .switch condition cases => by
      simp only [Statement.rewrite, Statement.literals, List.map_append,
        literals_rewrite_expression condition, literals_rewrite_cases cases]
  | .loop condition body => by
      simp only [Statement.rewrite, Statement.literals, List.map_append,
        literals_rewrite_expression condition, literals_rewrite_statements body]
  | .result value => literals_rewrite_expression value

theorem literals_rewrite_statements : ∀ statements : List Statement,
    literalsOfStatements (rewriteStatements r statements) =
      (literalsOfStatements statements).map r.literal
  | [] => rfl
  | statement :: statements => by
      simp only [rewriteStatements, literalsOfStatements, List.map_append,
        literals_rewrite_statement statement, literals_rewrite_statements statements]

theorem literals_rewrite_cases : ∀ cases : List Case,
    literalsOfCases (rewriteCases r cases) = (literalsOfCases cases).map r.literal
  | [] => rfl
  | .mk value body :: cases => by
      simp only [rewriteCases, literalsOfCases, List.map_append, literals_rewrite_value value,
        literals_rewrite_statements body, literals_rewrite_cases cases]

end

theorem literals_rewrite (program : Program) :
    (program.rewrite r).literals = program.literals.map r.literal := by
  have hglobal : ∀ global : Global, (global.rewrite r).literals = global.literals.map r.literal :=
    fun global => literals_rewrite_value global.value
  have hfunction : ∀ function : Function,
      (function.rewrite r).literals = function.literals.map r.literal :=
    fun function => literals_rewrite_statements function.body
  simp only [Program.rewrite, Program.literals, List.flatMap_map, List.map_append, List.map_flatMap,
    hglobal, hfunction]

end Literals

/-! ## A rewriting of no literal changes nothing -/

section Unchanged

variable {f : Literal → Literal}

mutual

theorem rewrite_ofLiteral_expression : ∀ expression : Expression,
    (∀ literal ∈ expression.literals, f literal = literal) →
      expression.rewrite (.ofLiteral f) = expression
  | .literal value ty, h => congrArg (Expression.literal · ty) (h value List.mem_cons_self)
  | .group inner ty, h => congrArg (Expression.group · ty) (rewrite_ofLiteral_expression inner h)
  | .binary operator left right ty, h => by
      obtain ⟨hleft, hright⟩ := List.forall_mem_append.mp h
      rw [Expression.rewrite, rewrite_ofLiteral_expression left hleft,
        rewrite_ofLiteral_expression right hright]
      rfl
  | .access name binding ty, h => rfl
  | .element name index binding ty, h => by
      rw [Expression.rewrite, rewrite_ofLiteral_expression index h]
      rfl
  | .call name arguments binding ty, h => by
      rw [Expression.rewrite, rewrite_ofLiteral_expressions arguments h]
      rfl
  | .list elements ty, h => by
      rw [Expression.rewrite, rewrite_ofLiteral_expressions elements h]
      rfl

theorem rewrite_ofLiteral_expressions : ∀ expressions : List Expression,
    (∀ literal ∈ literalsOf expressions, f literal = literal) →
      rewriteExpressions (.ofLiteral f) expressions = expressions
  | [], h => rfl
  | expression :: expressions, h => by
      obtain ⟨hfirst, hrest⟩ := List.forall_mem_append.mp h
      rw [rewriteExpressions, rewrite_ofLiteral_expression expression hfirst,
        rewrite_ofLiteral_expressions expressions hrest]

end

theorem rewrite_ofLiteral_value (value : Option Expression)
    (h : ∀ literal ∈ value.elim [] Expression.literals, f literal = literal) :
    value.map (·.rewrite (.ofLiteral f)) = value := by
  cases value with
  | none => rfl
  | some value => exact congrArg some (rewrite_ofLiteral_expression value h)

mutual

theorem rewrite_ofLiteral_statement : ∀ statement : Statement,
    (∀ literal ∈ statement.literals, f literal = literal) →
      statement.rewrite (.ofLiteral f) = statement
  | .expression expression, h =>
      congrArg Statement.expression (rewrite_ofLiteral_expression expression h)
  | .declaration name typeName value binding, h => by
      rw [Statement.rewrite, rewrite_ofLiteral_value value h]
      rfl
  | .assignment receiver value, h => by
      obtain ⟨hreceiver, hvalue⟩ := List.forall_mem_append.mp h
      rw [Statement.rewrite, rewrite_ofLiteral_expression receiver hreceiver,
        rewrite_ofLiteral_expression value hvalue]
  | .branch condition thenBody elseBody, h => by
      obtain ⟨hcondition, hbodies⟩ := List.forall_mem_append.mp h
      obtain ⟨hthen, helse⟩ := List.forall_mem_append.mp hbodies
      rw [Statement.rewrite, rewrite_ofLiteral_expression condition hcondition,
        rewrite_ofLiteral_statements thenBody hthen, rewrite_ofLiteral_statements elseBody helse]
  | .switch condition cases, h => by
      obtain ⟨hcondition, hcases⟩ := List.forall_mem_append.mp h
      rw [Statement.rewrite, rewrite_ofLiteral_expression condition hcondition,
        rewrite_ofLiteral_cases cases hcases]
  | .loop condition body, h => by
      obtain ⟨hcondition, hbody⟩ := List.forall_mem_append.mp h
      rw [Statement.rewrite, rewrite_ofLiteral_expression condition hcondition,
        rewrite_ofLiteral_statements body hbody]
  | .result value, h => congrArg Statement.result (rewrite_ofLiteral_expression value h)

theorem rewrite_ofLiteral_statements : ∀ statements : List Statement,
    (∀ literal ∈ literalsOfStatements statements, f literal = literal) →
      rewriteStatements (.ofLiteral f) statements = statements
  | [], h => rfl
  | statement :: statements, h => by
      obtain ⟨hfirst, hrest⟩ := List.forall_mem_append.mp h
      rw [rewriteStatements, rewrite_ofLiteral_statement statement hfirst,
        rewrite_ofLiteral_statements statements hrest]

theorem rewrite_ofLiteral_cases : ∀ cases : List Case,
    (∀ literal ∈ literalsOfCases cases, f literal = literal) →
      rewriteCases (.ofLiteral f) cases = cases
  | [], h => rfl
  | .mk value body :: cases, h => by
      obtain ⟨hvalue, hothers⟩ := List.forall_mem_append.mp h
      obtain ⟨hbody, hcases⟩ := List.forall_mem_append.mp hothers
      rw [rewriteCases, rewrite_ofLiteral_value value hvalue,
        rewrite_ofLiteral_statements body hbody, rewrite_ofLiteral_cases cases hcases]

end

theorem rewrite_ofLiteral (program : Program)
    (h : ∀ literal ∈ program.literals, f literal = literal) :
    program.rewrite (.ofLiteral f) = program := by
  obtain ⟨hglobals, hfunctions⟩ := List.forall_mem_append.mp h
  have hglobal : ∀ global ∈ program.globals, global.rewrite (.ofLiteral f) = id global := by
    intro global hmem
    rw [Global.rewrite, rewrite_ofLiteral_value global.value fun literal hliteral =>
      hglobals literal (List.mem_flatMap.mpr ⟨global, hmem, hliteral⟩)]
    rfl
  have hfunction : ∀ function ∈ program.functions,
      function.rewrite (.ofLiteral f) = id function := by
    intro function hmem
    rw [Function.rewrite, rewrite_ofLiteral_statements function.body fun literal hliteral =>
      hfunctions literal (List.mem_flatMap.mpr ⟨function, hmem, hliteral⟩)]
    rfl
  rw [Program.rewrite, List.map_congr_left hglobal, List.map_congr_left hfunction, List.map_id,
    List.map_id]

end Unchanged

end TinyScript
