import TinyScript.Proofs.Tree.Leaves

/-!
# What trees are written as

The value that a tree is written as is one that the reader of texts takes back, and it does not tell
a tree from the one whose decimals are as displayed.
-/

namespace TinyScript

open Json

/-! ## Every tree is written -/

theorem written_node {kind : Json} (h : kind.Written) (ty : Option Ty) :
    (encodeNode kind ty).Written := by
  refine .record ?_
  simp [h, written_ofOption Ty.written]

theorem written_access {index : Json} (h : index.Written) (name : String)
    (binding : Option VariableBinding) : (encodeAccess name index binding).Written := by
  refine written_tagged (.record ?_)
  simp [h, Written.string, written_ofOption VariableBinding.written]

theorem written_name (name : Option String) : (encodeName name).Written :=
  written_ofOption (fun text => .string text) name

mutual

theorem Expression.written : ∀ expression : Expression, expression.toJson.Written
  | .literal value ty => written_node (written_tagged value.written) ty
  | .group inner ty => written_node (written_tagged inner.written) ty
  | .binary operator left right ty => by
      refine written_node (written_tagged (.record ?_)) ty
      simp [Written.string, left.written, right.written]
  | .access name binding ty => written_node (written_access .null name binding) ty
  | .element name index binding ty => written_node (written_access index.written name binding) ty
  | .call name arguments binding ty => by
      refine written_node (written_tagged (.record ?_)) ty
      simp [Written.string, Written.array (written_expressions arguments),
        written_ofOption Signature.written]
  | .list elements ty => written_node (written_tagged (.array (written_expressions elements))) ty

theorem written_expressions : ∀ expressions : List Expression,
    ∀ json ∈ encodeExpressions expressions, json.Written
  | [], _, hmem => absurd hmem List.not_mem_nil
  | expression :: expressions, json, hmem => by
      rcases List.mem_cons.mp hmem with rfl | hmem
      · exact expression.written
      · exact written_expressions expressions json hmem

end

theorem written_value (value : Option Expression) : (ofOption Expression.toJson value).Written :=
  written_ofOption Expression.written value

mutual

theorem Statement.written : ∀ statement : Statement, statement.toJson.Written
  | .expression expression => written_tagged expression.written
  | .declaration name typeName value binding => by
      refine written_tagged (.record ?_)
      simp [Written.string, written_name, written_value, written_ofOption VariableBinding.written]
  | .assignment receiver value => by
      refine written_tagged (.record ?_)
      simp [receiver.written, value.written]
  | .branch condition thenBody elseBody => by
      refine written_tagged (.record ?_)
      simp [condition.written, Written.array (written_statements thenBody),
        Written.array (written_statements elseBody)]
  | .switch condition cases => by
      refine written_tagged (.record ?_)
      simp [condition.written, Written.array (written_cases cases)]
  | .loop condition body => by
      refine written_tagged (.record ?_)
      simp [condition.written, Written.array (written_statements body)]
  | .result value => written_tagged value.written

theorem written_statements : ∀ statements : List Statement,
    ∀ json ∈ encodeStatements statements, json.Written
  | [], _, hmem => absurd hmem List.not_mem_nil
  | statement :: statements, json, hmem => by
      rcases List.mem_cons.mp hmem with rfl | hmem
      · exact statement.written
      · exact written_statements statements json hmem

theorem written_cases : ∀ cases : List Case, ∀ json ∈ encodeCases cases, json.Written
  | [], _, hmem => absurd hmem List.not_mem_nil
  | .mk value body :: cases, json, hmem => by
      rcases List.mem_cons.mp hmem with rfl | hmem
      · refine .record ?_
        simp [written_value, Written.array (written_statements body)]
      · exact written_cases cases json hmem

end

theorem Parameter.written (parameter : Parameter) : parameter.toJson.Written := by
  refine .record ?_
  simp [Written.string]

theorem Function.written (function : Function) : function.toJson.Written := by
  refine .record ?_
  simp [Written.string, written_ofList Parameter.written, written_name,
    Written.array (written_statements function.body), written_ofOption Signature.written]

theorem Global.written (global : Global) : global.toJson.Written := by
  refine .record ?_
  simp [Written.string, Written.bool, written_name, written_value,
    written_ofOption VariableBinding.written]

theorem Program.written (program : Program) : program.toJson.Written := by
  refine .record ?_
  simp [written_ofList Global.written, written_ofList Function.written]

/-! ## Displayed decimals are written alike -/

mutual

theorem Expression.toJson_displaying : ∀ expression : Expression,
    (expression.rewrite .displaying).toJson = expression.toJson
  | .literal value ty => by
      simp only [Expression.rewrite, Expression.toJson, Rewriting.displaying_literal,
        Literal.toJson_displayed, Rewriting.displaying_ty]
  | .group inner ty => by
      simp [Expression.rewrite, Expression.toJson, inner.toJson_displaying]
  | .binary operator left right ty => by
      simp [Expression.rewrite, Expression.toJson, left.toJson_displaying, right.toJson_displaying]
  | .access name binding ty => rfl
  | .element name index binding ty => by
      simp [Expression.rewrite, Expression.toJson, index.toJson_displaying,
        Rewriting.displaying_binding]
  | .call name arguments binding ty => by
      simp [Expression.rewrite, Expression.toJson, encodeExpressions_displaying arguments,
        Rewriting.displaying_signature]
  | .list elements ty => by
      simp [Expression.rewrite, Expression.toJson, encodeExpressions_displaying elements]

theorem encodeExpressions_displaying : ∀ expressions : List Expression,
    encodeExpressions (rewriteExpressions .displaying expressions) = encodeExpressions expressions
  | [] => rfl
  | expression :: expressions => by
      rw [rewriteExpressions, encodeExpressions, expression.toJson_displaying,
        encodeExpressions_displaying expressions]
      rfl

end

theorem encodeValue_displaying (value : Option Expression) :
    ofOption Expression.toJson (value.map (·.rewrite .displaying)) =
      ofOption Expression.toJson value := by
  cases value with
  | none => rfl
  | some value => exact value.toJson_displaying

mutual

theorem Statement.toJson_displaying : ∀ statement : Statement,
    (statement.rewrite .displaying).toJson = statement.toJson
  | .expression expression => by
      simp [Statement.rewrite, Statement.toJson, expression.toJson_displaying]
  | .declaration name typeName value binding => by
      simp [Statement.rewrite, Statement.toJson, encodeValue_displaying,
        Rewriting.displaying_binding]
  | .assignment receiver value => by
      simp [Statement.rewrite, Statement.toJson, receiver.toJson_displaying,
        value.toJson_displaying]
  | .branch condition thenBody elseBody => by
      simp [Statement.rewrite, Statement.toJson, condition.toJson_displaying,
        encodeStatements_displaying thenBody, encodeStatements_displaying elseBody]
  | .switch condition cases => by
      simp [Statement.rewrite, Statement.toJson, condition.toJson_displaying,
        encodeCases_displaying cases]
  | .loop condition body => by
      simp [Statement.rewrite, Statement.toJson, condition.toJson_displaying,
        encodeStatements_displaying body]
  | .result value => by
      simp [Statement.rewrite, Statement.toJson, value.toJson_displaying]

theorem encodeStatements_displaying : ∀ statements : List Statement,
    encodeStatements (rewriteStatements .displaying statements) = encodeStatements statements
  | [] => rfl
  | statement :: statements => by
      rw [rewriteStatements, encodeStatements, statement.toJson_displaying,
        encodeStatements_displaying statements]
      rfl

theorem encodeCases_displaying : ∀ cases : List Case,
    encodeCases (rewriteCases .displaying cases) = encodeCases cases
  | [] => rfl
  | .mk value body :: cases => by
      simp [rewriteCases, encodeCases, Case.toJson, encodeValue_displaying,
        encodeStatements_displaying body, encodeCases_displaying cases]

end

theorem Function.toJson_displaying (function : Function) :
    (function.rewrite .displaying).toJson = function.toJson := by
  simp [Function.rewrite, Function.toJson, encodeStatements_displaying,
    Rewriting.displaying_signature]

theorem Global.toJson_displaying (global : Global) :
    (global.rewrite .displaying).toJson = global.toJson := by
  simp [Global.rewrite, Global.toJson, encodeValue_displaying, Rewriting.displaying_binding]

theorem Program.toJson_displaying (program : Program) :
    (program.rewrite .displaying).toJson = program.toJson := by
  simp [Program.rewrite, Program.toJson, ofList, Function.comp_def, Function.toJson_displaying,
    Global.toJson_displaying]

end TinyScript
