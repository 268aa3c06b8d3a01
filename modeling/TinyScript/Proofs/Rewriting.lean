import TinyScript.Tree

/-!
# Trees of one shape

A `Rewriting` replaces what stands at the leaves of a tree, its literals and annotations, and keeps
everything else. Two kinds matter: the one that empties all annotations (`erasing`), and those that
only touch literals (`ofLiteral`).
-/

namespace TinyScript

/-- What takes the place of the literals and annotations of a tree. -/
structure Rewriting where
  literal : Literal → Literal
  ty : Option Ty → Option Ty
  binding : Option VariableBinding → Option VariableBinding
  signature : Option Signature → Option Signature

namespace Rewriting

/-- Empties the annotations. -/
def erasing : Rewriting := ⟨id, fun _ => none, fun _ => none, fun _ => none⟩

/-- Replaces the literals only. -/
def ofLiteral (literal : Literal → Literal) : Rewriting := ⟨literal, id, id, id⟩

end Rewriting

/-! ## Rewriting trees -/

mutual

/-- The expression with other leaves. -/
def Expression.rewrite (r : Rewriting) : Expression → Expression
  | .literal value ty => .literal (r.literal value) (r.ty ty)
  | .group inner ty => .group (inner.rewrite r) (r.ty ty)
  | .binary operator left right ty =>
    .binary operator (left.rewrite r) (right.rewrite r) (r.ty ty)
  | .access name binding ty => .access name (r.binding binding) (r.ty ty)
  | .element name index binding ty =>
    .element name (index.rewrite r) (r.binding binding) (r.ty ty)
  | .call name arguments binding ty =>
    .call name (rewriteExpressions r arguments) (r.signature binding) (r.ty ty)
  | .list elements ty => .list (rewriteExpressions r elements) (r.ty ty)

/-- The expressions with other leaves. -/
def rewriteExpressions (r : Rewriting) : List Expression → List Expression
  | [] => []
  | expression :: expressions => expression.rewrite r :: rewriteExpressions r expressions

end

mutual

/-- The statement with other leaves. -/
def Statement.rewrite (r : Rewriting) : Statement → Statement
  | .expression expression => .expression (expression.rewrite r)
  | .declaration name typeName value binding =>
    .declaration name typeName (value.map (·.rewrite r)) (r.binding binding)
  | .assignment receiver value => .assignment (receiver.rewrite r) (value.rewrite r)
  | .branch condition thenBody elseBody =>
    .branch (condition.rewrite r) (rewriteStatements r thenBody) (rewriteStatements r elseBody)
  | .switch condition cases => .switch (condition.rewrite r) (rewriteCases r cases)
  | .loop condition body => .loop (condition.rewrite r) (rewriteStatements r body)
  | .result value => .result (value.rewrite r)

/-- The statements with other leaves. -/
def rewriteStatements (r : Rewriting) : List Statement → List Statement
  | [] => []
  | statement :: statements => statement.rewrite r :: rewriteStatements r statements

/-- The cases with other leaves. -/
def rewriteCases (r : Rewriting) : List Case → List Case
  | [] => []
  | .mk value body :: cases =>
    .mk (value.map (·.rewrite r)) (rewriteStatements r body) :: rewriteCases r cases

end

/-- The global with other leaves. -/
def Global.rewrite (r : Rewriting) (global : Global) : Global :=
  { global with
    value := global.value.map (·.rewrite r)
    binding := r.binding global.binding }

/-- The function with other leaves. -/
def Function.rewrite (r : Rewriting) (function : Function) : Function :=
  { function with
    body := rewriteStatements r function.body
    signature := r.signature function.signature }

/-- The program with other leaves. -/
def Program.rewrite (r : Rewriting) (program : Program) : Program :=
  ⟨program.globals.map (Global.rewrite r), program.functions.map (Function.rewrite r)⟩

end TinyScript
