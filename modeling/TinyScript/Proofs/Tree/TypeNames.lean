import TinyScript.Tree

/-!
# Type names of a tree

A tree keeps the names of types as they are written: at declarations, globals, parameters and
results. `mapTypeNames` rewrites all of them and nothing else.
-/

namespace TinyScript

mutual

/-- The statement with other names of types. -/
def Statement.mapTypeNames (f : String → String) : Statement → Statement
  | .expression expression => .expression expression
  | .declaration name typeName value binding => .declaration name (typeName.map f) value binding
  | .assignment receiver value => .assignment receiver value
  | .branch condition thenBody elseBody =>
    .branch condition (mapTypeNamesOfBlock f thenBody) (mapTypeNamesOfBlock f elseBody)
  | .switch condition cases => .switch condition (mapTypeNamesOfCases f cases)
  | .loop condition body => .loop condition (mapTypeNamesOfBlock f body)
  | .result value => .result value

/-- The case with other names of types. -/
def Case.mapTypeNames (f : String → String) : Case → Case
  | .mk value body => .mk value (mapTypeNamesOfBlock f body)

/-- The statements with other names of types. -/
def mapTypeNamesOfBlock (f : String → String) : List Statement → List Statement
  | [] => []
  | statement :: statements => statement.mapTypeNames f :: mapTypeNamesOfBlock f statements

/-- The cases with other names of types. -/
def mapTypeNamesOfCases (f : String → String) : List Case → List Case
  | [] => []
  | case :: cases => case.mapTypeNames f :: mapTypeNamesOfCases f cases

end

/-- The parameter with another name of its type. -/
def Parameter.mapTypeNames (f : String → String) (parameter : Parameter) : Parameter :=
  { parameter with typeName := f parameter.typeName }

/-- The function with other names of types. -/
def Function.mapTypeNames (f : String → String) (function : Function) : Function :=
  { function with
    parameters := function.parameters.map (Parameter.mapTypeNames f)
    returnTypeName := function.returnTypeName.map f
    body := function.body.map (Statement.mapTypeNames f) }

/-- The global with another name of its type. -/
def Global.mapTypeNames (f : String → String) (global : Global) : Global :=
  { global with typeName := global.typeName.map f }

/-- The program with other names of types. -/
def Program.mapTypeNames (f : String → String) (program : Program) : Program :=
  ⟨program.globals.map (Global.mapTypeNames f), program.functions.map (Function.mapTypeNames f)⟩

variable {f : String → String}

theorem mapTypeNamesOfBlock_eq (statements : List Statement) :
    mapTypeNamesOfBlock f statements = statements.map (Statement.mapTypeNames f) := by
  induction statements with
  | nil => rfl
  | cons statement statements ih => rw [mapTypeNamesOfBlock, ih, List.map_cons]

theorem mapTypeNamesOfCases_eq (cases : List Case) :
    mapTypeNamesOfCases f cases = cases.map (Case.mapTypeNames f) := by
  induction cases with
  | nil => rfl
  | cons first cases ih => rw [mapTypeNamesOfCases, ih, List.map_cons]

theorem Statement.mapTypeNames_branch (condition : Expression)
    (thenBody elseBody : List Statement) :
    (Statement.branch condition thenBody elseBody).mapTypeNames f =
      .branch condition (thenBody.map (Statement.mapTypeNames f))
        (elseBody.map (Statement.mapTypeNames f)) := by
  rw [Statement.mapTypeNames, mapTypeNamesOfBlock_eq, mapTypeNamesOfBlock_eq]

theorem Statement.mapTypeNames_switch (condition : Expression) (cases : List Case) :
    (Statement.switch condition cases).mapTypeNames f =
      .switch condition (cases.map (Case.mapTypeNames f)) := by
  rw [Statement.mapTypeNames, mapTypeNamesOfCases_eq]

theorem Statement.mapTypeNames_loop (condition : Expression) (body : List Statement) :
    (Statement.loop condition body).mapTypeNames f =
      .loop condition (body.map (Statement.mapTypeNames f)) := by
  rw [Statement.mapTypeNames, mapTypeNamesOfBlock_eq]

theorem Case.mapTypeNames_mk (value : Option Expression) (body : List Statement) :
    (Case.mk value body).mapTypeNames f = .mk value (body.map (Statement.mapTypeNames f)) := by
  rw [Case.mapTypeNames, mapTypeNamesOfBlock_eq]

/-! ## Names that stay -/

mutual

theorem Statement.mapTypeNames_id : ∀ statement : Statement, statement.mapTypeNames id = statement
  | .expression _ => rfl
  | .declaration _ typeName _ _ => by rw [Statement.mapTypeNames, Option.map_id, id]
  | .assignment _ _ => rfl
  | .branch _ thenBody elseBody => by
      rw [Statement.mapTypeNames, mapTypeNamesOfBlock_id thenBody, mapTypeNamesOfBlock_id elseBody]
  | .switch _ cases => by rw [Statement.mapTypeNames, mapTypeNamesOfCases_id cases]
  | .loop _ body => by rw [Statement.mapTypeNames, mapTypeNamesOfBlock_id body]
  | .result _ => rfl

theorem mapTypeNamesOfBlock_id : ∀ statements : List Statement,
    mapTypeNamesOfBlock id statements = statements
  | [] => rfl
  | statement :: statements => by
      rw [mapTypeNamesOfBlock, statement.mapTypeNames_id, mapTypeNamesOfBlock_id statements]

theorem mapTypeNamesOfCases_id : ∀ cases : List Case, mapTypeNamesOfCases id cases = cases
  | [] => rfl
  | .mk value body :: cases => by
      rw [mapTypeNamesOfCases, Case.mapTypeNames, mapTypeNamesOfBlock_id body,
        mapTypeNamesOfCases_id cases]

end

theorem Function.mapTypeNames_id (function : Function) : function.mapTypeNames id = function := by
  have hparameters : Parameter.mapTypeNames id = id := rfl
  have hbody : Statement.mapTypeNames id = id := funext Statement.mapTypeNames_id
  rw [Function.mapTypeNames, hparameters, hbody, List.map_id, List.map_id, Option.map_id]
  rfl

theorem Program.mapTypeNames_id (program : Program) : program.mapTypeNames id = program := by
  have hglobals : Global.mapTypeNames id = id := by
    funext global
    rw [Global.mapTypeNames, Option.map_id]
    rfl
  have hfunctions : Function.mapTypeNames id = id := funext Function.mapTypeNames_id
  rw [Program.mapTypeNames, hglobals, hfunctions, List.map_id, List.map_id]

end TinyScript
