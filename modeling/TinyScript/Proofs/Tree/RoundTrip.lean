import TinyScript.Proofs.Tree.Leaves

/-!
# Trees are read back

Every part of a tree that is written is read back, with its decimals as they are displayed, within
any limit that the written value keeps to. The proofs follow the syntax: an object that is entered
leaves one step less of the limit to its members.
-/

namespace TinyScript

open Json

/-! ## Expressions -/

section Expressions

variable {limit : Nat}

/-- A node leaves two steps less to what its kind holds. -/
theorem nesting_node {tag : String} {content : Json} {ty : Option Ty}
    (h : (encodeNode (tagged tag content) ty).nesting ≤ limit) :
    ∃ inner, limit = inner + 2 ∧ content.nesting ≤ inner := by
  obtain ⟨middle, rfl, hmembers⟩ := nesting_record h
  obtain ⟨inner, rfl, hcontent⟩ := nesting_tagged (hmembers ("kind", _) List.mem_cons_self)
  exact ⟨inner, rfl, hcontent⟩

theorem fields?_node (kind : Json) (ty : Option Ty) :
    (encodeNode kind ty).fields? ["kind", "ty"] = some [some kind, some (ofOption Ty.toJson ty)] :=
  fields?_record rfl (by simp)

/-- What the kind of a node holds is read with lower limits by the same reader. -/
theorem Expression.ofJson?_node (limit : Nat) :
    ∃ read : Nat → Json → Option Expression,
      (∀ inner ≤ limit, read inner = Expression.ofJson? inner) ∧
        ∀ tag content ty, Expression.ofJson? (limit + 2) (encodeNode (tagged tag content) ty) =
          decodeKind read limit tag content ty := by
  -- The recursion of the reader is on the limit, and unfolding it leaves the test that it falls.
  refine ⟨fun inner json => if inner < limit + 2 then Expression.ofJson? inner json else none,
    fun inner hle => funext fun json => if_pos (by omega), fun tag content ty => ?_⟩
  rw [Expression.ofJson?, decodeNode]
  simp only [entering, fields?_node, optionalTy_ofOption, choice?_tagged, Option.bind_eq_bind,
    Option.bind_some]

/-! ### Objects

The object of each shape is read where its members are. -/

theorem decodeBinary_record {read : Nat → Json → Option Expression} {left right : Json}
    {left' right' : Expression} (operator : Operator) (ty : Option Ty)
    (hleft : read limit left = some left') (hright : read limit right = some right') :
    decodeBinary read (limit + 1)
        (record [("operator", .ofString operator.name), ("left", left), ("right", right)]) ty =
      some (.binary operator left' right' ty) := by
  have hfields : (record [("operator", .ofString operator.name), ("left", left),
      ("right", right)]).fields? ["operator", "left", "right"] = some _ :=
    fields?_record rfl (by simp)
  simp only [decodeBinary, entering, hfields]
  simp [decodeUnit_ofString, Operator.ofName?_name, hleft, hright]

theorem decodeAccess_record {read : Nat → Json → Option Expression} {index binding : Json}
    {index' : Option Expression} {binding' : Option VariableBinding} (name : String)
    (ty : Option Ty) (hindex : optional? (read limit) (some index) = some index')
    (hbinding : optional? (VariableBinding.ofJson? limit) (some binding) = some binding') :
    decodeAccess read (limit + 1)
        (record [("name", .ofString name), ("index", index), ("binding", binding)]) ty =
      some (index'.elim (.access name binding' ty) (.element name · binding' ty)) := by
  have hfields : (record [("name", .ofString name), ("index", index),
      ("binding", binding)]).fields? ["name", "index", "binding"] = some _ :=
    fields?_record rfl (by simp)
  simp only [decodeAccess, entering, hfields]
  cases index' <;> simp [hindex, hbinding]

theorem decodeCall_record {read : Nat → Json → Option Expression} {arguments binding : Json}
    {arguments' : List Expression} {binding' : Option Signature} (name : String) (ty : Option Ty)
    (harguments : decodeList limit read arguments = some arguments')
    (hbinding : optional? (Signature.ofJson? limit) (some binding) = some binding') :
    decodeCall read (limit + 1)
        (record [("name", .ofString name), ("arguments", arguments), ("binding", binding)]) ty =
      some (.call name arguments' binding' ty) := by
  have hfields : (record [("name", .ofString name), ("arguments", arguments),
      ("binding", binding)]).fields? ["name", "arguments", "binding"] = some _ :=
    fields?_record rfl (by simp)
  simp only [decodeCall, entering, hfields]
  simp [harguments, hbinding]

/-! ### Optional parts -/

theorem Expression.toJson_ne_null (expression : Expression) : expression.toJson ≠ .null := by
  cases expression <;> nofun

theorem optionalBinding_ofOption {binding : Option VariableBinding}
    (h : (ofOption VariableBinding.toJson binding).nesting ≤ limit) :
    optional? (VariableBinding.ofJson? limit) (some (ofOption VariableBinding.toJson binding)) =
      some binding := by
  refine optional?_ofOption_self (fun _ => nofun) fun known hknown => ?_
  cases hknown
  exact VariableBinding.ofJson?_toJson h

theorem optionalSignature_ofOption {signature : Option Signature}
    (h : (ofOption Signature.toJson signature).nesting ≤ limit) :
    optional? (Signature.ofJson? limit) (some (ofOption Signature.toJson signature)) =
      some signature := by
  refine optional?_ofOption_self (fun _ => nofun) fun known hknown => ?_
  cases hknown
  exact Signature.ofJson?_toJson h

end Expressions

mutual

theorem Expression.ofJson?_toJson : ∀ (expression : Expression) {limit : Nat},
    (∀ literal ∈ expression.literals, literal.IsWritable) → expression.toJson.nesting ≤ limit →
      Expression.ofJson? limit expression.toJson = some (expression.rewrite .displaying)
  | .literal value ty, limit, hwritable, h => by
      obtain ⟨limit, rfl, hcontent⟩ := nesting_node h
      obtain ⟨read, -, hnode⟩ := Expression.ofJson?_node limit
      have hvalue := Literal.ofJson?_toJson (hwritable value List.mem_cons_self) hcontent
      rw [Expression.toJson, hnode]
      simp only [decodeKind, hvalue]
      rfl
  | .group inner ty, limit, hwritable, h => by
      obtain ⟨limit, rfl, hcontent⟩ := nesting_node h
      obtain ⟨read, hread, hnode⟩ := Expression.ofJson?_node limit
      have hinner := Expression.ofJson?_toJson inner hwritable hcontent
      rw [Expression.toJson, hnode]
      simp only [decodeKind, hread limit (Nat.le_refl _), hinner]
      rfl
  | .binary operator left right ty, limit, hwritable, h => by
      obtain ⟨middle, rfl, hcontent⟩ := nesting_node h
      obtain ⟨read, hread, hnode⟩ := Expression.ofJson?_node middle
      obtain ⟨limit, rfl, hmembers⟩ := nesting_record hcontent
      obtain ⟨hleftWritable, hrightWritable⟩ := List.forall_mem_append.mp hwritable
      have hleft := Expression.ofJson?_toJson left hleftWritable
        (hmembers ("left", left.toJson) (by simp))
      have hright := Expression.ofJson?_toJson right hrightWritable
        (hmembers ("right", right.toJson) (by simp))
      rw [← hread limit (Nat.le_succ _)] at hleft hright
      rw [Expression.toJson, hnode]
      exact decodeBinary_record operator ty hleft hright
  | .access name binding ty, limit, hwritable, h => by
      obtain ⟨middle, rfl, hcontent⟩ := nesting_node h
      obtain ⟨read, -, hnode⟩ := Expression.ofJson?_node middle
      obtain ⟨limit, rfl, hmembers⟩ := nesting_record hcontent
      have hbinding := optionalBinding_ofOption
        (hmembers ("binding", ofOption VariableBinding.toJson binding) (by simp))
      rw [Expression.toJson, encodeAccess, hnode]
      exact decodeAccess_record name ty (optional?_null _) hbinding
  | .element name index binding ty, limit, hwritable, h => by
      obtain ⟨middle, rfl, hcontent⟩ := nesting_node h
      obtain ⟨read, hread, hnode⟩ := Expression.ofJson?_node middle
      obtain ⟨limit, rfl, hmembers⟩ := nesting_record hcontent
      have hindex := Expression.ofJson?_toJson index hwritable
        (hmembers ("index", index.toJson) (by simp))
      have hpresent : optional? (read limit) (some index.toJson) =
          some (some (index.rewrite .displaying)) := by
        rw [optional?_of_ne_null index.toJson_ne_null, hread limit (Nat.le_succ _), hindex,
          Option.map_some]
      have hbinding := optionalBinding_ofOption
        (hmembers ("binding", ofOption VariableBinding.toJson binding) (by simp))
      rw [Expression.toJson, encodeAccess, hnode]
      exact decodeAccess_record name ty hpresent hbinding
  | .call name arguments binding ty, limit, hwritable, h => by
      obtain ⟨middle, rfl, hcontent⟩ := nesting_node h
      obtain ⟨read, hread, hnode⟩ := Expression.ofJson?_node middle
      obtain ⟨limit, rfl, hmembers⟩ := nesting_record hcontent
      have harguments : decodeList limit read (array (encodeExpressions arguments)) = some _ :=
        decodeList_array_congr hread (Nat.le_succ _)
          (hmembers ("arguments", array (encodeExpressions arguments)) (by simp))
          fun _ => mapM_encodeExpressions arguments hwritable
      have hbinding := optionalSignature_ofOption
        (hmembers ("binding", ofOption Signature.toJson binding) (by simp))
      rw [Expression.toJson, hnode]
      exact decodeCall_record name ty harguments hbinding
  | .list elements ty, limit, hwritable, h => by
      obtain ⟨limit, rfl, hcontent⟩ := nesting_node h
      obtain ⟨read, hread, hnode⟩ := Expression.ofJson?_node limit
      have helements : decodeList limit read (array (encodeExpressions elements)) = some _ :=
        decodeList_array_congr hread (Nat.le_refl _) hcontent fun _ =>
          mapM_encodeExpressions elements hwritable
      rw [Expression.toJson, hnode]
      simp [decodeKind, helements, Expression.rewrite]

theorem mapM_encodeExpressions : ∀ (expressions : List Expression) {limit : Nat},
    (∀ literal ∈ literalsOf expressions, literal.IsWritable) →
      (∀ json ∈ encodeExpressions expressions, json.nesting ≤ limit) →
        (encodeExpressions expressions).mapM (Expression.ofJson? limit) =
          some (rewriteExpressions .displaying expressions)
  | [], limit, hwritable, h => rfl
  | expression :: expressions, limit, hwritable, h => by
      obtain ⟨hfirst, hrest⟩ := List.forall_mem_append.mp hwritable
      obtain ⟨hnesting, hothers⟩ := List.forall_mem_cons.mp h
      rw [encodeExpressions, List.mapM_cons, Expression.ofJson?_toJson expression hfirst hnesting,
        mapM_encodeExpressions expressions hrest hothers]
      rfl

end

/-! ## Statements -/

section Statements

variable {limit : Nat}

theorem optionalExpression_ofOption {value : Option Expression}
    (hwritable : ∀ literal ∈ value.elim [] Expression.literals, literal.IsWritable)
    (h : (ofOption Expression.toJson value).nesting ≤ limit) :
    optional? (Expression.ofJson? limit) (some (ofOption Expression.toJson value)) =
      some (value.map (·.rewrite .displaying)) := by
  refine optional?_ofOption Expression.toJson_ne_null fun expression hexpression => ?_
  cases hexpression
  exact Expression.ofJson?_toJson expression hwritable h

theorem decodeName_encodeName (name : Option String) :
    decodeName (some (encodeName name)) = some name :=
  optional?_ofOption_self (fun _ => nofun) fun text _ => string?_ofString text

/-- What a statement holds is read with lower limits by the same reader. -/
theorem Statement.ofJson?_tagged (limit : Nat) :
    ∃ read : Nat → Json → Option Statement,
      (∀ inner ≤ limit, read inner = Statement.ofJson? inner) ∧
        ∀ tag content, Statement.ofJson? (limit + 1) (tagged tag content) =
          decodeStatementKind read limit tag content := by
  refine ⟨fun inner json => if inner < limit + 1 then Statement.ofJson? inner json else none,
    fun inner hle => funext fun json => if_pos (by omega), fun tag content => ?_⟩
  rw [Statement.ofJson?, decodeStatement]
  simp only [entering, choice?_tagged, Option.bind_eq_bind, Option.bind_some]

/-! ### Objects -/

theorem decodeDeclaration_record {value binding : Json} {value' : Option Expression}
    {binding' : Option VariableBinding} (name : String) (typeName : Option String)
    (hvalue : optional? (Expression.ofJson? limit) (some value) = some value')
    (hbinding : optional? (VariableBinding.ofJson? limit) (some binding) = some binding') :
    decodeDeclaration (limit + 1)
        (record [("name", .ofString name), ("type_name", encodeName typeName), ("value", value),
          ("binding", binding)]) =
      some (.declaration name typeName value' binding') := by
  have hfields : (record [("name", .ofString name), ("type_name", encodeName typeName),
      ("value", value), ("binding", binding)]).fields?
        ["name", "type_name", "value", "binding"] = some _ :=
    fields?_record rfl (by simp)
  simp only [decodeDeclaration, entering, hfields]
  simp [decodeName_encodeName, hvalue, hbinding]

theorem decodeAssignment_record {receiver value : Json} {receiver' value' : Expression}
    (hreceiver : Expression.ofJson? limit receiver = some receiver')
    (hvalue : Expression.ofJson? limit value = some value') :
    decodeAssignment (limit + 1) (record [("receiver", receiver), ("value", value)]) =
      some (.assignment receiver' value') := by
  have hfields : (record [("receiver", receiver), ("value", value)]).fields?
      ["receiver", "value"] = some _ :=
    fields?_record rfl (by simp)
  simp only [decodeAssignment, entering, hfields]
  simp [hreceiver, hvalue]

section Blocks

variable {read : Nat → Json → Option Statement} {condition body : Json} {condition' : Expression}
  {body' : List Statement}

theorem decodeBranch_record {elseBody : Json} {elseBody' : List Statement}
    (hcondition : Expression.ofJson? limit condition = some condition')
    (hthen : decodeList limit read body = some body')
    (helse : decodeList limit read elseBody = some elseBody') :
    decodeBranch read (limit + 1)
        (record [("condition", condition), ("then_body", body), ("else_body", elseBody)]) =
      some (.branch condition' body' elseBody') := by
  have hfields : (record [("condition", condition), ("then_body", body),
      ("else_body", elseBody)]).fields? ["condition", "then_body", "else_body"] = some _ :=
    fields?_record rfl (by simp)
  simp only [decodeBranch, entering, hfields]
  simp [hcondition, hthen, helse]

theorem decodeCase_record {value : Json} {value' : Option Expression}
    (hvalue : optional? (Expression.ofJson? limit) (some value) = some value')
    (hbody : decodeList limit read body = some body') :
    decodeCase read (limit + 1) (record [("value", value), ("body", body)]) =
      some (.mk value' body') := by
  have hfields : (record [("value", value), ("body", body)]).fields? ["value", "body"] = some _ :=
    fields?_record rfl (by simp)
  simp only [decodeCase, entering, hfields]
  simp [hvalue, hbody]

theorem decodeSwitch_record {cases : Json} {cases' : List Case}
    (hcondition : Expression.ofJson? limit condition = some condition')
    (hcases : decodeList limit (decodeCase read) cases = some cases') :
    decodeSwitch read (limit + 1) (record [("condition", condition), ("cases", cases)]) =
      some (.switch condition' cases') := by
  have hfields : (record [("condition", condition), ("cases", cases)]).fields?
      ["condition", "cases"] = some _ :=
    fields?_record rfl (by simp)
  simp only [decodeSwitch, entering, hfields]
  simp [hcondition, hcases]

theorem decodeLoop_record (hcondition : Expression.ofJson? limit condition = some condition')
    (hbody : decodeList limit read body = some body') :
    decodeLoop read (limit + 1) (record [("condition", condition), ("body", body)]) =
      some (.loop condition' body') := by
  have hfields : (record [("condition", condition), ("body", body)]).fields?
      ["condition", "body"] = some _ :=
    fields?_record rfl (by simp)
  simp only [decodeLoop, entering, hfields]
  simp [hcondition, hbody]

end Blocks

end Statements

mutual

theorem Statement.ofJson?_toJson : ∀ (statement : Statement) {limit : Nat},
    (∀ literal ∈ statement.literals, literal.IsWritable) → statement.toJson.nesting ≤ limit →
      Statement.ofJson? limit statement.toJson = some (statement.rewrite .displaying)
  | .expression expression, limit, hwritable, h => by
      obtain ⟨limit, rfl, hcontent⟩ := nesting_tagged h
      obtain ⟨read, -, hstatement⟩ := Statement.ofJson?_tagged limit
      have hexpression := Expression.ofJson?_toJson expression hwritable hcontent
      rw [Statement.toJson, hstatement]
      simp [decodeStatementKind, hexpression, Statement.rewrite]
  | .declaration name typeName value binding, limit, hwritable, h => by
      obtain ⟨middle, rfl, hcontent⟩ := nesting_tagged h
      obtain ⟨read, -, hstatement⟩ := Statement.ofJson?_tagged middle
      obtain ⟨limit, rfl, hmembers⟩ := nesting_record hcontent
      have hvalue := optionalExpression_ofOption hwritable
        (hmembers ("value", ofOption Expression.toJson value) (by simp))
      have hbinding := optionalBinding_ofOption
        (hmembers ("binding", ofOption VariableBinding.toJson binding) (by simp))
      rw [Statement.toJson, hstatement]
      exact decodeDeclaration_record name typeName hvalue hbinding
  | .assignment receiver value, limit, hwritable, h => by
      obtain ⟨middle, rfl, hcontent⟩ := nesting_tagged h
      obtain ⟨read, -, hstatement⟩ := Statement.ofJson?_tagged middle
      obtain ⟨limit, rfl, hmembers⟩ := nesting_record hcontent
      obtain ⟨hreceiverWritable, hvalueWritable⟩ := List.forall_mem_append.mp hwritable
      have hreceiver := Expression.ofJson?_toJson receiver hreceiverWritable
        (hmembers ("receiver", receiver.toJson) (by simp))
      have hvalue := Expression.ofJson?_toJson value hvalueWritable
        (hmembers ("value", value.toJson) (by simp))
      rw [Statement.toJson, hstatement]
      exact decodeAssignment_record hreceiver hvalue
  | .branch condition thenBody elseBody, limit, hwritable, h => by
      obtain ⟨middle, rfl, hcontent⟩ := nesting_tagged h
      obtain ⟨read, hread, hstatement⟩ := Statement.ofJson?_tagged middle
      obtain ⟨limit, rfl, hmembers⟩ := nesting_record hcontent
      obtain ⟨hconditionWritable, hbodies⟩ := List.forall_mem_append.mp hwritable
      obtain ⟨hthenWritable, helseWritable⟩ := List.forall_mem_append.mp hbodies
      have hcondition := Expression.ofJson?_toJson condition hconditionWritable
        (hmembers ("condition", condition.toJson) (by simp))
      have hthen : decodeList limit read (array (encodeStatements thenBody)) = some _ :=
        decodeList_array_congr hread (Nat.le_succ _)
          (hmembers ("then_body", array (encodeStatements thenBody)) (by simp))
          fun _ => mapM_encodeStatements thenBody hthenWritable
      have helse : decodeList limit read (array (encodeStatements elseBody)) = some _ :=
        decodeList_array_congr hread (Nat.le_succ _)
          (hmembers ("else_body", array (encodeStatements elseBody)) (by simp))
          fun _ => mapM_encodeStatements elseBody helseWritable
      rw [Statement.toJson, hstatement]
      exact decodeBranch_record hcondition hthen helse
  | .switch condition cases, limit, hwritable, h => by
      obtain ⟨middle, rfl, hcontent⟩ := nesting_tagged h
      obtain ⟨read, hread, hstatement⟩ := Statement.ofJson?_tagged middle
      obtain ⟨limit, rfl, hmembers⟩ := nesting_record hcontent
      obtain ⟨hconditionWritable, hcasesWritable⟩ := List.forall_mem_append.mp hwritable
      have hcondition := Expression.ofJson?_toJson condition hconditionWritable
        (hmembers ("condition", condition.toJson) (by simp))
      have hcases : decodeList limit (decodeCase read) (array (encodeCases cases)) = some _ :=
        decodeList_array (hmembers ("cases", array (encodeCases cases)) (by simp))
          fun inner hinner hitems => mapM_encodeCases cases
            (fun lower hlower => hread lower (by omega)) hcasesWritable hitems
      rw [Statement.toJson, hstatement]
      exact decodeSwitch_record hcondition hcases
  | .loop condition body, limit, hwritable, h => by
      obtain ⟨middle, rfl, hcontent⟩ := nesting_tagged h
      obtain ⟨read, hread, hstatement⟩ := Statement.ofJson?_tagged middle
      obtain ⟨limit, rfl, hmembers⟩ := nesting_record hcontent
      obtain ⟨hconditionWritable, hbodyWritable⟩ := List.forall_mem_append.mp hwritable
      have hcondition := Expression.ofJson?_toJson condition hconditionWritable
        (hmembers ("condition", condition.toJson) (by simp))
      have hbody : decodeList limit read (array (encodeStatements body)) = some _ :=
        decodeList_array_congr hread (Nat.le_succ _)
          (hmembers ("body", array (encodeStatements body)) (by simp))
          fun _ => mapM_encodeStatements body hbodyWritable
      rw [Statement.toJson, hstatement]
      exact decodeLoop_record hcondition hbody
  | .result value, limit, hwritable, h => by
      obtain ⟨limit, rfl, hcontent⟩ := nesting_tagged h
      obtain ⟨read, -, hstatement⟩ := Statement.ofJson?_tagged limit
      have hvalue := Expression.ofJson?_toJson value hwritable hcontent
      rw [Statement.toJson, hstatement]
      simp [decodeStatementKind, hvalue, Statement.rewrite]

theorem mapM_encodeStatements : ∀ (statements : List Statement) {limit : Nat},
    (∀ literal ∈ literalsOfStatements statements, literal.IsWritable) →
      (∀ json ∈ encodeStatements statements, json.nesting ≤ limit) →
        (encodeStatements statements).mapM (Statement.ofJson? limit) =
          some (rewriteStatements .displaying statements)
  | [], limit, hwritable, h => rfl
  | statement :: statements, limit, hwritable, h => by
      obtain ⟨hfirst, hrest⟩ := List.forall_mem_append.mp hwritable
      obtain ⟨hnesting, hothers⟩ := List.forall_mem_cons.mp h
      rw [encodeStatements, List.mapM_cons, Statement.ofJson?_toJson statement hfirst hnesting,
        mapM_encodeStatements statements hrest hothers]
      rfl

/-- Cases are read where the statements in them are. -/
theorem mapM_encodeCases : ∀ (cases : List Case) {limit : Nat}
    {read : Nat → Json → Option Statement},
    (∀ inner < limit, read inner = Statement.ofJson? inner) →
      (∀ literal ∈ literalsOfCases cases, literal.IsWritable) →
        (∀ json ∈ encodeCases cases, json.nesting ≤ limit) →
          (encodeCases cases).mapM (decodeCase read limit) =
            some (rewriteCases .displaying cases)
  | [], limit, read, hread, hwritable, h => rfl
  | .mk value body :: cases, limit, read, hread, hwritable, h => by
      obtain ⟨hvalueWritable, hothers⟩ := List.forall_mem_append.mp hwritable
      obtain ⟨hbodyWritable, hcasesWritable⟩ := List.forall_mem_append.mp hothers
      obtain ⟨hnesting, hrest⟩ := List.forall_mem_cons.mp h
      have hcases := mapM_encodeCases cases hread hcasesWritable hrest
      -- The cases behind keep the whole limit; this one is an object and leaves less.
      obtain ⟨limit, rfl, hmembers⟩ := nesting_record hnesting
      have hvalue := optionalExpression_ofOption hvalueWritable
        (hmembers ("value", ofOption Expression.toJson value) (by simp))
      have hbody : decodeList limit read (array (encodeStatements body)) = some _ :=
        decodeList_array_congr (fun inner hinner => hread inner (Nat.lt_succ_of_le hinner))
          (Nat.le_refl _) (hmembers ("body", array (encodeStatements body)) (by simp))
          fun _ => mapM_encodeStatements body hbodyWritable
      have hcase : decodeCase read (limit + 1) (Case.mk value body).toJson = some _ :=
        decodeCase_record hvalue hbody
      rw [encodeCases, List.mapM_cons, hcase, hcases]
      rfl

end

/-! ## Programs -/

section Programs

variable {limit : Nat}

theorem Parameter.ofJson?_toJson {parameter : Parameter} (h : parameter.toJson.nesting ≤ limit) :
    Parameter.ofJson? limit parameter.toJson = some parameter := by
  obtain ⟨limit, rfl, -⟩ := nesting_record h
  have hfields : parameter.toJson.fields? ["name", "type_name"] = some _ :=
    fields?_record rfl (by simp)
  unfold Parameter.ofJson?
  simp only [entering, hfields]
  simp

theorem Function.ofJson?_toJson {function : Function}
    (hwritable : ∀ literal ∈ function.literals, literal.IsWritable)
    (h : function.toJson.nesting ≤ limit) :
    Function.ofJson? limit function.toJson = some (function.rewrite .displaying) := by
  obtain ⟨limit, rfl, hmembers⟩ := nesting_record h
  have hparameters : decodeList limit Parameter.ofJson?
      (ofList Parameter.toJson function.parameters) = some function.parameters :=
    decodeList_ofList_self
      (hmembers ("parameters", ofList Parameter.toJson function.parameters) (by simp))
      fun parameter _ inner hinner => Parameter.ofJson?_toJson hinner
  have hbody : decodeList limit Statement.ofJson? (array (encodeStatements function.body)) =
      some _ :=
    decodeList_array (hmembers ("body", array (encodeStatements function.body)) (by simp))
      fun inner _ hitems => mapM_encodeStatements function.body hwritable hitems
  have hsignature := optionalSignature_ofOption
    (hmembers ("signature", ofOption Signature.toJson function.signature) (by simp))
  have hfields : function.toJson.fields?
      ["name", "parameters", "return_type_name", "body", "signature"] = some _ :=
    fields?_record rfl (by simp)
  unfold Function.ofJson?
  simp only [entering, hfields]
  simp [hparameters, decodeName_encodeName, hbody, hsignature, Function.rewrite,
    Rewriting.displaying_signature]

theorem Global.ofJson?_toJson {global : Global}
    (hwritable : ∀ literal ∈ global.literals, literal.IsWritable)
    (h : global.toJson.nesting ≤ limit) :
    Global.ofJson? limit global.toJson = some (global.rewrite .displaying) := by
  obtain ⟨limit, rfl, hmembers⟩ := nesting_record h
  have hvalue := optionalExpression_ofOption hwritable
    (hmembers ("value", ofOption Expression.toJson global.value) (by simp))
  have hbinding := optionalBinding_ofOption
    (hmembers ("binding", ofOption VariableBinding.toJson global.binding) (by simp))
  have hfields : global.toJson.fields? ["name", "type_name", "mutable", "value", "binding"] =
      some _ :=
    fields?_record rfl (by simp)
  unfold Global.ofJson?
  simp only [entering, hfields]
  simp [decodeName_encodeName, bool?, hvalue, hbinding, Global.rewrite,
    Rewriting.displaying_binding]

theorem Program.ofJson?_toJson {program : Program}
    (hwritable : ∀ literal ∈ program.literals, literal.IsWritable)
    (h : program.toJson.nesting ≤ limit) :
    Program.ofJson? limit program.toJson = some (program.rewrite .displaying) := by
  obtain ⟨limit, rfl, hmembers⟩ := nesting_record h
  obtain ⟨hglobals, hfunctions⟩ := List.forall_mem_append.mp hwritable
  have hreadGlobals : decodeList limit Global.ofJson? (ofList Global.toJson program.globals) =
      some (program.globals.map (Global.rewrite .displaying)) :=
    decodeList_ofList (hmembers ("globals", ofList Global.toJson program.globals) (by simp))
      fun global hmem inner hinner => Global.ofJson?_toJson
        (fun literal hliteral =>
          hglobals literal (List.mem_flatMap.mpr ⟨global, hmem, hliteral⟩)) hinner
  have hreadFunctions : decodeList limit Function.ofJson?
      (ofList Function.toJson program.functions) =
        some (program.functions.map (Function.rewrite .displaying)) :=
    decodeList_ofList (hmembers ("functions", ofList Function.toJson program.functions) (by simp))
      fun function hmem inner hinner => Function.ofJson?_toJson
        (fun literal hliteral =>
          hfunctions literal (List.mem_flatMap.mpr ⟨function, hmem, hliteral⟩)) hinner
  have hfields : program.toJson.fields? ["globals", "functions"] = some _ :=
    fields?_record rfl (by simp)
  unfold Program.ofJson?
  simp only [entering, hfields]
  simp [hreadGlobals, hreadFunctions, Program.rewrite]

end Programs

end TinyScript
