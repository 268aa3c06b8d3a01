import TinyScript.Proofs.Rewriting
import TinyScript.Typing.Program

/-!
# Annotated trees that certify themselves

An annotated tree carries everything that is needed to see that its annotations are right. The rules
here look at the tree alone, never at what the checker did: the type of a node follows from the
types of its parts, and the binding of a name is the one recorded on the declaration of that name
that is visible at the place, innermost and latest first. `View` is what the annotations in front of
a place say about names.
-/

namespace TinyScript

open Typing

/-! ## Filled annotations -/

mutual

/-- Whether every annotation in an expression is there. -/
def Expression.isFilled : Expression → Bool
  | .literal _ ty => ty.isSome
  | .group inner ty => inner.isFilled && ty.isSome
  | .binary _ left right ty => left.isFilled && right.isFilled && ty.isSome
  | .access _ binding ty => binding.isSome && ty.isSome
  | .element _ index binding ty => index.isFilled && binding.isSome && ty.isSome
  | .call _ arguments binding ty => areFilled arguments && binding.isSome && ty.isSome
  | .list elements ty => areFilled elements && ty.isSome

/-- Whether every annotation in expressions is there. -/
def areFilled : List Expression → Bool
  | [] => true
  | expression :: expressions => expression.isFilled && areFilled expressions

end

mutual

/-- Whether every annotation in a statement is there. -/
def Statement.isFilled : Statement → Bool
  | .expression expression => expression.isFilled
  | .declaration _ _ value binding => value.all Expression.isFilled && binding.isSome
  | .assignment receiver value => receiver.isFilled && value.isFilled
  | .branch condition thenBody elseBody =>
    condition.isFilled && areStatementsFilled thenBody && areStatementsFilled elseBody
  | .switch condition cases => condition.isFilled && areCasesFilled cases
  | .loop condition body => condition.isFilled && areStatementsFilled body
  | .result value => value.isFilled

/-- Whether every annotation in statements is there. -/
def areStatementsFilled : List Statement → Bool
  | [] => true
  | statement :: statements => statement.isFilled && areStatementsFilled statements

/-- Whether every annotation in cases is there. -/
def areCasesFilled : List Case → Bool
  | [] => true
  | .mk value body :: cases =>
    value.all Expression.isFilled && areStatementsFilled body && areCasesFilled cases

end

/-- Whether every annotation in a program is there. -/
def Program.isFilled (program : Program) : Bool :=
  (program.globals.all fun global =>
      global.value.all Expression.isFilled && global.binding.isSome) &&
    program.functions.all fun function =>
      areStatementsFilled function.body && function.signature.isSome

/-! ## Results -/

mutual

/-- The annotated types of the results in a statement, in order. -/
def Statement.resultTypes : Statement → List (Option Ty)
  | .result value => [value.ty]
  | .branch _ thenBody elseBody => resultTypesOf thenBody ++ resultTypesOf elseBody
  | .switch _ cases => resultTypesOfCases cases
  | .loop _ body => resultTypesOf body
  | .expression _ | .declaration .. | .assignment .. => []

/-- The annotated types of the results in statements, in order. -/
def resultTypesOf : List Statement → List (Option Ty)
  | [] => []
  | statement :: statements => statement.resultTypes ++ resultTypesOf statements

/-- The annotated types of the results in cases, in order. -/
def resultTypesOfCases : List Case → List (Option Ty)
  | [] => []
  | .mk _ body :: cases => resultTypesOf body ++ resultTypesOfCases cases

end

/-- The type of the first result of a body, which is nil where there is none. -/
def firstResultType (body : List Statement) : Ty := ((resultTypesOf body).head?.getD none).getD .nil

namespace Certificate

/-! ## Views -/

/-- What the annotations in front of a place say about names: the bindings of the variables that are
visible, innermost first, and the signatures of the functions. -/
structure View where
  visible : List (String × VariableBinding)
  signatures : List ((String × Nat) × Signature)

/-- The view behind a declaration with the given binding. -/
def View.bind (view : View) (binding : VariableBinding) : View :=
  { view with visible := (binding.name, binding) :: view.visible }

/-- The view behind declarations with the given bindings. -/
def View.bindAll (view : View) (bindings : List VariableBinding) : View :=
  bindings.foldl View.bind view

/-! ## Expressions -/

mutual

/-- The rules for expressions: with the annotations it has, an expression has the given type. -/
inductive Certifies (view : View) : Expression → Ty → Prop
  | literal {value ty} :
      literalType value = .ok ty → Certifies view (.literal value (some ty)) ty
  | group {inner ty} : Certifies view inner ty → Certifies view (.group inner (some ty)) ty
  | binary {operator left right leftTy rightTy ty} :
      Certifies view left leftTy → Certifies view right rightTy →
      operatorType operator leftTy rightTy = .ok ty →
      Certifies view (.binary operator left right (some ty)) ty
  | access {name binding} :
      view.visible.lookup name = some binding →
      Certifies view (.access name (some binding) (some binding.ty)) binding.ty
  | anyElement {name index binding} :
      view.visible.lookup name = some binding → Certifies view index .integer →
      binding.ty = .any →
      Certifies view (.element name index (some binding) (some .any)) .any
  | listElement {name index binding} :
      view.visible.lookup name = some binding → Certifies view index .integer →
      binding.ty = .list →
      Certifies view (.element name index (some binding) (some (binding.element.getD .any)))
        (binding.element.getD .any)
  | call {name arguments signature} :
      view.signatures.lookup (name, arguments.length) = some signature →
      CertifiesArguments view arguments signature.parameters →
      Certifies view (.call name arguments (some signature) (some signature.returns))
        signature.returns
  | list {elements} :
      CertifiesElements view elements → Certifies view (.list elements (some .list)) .list

/-- Arguments fit the types of the parameters, one by one. -/
inductive CertifiesArguments (view : View) : List Expression → List Ty → Prop
  | none : CertifiesArguments view [] []
  | more {argument received arguments expected parameters} :
      Certifies view argument received → isAssignable expected received = true →
      CertifiesArguments view arguments parameters →
      CertifiesArguments view (argument :: arguments) (expected :: parameters)

/-- Elements of a list have types of their own. -/
inductive CertifiesElements (view : View) : List Expression → Prop
  | none : CertifiesElements view []
  | more {element ty elements} :
      Certifies view element ty → CertifiesElements view elements →
      CertifiesElements view (element :: elements)

end

/-! ## Statements -/

section Statements

variable (names : TypeNames) (returns : Ty)

mutual

/-- The rules for statements in a function that returns the given type, with the views in front of
them and behind them. -/
inductive CertifiesStatement : View → Statement → View → Prop
  | expression {view expression ty} :
      Certifies view expression ty → CertifiesStatement view (.expression expression) view
  | declaration {view name typeName ty} :
      names.resolveOptional typeName = .ok (some ty) →
      CertifiesStatement view (.declaration name typeName none (some ⟨name, ty, none, true⟩))
        (view.bind ⟨name, ty, none, true⟩)
  | initialised {view name typeName declared value received} :
      names.resolveOptional typeName = .ok declared → Certifies view value received →
      isAssignable (declared.getD received) received = true →
      CertifiesStatement view
        (.declaration name typeName (some value)
          (some ⟨name, declared.getD received, copiedElement value, true⟩))
        (view.bind ⟨name, declared.getD received, copiedElement value, true⟩)
  | assignment {view receiver target value received} :
      receiver.isReceiver = true → Certifies view receiver target →
      Certifies view value received → isAssignable target received = true →
      CertifiesStatement view (.assignment receiver value) view
  | branch {view condition thenBody thenView elseBody elseView} :
      Certifies view condition .boolean → CertifiesStatements view thenBody thenView →
      CertifiesStatements view elseBody elseView →
      CertifiesStatement view (.branch condition thenBody elseBody) view
  | switch {view condition ty cases} :
      Certifies view condition ty → CertifiesCases view ty cases →
      CertifiesStatement view (.switch condition cases) view
  | loop {view condition body inner} :
      Certifies view condition .boolean → CertifiesStatements view body inner →
      CertifiesStatement view (.loop condition body) view
  | result {view value received} :
      Certifies view value received → isAssignable returns received = true →
      CertifiesStatement view (.result value) view

/-- The rules for statements in order. -/
inductive CertifiesStatements : View → List Statement → View → Prop
  | none {view} : CertifiesStatements view [] view
  | more {view statement view₁ statements view₂} :
      CertifiesStatement view statement view₁ → CertifiesStatements view₁ statements view₂ →
      CertifiesStatements view (statement :: statements) view₂

/-- The rules for the cases of a switch on a value of the given type. Only the last case is without
a value. -/
inductive CertifiesCases : View → Ty → List Case → Prop
  | none {view ty} : CertifiesCases view ty []
  | default {view ty body inner} :
      CertifiesStatements view body inner → CertifiesCases view ty [.mk none body]
  | more {view ty value received body inner cases} :
      Certifies view value received → isAssignable ty received = true →
      CertifiesStatements view body inner → CertifiesCases view ty cases →
      CertifiesCases view ty (.mk (some value) body :: cases)

end

end Statements

/-! ## Programs -/

/-- The rules for globals. The elements of a list literal fit the type that is declared for them. -/
inductive CertifiesGlobal (names : TypeNames) (view : View) : Global → Prop
  | declared {name typeName isMutable ty} :
      names.resolveOptional typeName = .ok (some ty) →
      CertifiesGlobal names view
        ⟨name, typeName, isMutable, none, some ⟨name, ty, none, isMutable⟩⟩
  | list {name typeName isMutable declared elements} :
      names.resolveOptional typeName = .ok declared →
      Certifies view (.list elements (some .list)) .list →
      (∀ element ∈ elements, ∃ ty, element.ty = some ty ∧
        isAssignable (declared.getD .any) ty = true) →
      CertifiesGlobal names view
        ⟨name, typeName, isMutable, some (.list elements (some .list)),
          some ⟨name, .list, some (declared.getD .any), isMutable⟩⟩
  | other {name typeName isMutable declared value received} :
      names.resolveOptional typeName = .ok declared → Certifies view value received →
      isAssignable (declared.getD received) received = true →
      (∀ elements ty, value ≠ .list elements ty) →
      CertifiesGlobal names view
        ⟨name, typeName, isMutable, some value,
          some ⟨name, declared.getD received, copiedElement value, isMutable⟩⟩

/-- The bindings of the parameters of a function. -/
def parameterBindings (function : Function) (signature : Signature) : List VariableBinding :=
  (function.parameters.zip signature.parameters).map fun (parameter, ty) =>
    ⟨parameter.name, ty, none, true⟩

/-- The rule for functions. -/
structure CertifiesFunction (names : TypeNames) (view : View) (function : Function)
    (signature : Signature) : Prop where
  recorded : function.signature = some signature
  name : signature.name = function.name
  parameters : parameterTypes names function.parameters = .ok signature.parameters
  declared : ∀ typeName, function.returnTypeName = some typeName →
    names.resolve typeName = .ok signature.returns
  inferred : function.returnTypeName = none → signature.returns = firstResultType function.body
  body : ∃ inner, CertifiesStatements names signature.returns
    (view.bindAll (parameterBindings function signature)) function.body inner

/-- What calls of a function see of it behind the place where its result is known. -/
def known (function : Function) : Option ((String × Nat) × Signature) :=
  function.signature.map fun signature => ((function.name, function.arity), signature)

/-- What calls of a function see of it up to its body: until its result has been inferred, it is
taken to return anything. -/
def shown (function : Function) : Option ((String × Nat) × Signature) :=
  function.signature.map fun signature => ((function.name, function.arity),
    if function.returnTypeName.isSome then signature else { signature with returns := .any })

/-- The view behind some first globals, in or in front of the bodies behind some first functions. -/
def viewAt (globals : List Global) (earlier later : List Function) : View where
  visible :=
    ((globals.filterMap Global.binding).map fun binding => (binding.name, binding)).reverse
  signatures :=
    (earlier.filterMap known ++ later.filterMap shown).reverse ++ [(("print", 1), printSignature)]

/-- The rule for programs: every global is right in view of those in front of it, and every function
in view of all globals and of the functions in front of it. -/
structure CertifiesProgram (names : TypeNames) (program : Program) : Prop where
  globals : ∀ earlier global later, program.globals = earlier ++ global :: later →
    CertifiesGlobal names (viewAt earlier [] program.functions) global
  functions : ∀ earlier function later, program.functions = earlier ++ function :: later →
    ∃ signature, CertifiesFunction names (viewAt program.globals earlier (function :: later))
      function signature

/-! ## What the rules imply

A tree that keeps to the rules has all its annotations. -/

section Filled

variable {view : View}

theorem Certifies.ty {expression : Expression} {ty : Ty} (h : Certifies view expression ty) :
    expression.ty = some ty := by
  cases h <;> rfl

theorem CertifiesElements.ty {elements : List Expression} (h : CertifiesElements view elements) :
    ∀ element ∈ elements, ∃ ty, element.ty = some ty := by
  induction elements with
  | nil => exact nofun
  | cons first elements ih =>
      cases h with
      | more hfirst hrest =>
          rintro element hmem
          rcases List.mem_cons.mp hmem with rfl | hmem
          · exact ⟨_, hfirst.ty⟩
          · exact ih hrest element hmem

mutual

theorem isFilled_of_certifies : ∀ (expression : Expression) {ty : Ty},
    Certifies view expression ty → expression.isFilled = true
  | .literal value slot, ty, h => by
      cases h
      rfl
  | .group inner slot, ty, h => by
      cases h with
      | group hinner => simp [Expression.isFilled, isFilled_of_certifies inner hinner]
  | .binary operator left right slot, ty, h => by
      cases h with
      | binary hleft hright =>
          simp [Expression.isFilled, isFilled_of_certifies left hleft,
            isFilled_of_certifies right hright]
  | .access name binding slot, ty, h => by
      cases h
      rfl
  | .element name index binding slot, ty, h => by
      cases h with
      | anyElement _ hindex => simp [Expression.isFilled, isFilled_of_certifies index hindex]
      | listElement _ hindex => simp [Expression.isFilled, isFilled_of_certifies index hindex]
  | .call name arguments binding slot, ty, h => by
      cases h with
      | call _ harguments => simp [Expression.isFilled, areFilled_of_arguments arguments harguments]
  | .list elements slot, ty, h => by
      cases h with
      | list helements => simp [Expression.isFilled, areFilled_of_elements elements helements]

theorem areFilled_of_arguments : ∀ (arguments : List Expression) {parameters : List Ty},
    CertifiesArguments view arguments parameters → areFilled arguments = true
  | [], parameters, h => rfl
  | argument :: arguments, parameters, h => by
      cases h with
      | more hargument _ harguments =>
          simp [areFilled, isFilled_of_certifies argument hargument,
            areFilled_of_arguments arguments harguments]

theorem areFilled_of_elements : ∀ (elements : List Expression),
    CertifiesElements view elements → areFilled elements = true
  | [], h => rfl
  | element :: elements, h => by
      cases h with
      | more helement helements =>
          simp [areFilled, isFilled_of_certifies element helement,
            areFilled_of_elements elements helements]

end

variable {names : TypeNames} {returns : Ty}

mutual

theorem isFilled_of_certifiesStatement : ∀ (statement : Statement) {view view' : View},
    CertifiesStatement names returns view statement view' → statement.isFilled = true
  | .expression expression, view, view', h => by
      cases h with
      | expression hexpression => exact isFilled_of_certifies expression hexpression
  | .declaration name typeName value binding, view, view', h => by
      cases h with
      | declaration => rfl
      | initialised _ hvalue => simp [Statement.isFilled, isFilled_of_certifies _ hvalue]
  | .assignment receiver value, view, view', h => by
      cases h with
      | assignment _ hreceiver hvalue =>
          simp [Statement.isFilled, isFilled_of_certifies _ hreceiver,
            isFilled_of_certifies _ hvalue]
  | .branch condition thenBody elseBody, view, view', h => by
      cases h with
      | branch hcondition hthen helse =>
          simp [Statement.isFilled, isFilled_of_certifies _ hcondition,
            areFilled_of_certifiesStatements thenBody hthen,
            areFilled_of_certifiesStatements elseBody helse]
  | .switch condition cases, view, view', h => by
      cases h with
      | switch hcondition hcases =>
          simp [Statement.isFilled, isFilled_of_certifies _ hcondition,
            areFilled_of_certifiesCases cases hcases]
  | .loop condition body, view, view', h => by
      cases h with
      | loop hcondition hbody =>
          simp [Statement.isFilled, isFilled_of_certifies _ hcondition,
            areFilled_of_certifiesStatements body hbody]
  | .result value, view, view', h => by
      cases h with
      | result hvalue => exact isFilled_of_certifies value hvalue

theorem areFilled_of_certifiesStatements : ∀ (statements : List Statement) {view view' : View},
    CertifiesStatements names returns view statements view' →
      areStatementsFilled statements = true
  | [], view, view', h => rfl
  | statement :: statements, view, view', h => by
      cases h with
      | more hfirst hrest =>
          simp [areStatementsFilled, isFilled_of_certifiesStatement statement hfirst,
            areFilled_of_certifiesStatements statements hrest]

theorem areFilled_of_certifiesCases : ∀ (cases : List Case) {view : View} {ty : Ty},
    CertifiesCases names returns view ty cases → areCasesFilled cases = true
  | [], view, ty, h => rfl
  | .mk value body :: cases, view, ty, h => by
      cases h with
      | default hbody =>
          simp [areCasesFilled, areFilled_of_certifiesStatements body hbody]
      | more hvalue _ hbody hcases =>
          simp [areCasesFilled, isFilled_of_certifies _ hvalue,
            areFilled_of_certifiesStatements body hbody, areFilled_of_certifiesCases cases hcases]

end

theorem CertifiesGlobal.isFilled {global : Global} (h : CertifiesGlobal names view global) :
    (global.value.all Expression.isFilled && global.binding.isSome) = true := by
  cases h with
  | declared => rfl
  | list _ helements => simp [isFilled_of_certifies _ helements]
  | other _ hvalue => simp [isFilled_of_certifies _ hvalue]

theorem CertifiesFunction.isFilled {function : Function} {signature : Signature}
    (h : CertifiesFunction names view function signature) :
    (areStatementsFilled function.body && function.signature.isSome) = true := by
  obtain ⟨inner, hbody⟩ := h.body
  simp [areFilled_of_certifiesStatements _ hbody, h.recorded]

theorem CertifiesProgram.isFilled {program : Program} (h : CertifiesProgram names program) :
    program.isFilled = true := by
  simp only [Program.isFilled, Bool.and_eq_true, List.all_eq_true]
  constructor
  · intro global hmem
    obtain ⟨earlier, later, hsplit⟩ := List.append_of_mem hmem
    simpa using (h.globals earlier global later hsplit).isFilled
  · intro function hmem
    obtain ⟨earlier, later, hsplit⟩ := List.append_of_mem hmem
    obtain ⟨signature, hfunction⟩ := h.functions earlier function later hsplit
    simpa using hfunction.isFilled

end Filled

end Certificate

end TinyScript
