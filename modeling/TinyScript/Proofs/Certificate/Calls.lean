import TinyScript.Proofs.Certificate.Rules

/-!
# Calls and results in certified trees

A certified tree has recorded at each of its calls the signature under which the view in front of
the tree knows the function (`sees_of_certifiesStatements`). Declarations on the way change what the
view says of variables only, so this holds for calls at any depth. Every result in a certified body
has a type, which fits what the function returns (`fits_of_certifiesStatements`).
-/

namespace TinyScript

open Typing

/-! ## Calls in a tree -/

/-- A call in a tree: the function that it names, with how many arguments, and the signature that is
recorded there. -/
structure CallSite where
  name : String
  arity : Nat
  recorded : Option Signature
deriving DecidableEq, Repr

mutual

/-- The calls in an expression, each in front of those in its arguments. -/
def Expression.callSites : Expression → List CallSite
  | .literal _ _ | .access _ _ _ => []
  | .group inner _ => inner.callSites
  | .binary _ left right _ => left.callSites ++ right.callSites
  | .element _ index _ _ => index.callSites
  | .call name arguments recorded _ => ⟨name, arguments.length, recorded⟩ :: callSitesOf arguments
  | .list elements _ => callSitesOf elements

/-- The calls in expressions, in order. -/
def callSitesOf : List Expression → List CallSite
  | [] => []
  | expression :: expressions => expression.callSites ++ callSitesOf expressions

end

mutual

/-- The calls in a statement, in order. -/
def Statement.callSites : Statement → List CallSite
  | .expression expression => expression.callSites
  | .declaration _ _ value _ => value.elim [] Expression.callSites
  | .assignment receiver value => receiver.callSites ++ value.callSites
  | .branch condition thenBody elseBody =>
    condition.callSites ++ (callSitesOfStatements thenBody ++ callSitesOfStatements elseBody)
  | .switch condition cases => condition.callSites ++ callSitesOfCases cases
  | .loop condition body => condition.callSites ++ callSitesOfStatements body
  | .result value => value.callSites

/-- The calls in statements, in order. -/
def callSitesOfStatements : List Statement → List CallSite
  | [] => []
  | statement :: statements => statement.callSites ++ callSitesOfStatements statements

/-- The calls in cases, in order. -/
def callSitesOfCases : List Case → List CallSite
  | [] => []
  | .mk value body :: cases =>
    value.elim [] Expression.callSites ++ (callSitesOfStatements body ++ callSitesOfCases cases)

end

/-- The calls in a global. -/
def Global.callSites (global : Global) : List CallSite := global.value.elim [] Expression.callSites

/-- The calls in a function. -/
def Function.callSites (function : Function) : List CallSite := callSitesOfStatements function.body

/-- Recorded at a call is the signature that stands under its name and arity. -/
def CallSite.Sees (signatures : List ((String × Nat) × Signature)) (site : CallSite) : Prop :=
  ∃ signature, site.recorded = some signature ∧
    signatures.lookup (site.name, site.arity) = some signature

namespace Certificate

/-! ## Calls see the view -/

section Expressions

variable {view : View}

mutual

theorem sees_of_certifies : ∀ (expression : Expression) {ty : Ty}, Certifies view expression ty →
    ∀ site ∈ expression.callSites, site.Sees view.signatures
  | .literal value slot, ty, h => nofun
  | .group inner slot, ty, h => by
      cases h with
      | group hinner => exact sees_of_certifies inner hinner
  | .binary operator left right slot, ty, h => by
      cases h with
      | binary hleft hright =>
          exact List.forall_mem_append.mpr
            ⟨sees_of_certifies left hleft, sees_of_certifies right hright⟩
  | .access name binding slot, ty, h => nofun
  | .element name index binding slot, ty, h => by
      cases h with
      | anyElement _ hindex => exact sees_of_certifies index hindex
      | listElement _ hindex => exact sees_of_certifies index hindex
  | .call name arguments recorded slot, ty, h => by
      cases h with
      | call hlookup harguments =>
          exact List.forall_mem_cons.mpr
            ⟨⟨_, rfl, hlookup⟩, sees_of_certifiesArguments arguments harguments⟩
  | .list elements slot, ty, h => by
      cases h with
      | list helements => exact sees_of_certifiesElements elements helements

theorem sees_of_certifiesArguments : ∀ (arguments : List Expression) {parameters : List Ty},
    CertifiesArguments view arguments parameters →
      ∀ site ∈ callSitesOf arguments, site.Sees view.signatures
  | [], parameters, h => nofun
  | argument :: arguments, parameters, h => by
      cases h with
      | more hargument _ harguments =>
          exact List.forall_mem_append.mpr ⟨sees_of_certifies argument hargument,
            sees_of_certifiesArguments arguments harguments⟩

theorem sees_of_certifiesElements : ∀ (elements : List Expression),
    CertifiesElements view elements → ∀ site ∈ callSitesOf elements, site.Sees view.signatures
  | [], h => nofun
  | element :: elements, h => by
      cases h with
      | more helement helements =>
          exact List.forall_mem_append.mpr
            ⟨sees_of_certifies element helement, sees_of_certifiesElements elements helements⟩

end

end Expressions

section Statements

variable {names : TypeNames} {returns : Ty}

/-- Behind statements the functions are known as in front of them. -/
theorem signatures_of_certifiesStatement {view view' : View} {statement : Statement}
    (h : CertifiesStatement names returns view statement view') :
    view'.signatures = view.signatures := by
  cases h <;> rfl

mutual

theorem sees_of_certifiesStatement : ∀ (statement : Statement) {view view' : View},
    CertifiesStatement names returns view statement view' →
      ∀ site ∈ statement.callSites, site.Sees view.signatures
  | .expression expression, view, view', h => by
      cases h with
      | expression hexpression => exact sees_of_certifies expression hexpression
  | .declaration name typeName value binding, view, view', h => by
      cases h with
      | declaration => exact nofun
      | initialised _ hvalue => exact sees_of_certifies _ hvalue
  | .assignment receiver value, view, view', h => by
      cases h with
      | assignment _ hreceiver hvalue =>
          exact List.forall_mem_append.mpr
            ⟨sees_of_certifies receiver hreceiver, sees_of_certifies value hvalue⟩
  | .branch condition thenBody elseBody, view, view', h => by
      cases h with
      | branch hcondition hthen helse =>
          exact List.forall_mem_append.mpr ⟨sees_of_certifies condition hcondition,
            List.forall_mem_append.mpr ⟨sees_of_certifiesStatements thenBody hthen,
              sees_of_certifiesStatements elseBody helse⟩⟩
  | .switch condition cases, view, view', h => by
      cases h with
      | switch hcondition hcases =>
          exact List.forall_mem_append.mpr
            ⟨sees_of_certifies condition hcondition, sees_of_certifiesCases cases hcases⟩
  | .loop condition body, view, view', h => by
      cases h with
      | loop hcondition hbody =>
          exact List.forall_mem_append.mpr
            ⟨sees_of_certifies condition hcondition, sees_of_certifiesStatements body hbody⟩
  | .result value, view, view', h => by
      cases h with
      | result hvalue => exact sees_of_certifies value hvalue

theorem sees_of_certifiesStatements : ∀ (statements : List Statement) {view view' : View},
    CertifiesStatements names returns view statements view' →
      ∀ site ∈ callSitesOfStatements statements, site.Sees view.signatures
  | [], view, view', h => nofun
  | statement :: statements, view, view', h => by
      cases h with
      | more hfirst hrest =>
          have hothers := sees_of_certifiesStatements statements hrest
          rw [signatures_of_certifiesStatement hfirst] at hothers
          exact List.forall_mem_append.mpr ⟨sees_of_certifiesStatement statement hfirst, hothers⟩

theorem sees_of_certifiesCases : ∀ (cases : List Case) {view : View} {ty : Ty},
    CertifiesCases names returns view ty cases →
      ∀ site ∈ callSitesOfCases cases, site.Sees view.signatures
  | [], view, ty, h => nofun
  | .mk value body :: cases, view, ty, h => by
      cases h with
      | default hbody =>
          exact List.forall_mem_append.mpr ⟨nofun, List.forall_mem_append.mpr
            ⟨sees_of_certifiesStatements body hbody, nofun⟩⟩
      | more hvalue _ hbody hcases =>
          exact List.forall_mem_append.mpr ⟨sees_of_certifies _ hvalue,
            List.forall_mem_append.mpr ⟨sees_of_certifiesStatements body hbody,
              sees_of_certifiesCases cases hcases⟩⟩

end

/-- Parameters hide variables, not functions. -/
theorem signatures_bindAll (view : View) (bindings : List VariableBinding) :
    (view.bindAll bindings).signatures = view.signatures := by
  induction bindings generalizing view with
  | nil => rfl
  | cons binding bindings ih => exact ih (view.bind binding)

theorem CertifiesFunction.sees {view : View} {function : Function} {signature : Signature}
    (h : CertifiesFunction names view function signature) :
    ∀ site ∈ function.callSites, site.Sees view.signatures := by
  obtain ⟨inner, hbody⟩ := h.body
  have hsites := sees_of_certifiesStatements function.body hbody
  rwa [signatures_bindAll] at hsites

theorem CertifiesGlobal.sees {view : View} {global : Global}
    (h : CertifiesGlobal names view global) :
    ∀ site ∈ global.callSites, site.Sees view.signatures := by
  cases h with
  | declared => exact nofun
  | list _ hlist => exact sees_of_certifies _ hlist
  | other _ hvalue => exact sees_of_certifies _ hvalue

/-! ## Results fit -/

/-- The annotated type of a result is there, and fits what the function returns. -/
def Fits (returns : Ty) (annotated : Option Ty) : Prop :=
  ∃ received, annotated = some received ∧ isAssignable returns received = true

mutual

theorem fits_of_certifiesStatement : ∀ (statement : Statement) {view view' : View},
    CertifiesStatement names returns view statement view' →
      ∀ ty ∈ statement.resultTypes, Fits returns ty
  | .expression expression, view, view', h => nofun
  | .declaration name typeName value binding, view, view', h => nofun
  | .assignment receiver value, view, view', h => nofun
  | .branch condition thenBody elseBody, view, view', h => by
      cases h with
      | branch _ hthen helse =>
          exact List.forall_mem_append.mpr
            ⟨fits_of_certifiesStatements thenBody hthen, fits_of_certifiesStatements elseBody helse⟩
  | .switch condition cases, view, view', h => by
      cases h with
      | switch _ hcases => exact fits_of_certifiesCases cases hcases
  | .loop condition body, view, view', h => by
      cases h with
      | loop _ hbody => exact fits_of_certifiesStatements body hbody
  | .result value, view, view', h => by
      cases h with
      | result hvalue hassignable => exact List.forall_mem_singleton.mpr ⟨_, hvalue.ty, hassignable⟩

theorem fits_of_certifiesStatements : ∀ (statements : List Statement) {view view' : View},
    CertifiesStatements names returns view statements view' →
      ∀ ty ∈ resultTypesOf statements, Fits returns ty
  | [], view, view', h => nofun
  | statement :: statements, view, view', h => by
      cases h with
      | more hfirst hrest =>
          exact List.forall_mem_append.mpr ⟨fits_of_certifiesStatement statement hfirst,
            fits_of_certifiesStatements statements hrest⟩

theorem fits_of_certifiesCases : ∀ (cases : List Case) {view : View} {ty : Ty},
    CertifiesCases names returns view ty cases → ∀ ty ∈ resultTypesOfCases cases, Fits returns ty
  | [], view, ty, h => nofun
  | .mk value body :: cases, view, ty, h => by
      cases h with
      | default hbody =>
          exact List.forall_mem_append.mpr ⟨fits_of_certifiesStatements body hbody, nofun⟩
      | more _ _ hbody hcases =>
          exact List.forall_mem_append.mpr
            ⟨fits_of_certifiesStatements body hbody, fits_of_certifiesCases cases hcases⟩

end

end Statements

end Certificate

end TinyScript
