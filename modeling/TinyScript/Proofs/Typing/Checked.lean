import TinyScript.Proofs.Site
import TinyScript.Proofs.Typing.Acceptance

/-!
# What the checker visits

The checker works through a program part by part, each part in a context of its own. An `Item` is a
part as the checker takes it up; `Step` says which parts it goes on to from an item, and in which
contexts, by what it computes on the parts in front of them. `Checked` follows the steps from the
initial values of globals and from the bodies of functions, and `Checked.unique` says that there is
only one item and one context for every site of a program whose names are distinct.
-/

namespace TinyScript.Typing

/-! ## Items -/

/-- A part of a program as the checker takes it up. -/
inductive Item where
  | expression (expression : Expression)
  /-- The arguments of a call of a function with parameters of the given types. -/
  | arguments (arguments : List Expression) (parameters : List Ty)
  | elements (elements : List Expression)
  | statement (statement : Statement)
  | statements (statements : List Statement)
  /-- The cases of a switch on a value of the given type. -/
  | cases (ty : Ty) (cases : List Case)

/-- The checker goes on from an item in a context to a part of it in another context. The parts of
each item have the numbers that they have in a run. -/
inductive Step (settings : Settings) : Item → Context → Nat → Item → Context → Prop
  | group {inner ty c} : Step settings (.expression (.group inner ty)) c 0 (.expression inner) c
  | left {operator left right ty c} :
      Step settings (.expression (.binary operator left right ty)) c 0 (.expression left) c
  | right {operator left right ty c} :
      Step settings (.expression (.binary operator left right ty)) c 1 (.expression right) c
  | index {name index binding ty c} :
      Step settings (.expression (.element name index binding ty)) c 0 (.expression index) c
  | arguments {name arguments binding ty c signature home} :
      c.scope.lookupFunction name arguments.length = some (signature, home) →
      Step settings (.expression (.call name arguments binding ty)) c 0
        (.arguments arguments signature.parameters) c
  | elements {elements ty c} :
      Step settings (.expression (.list elements ty)) c 0 (.elements elements) c
  | argument {argument arguments parameters c} :
      Step settings (.arguments (argument :: arguments) parameters) c 0 (.expression argument) c
  | otherArguments {argument arguments expected parameters c} :
      Step settings (.arguments (argument :: arguments) (expected :: parameters)) c 1
        (.arguments arguments parameters) c
  | element {element elements c} :
      Step settings (.elements (element :: elements)) c 0 (.expression element) c
  | otherElements {element elements c} :
      Step settings (.elements (element :: elements)) c 1 (.elements elements) c
  | effect {expression c} :
      Step settings (.statement (.expression expression)) c 0 (.expression expression) c
  | initial {name typeName value binding c} :
      Step settings (.statement (.declaration name typeName (some value) binding)) c 0
        (.expression value) c
  | receiver {receiver value c} :
      Step settings (.statement (.assignment receiver value)) c 0 (.expression receiver) c
  | assigned {receiver value c} :
      Step settings (.statement (.assignment receiver value)) c 1 (.expression value) c
  | branchTest {test thenBody elseBody c} :
      Step settings (.statement (.branch test thenBody elseBody)) c 0 (.expression test) c
  | thenBody {test thenBody elseBody c} :
      Step settings (.statement (.branch test thenBody elseBody)) c 1 (.statements thenBody) c.enter
  | elseBody {test thenBody elseBody c thenBody' c₁} :
      annotateStatements settings thenBody c.enter = .ok thenBody' c₁ →
      Step settings (.statement (.branch test thenBody elseBody)) c 2 (.statements elseBody)
        c₁.leave.enter
  | switchTest {test cases c} :
      Step settings (.statement (.switch test cases)) c 0 (.expression test) c
  | switchCases {test cases c test' ty} :
      annotateExpression settings c.scope test = .ok (test', ty) →
      Step settings (.statement (.switch test cases)) c 1 (.cases ty cases) c
  | loopTest {test body c} :
      Step settings (.statement (.loop test body)) c 0 (.expression test) c
  | loopBody {test body c} :
      Step settings (.statement (.loop test body)) c 1 (.statements body) c.enter
  | result {value c} : Step settings (.statement (.result value)) c 0 (.expression value) c
  | first {statement statements c} :
      Step settings (.statements (statement :: statements)) c 0 (.statement statement) c
  | rest {statement statements c statement' c₁} :
      annotateStatement settings statement c = .ok statement' c₁ →
      Step settings (.statements (statement :: statements)) c 1 (.statements statements) c₁
  | caseValue {ty value body cases c} :
      Step settings (.cases ty (.mk (some value) body :: cases)) c 0 (.expression value) c
  | caseBody {ty value body cases c} :
      Step settings (.cases ty (.mk value body :: cases)) c 1 (.statements body) c.enter
  | otherCases {ty value body cases c body' c₁} :
      annotateStatements settings body c.enter = .ok body' c₁ →
      Step settings (.cases ty (.mk value body :: cases)) c 2 (.cases ty cases) c₁.leave

theorem Step.unique {settings : Settings} {item item₁ item₂ : Item} {c c₁ c₂ : Context}
    {number : Nat} (h₁ : Step settings item c number item₁ c₁)
    (h₂ : Step settings item c number item₂ c₂) : item₁ = item₂ ∧ c₁ = c₂ := by
  cases h₁ with
  | arguments hfound =>
      cases h₂ with
      | arguments hfound' =>
          rw [hfound] at hfound'
          cases hfound'
          exact ⟨rfl, rfl⟩
  | switchCases htest =>
      cases h₂ with
      | switchCases htest' =>
          rw [htest] at htest'
          cases htest'
          exact ⟨rfl, rfl⟩
  | elseBody hthen =>
      cases h₂ with
      | elseBody hthen' =>
          rw [hthen] at hthen'
          cases hthen'
          exact ⟨rfl, rfl⟩
  | rest hfirst =>
      cases h₂ with
      | rest hfirst' =>
          rw [hfirst] at hfirst'
          cases hfirst'
          exact ⟨rfl, rfl⟩
  | otherCases hbody =>
      cases h₂ with
      | otherCases hbody' =>
          rw [hbody] at hbody'
          cases hbody'
          exact ⟨rfl, rfl⟩
  | _ =>
      cases h₂
      exact ⟨rfl, rfl⟩

/-! ## Sites -/

namespace Context

/-- The context in which the body of a function is checked, before its parameters are bound. -/
def body (context : Context) (function : Function) (signature : Signature) : Context :=
  { context with
    scope := context.scope.enter
    returning := some (if function.returnTypeName.isSome then some signature.returns else none) }

end Context

/-- In the course of checking a program, the item that stands at a place of a top-level part is
taken up in a context. -/
inductive Checked (settings : Settings) (program : Program) :
    Owner → List Nat → Item → Context → Prop
  | initial {functions c₀ earlier global later globals c value} :
      annotateEach (registerFunction settings) program.functions .initial = .ok functions c₀ →
      program.globals = earlier ++ global :: later →
      annotateEach (annotateGlobal settings) earlier c₀ = .ok globals c →
      global.value = some value →
      Checked settings program (.global global.name) [] (.expression value) c
  | body {functions c₀ globals c₁ earlier function later annotated c signature c'} :
      annotateEach (registerFunction settings) program.functions .initial = .ok functions c₀ →
      annotateEach (annotateGlobal settings) program.globals c₀ = .ok globals c₁ →
      functions = earlier ++ function :: later →
      annotateEach (annotateFunction settings) earlier c₁ = .ok annotated c →
      function.signature = some signature →
      defineParameters function.body function.parameters signature.parameters
        (c.body function signature) = .ok () c' →
      Checked settings program (.function function.name function.arity) []
        (.statements function.body) c'
  | part {owner place item c number item' c'} :
      Checked settings program owner place item c → Step settings item c number item' c' →
      Checked settings program owner (number :: place) item' c'

end TinyScript.Typing
