import TinyScript.Proofs.Elements
import TinyScript.Proofs.Typing.Checked
import TinyScript.Proofs.Typing.Frame

/-!
# How a program is accepted

The checker goes through a program in three passes: it registers the functions, checks the globals
in order, and checks the bodies of the functions. The scope is a root frame all the time. Here is
what that frame holds after each part of a pass: the signatures of the functions, and the bindings
of the globals checked so far, each under its own name.
-/

namespace TinyScript.Typing

variable {settings : Settings}

/-! ## Passes -/

section Passes

variable {Tree : Type} {annotate : Tree → Check Tree Tree} {c c' : Context}

theorem annotateEach_nil {outputs : List Tree} (h : annotateEach annotate [] c = .ok outputs c') :
    outputs = [] ∧ c = c' := by
  simp only [annotateEach, pure_eq_ok] at h
  exact ⟨h.1.symm, h.2⟩

theorem annotateEach_cons {input : Tree} {inputs outputs : List Tree}
    (h : annotateEach annotate (input :: inputs) c = .ok outputs c') :
    ∃ output c₁ others, annotate input c = .ok output c₁ ∧
      annotateEach annotate inputs c₁ = .ok others c' ∧ outputs = output :: others := by
  simp only [annotateEach, bind_eq_ok, Check.part_eq_ok, pure_eq_ok] at h
  obtain ⟨output, c₁, hfirst, others, _, hrest, rfl, rfl⟩ := h
  exact ⟨output, c₁, others, hfirst, hrest, rfl⟩

theorem annotateEach_cons_of_ok {input output : Tree} {inputs outputs : List Tree} {c₁ : Context}
    (hfirst : annotate input c = .ok output c₁)
    (hrest : annotateEach annotate inputs c₁ = .ok outputs c') :
    annotateEach annotate (input :: inputs) c = .ok (output :: outputs) c' := by
  simp only [annotateEach, bind_eq_ok, Check.part_eq_ok, pure_eq_ok]
  exact ⟨output, c₁, hfirst, outputs, c', hrest, rfl, rfl⟩

/-- A pass that has come to a result among others has come by the context in which it annotated the
tree of that result. -/
theorem annotateEach_middle : ∀ {front behind inputs : List Tree} {output : Tree} {c c' : Context},
    annotateEach annotate inputs c = .ok (front ++ output :: behind) c' →
      ∃ earlier input later c₁ c₂, inputs = earlier ++ input :: later ∧
        annotateEach annotate earlier c = .ok front c₁ ∧ annotate input c₁ = .ok output c₂ := by
  intro front
  induction front with
  | nil =>
      intro behind inputs output c c' h
      cases inputs with
      | nil =>
          obtain ⟨hnil, -⟩ := annotateEach_nil h
          cases hnil
      | cons input inputs =>
          obtain ⟨_, c₁, others, hfirst, -, heq⟩ := annotateEach_cons h
          cases heq
          exact ⟨[], input, inputs, c, c₁, rfl, rfl, hfirst⟩
  | cons first front ih =>
      intro behind inputs output c c' h
      cases inputs with
      | nil =>
          obtain ⟨hnil, -⟩ := annotateEach_nil h
          cases hnil
      | cons input inputs =>
          obtain ⟨_, c₁, others, hfirst, hrest, heq⟩ := annotateEach_cons h
          cases heq
          obtain ⟨earlier, found, later, c₂, c₃, rfl, hearlier, hfound⟩ := ih hrest
          exact ⟨input :: earlier, found, later, c₂, c₃, rfl,
            annotateEach_cons_of_ok hfirst hearlier, hfound⟩

theorem forall₂_of_annotateEach : ∀ {inputs outputs : List Tree} {c c' : Context},
    annotateEach annotate inputs c = .ok outputs c' →
      List.Forall₂ (fun input output => ∃ c c', annotate input c = .ok output c') inputs
        outputs := by
  intro inputs
  induction inputs with
  | nil =>
      intro outputs c c' h
      obtain ⟨rfl, -⟩ := annotateEach_nil h
      exact .nil
  | cons input inputs ih =>
      intro outputs c c' h
      obtain ⟨output, c₁, others, hfirst, hrest, rfl⟩ := annotateEach_cons h
      exact .cons ⟨c, c₁, hfirst⟩ (ih hrest)

/-- What annotating a tree leaves as it is, a pass leaves as it is. -/
theorem map_of_annotateEach {β : Type} {f : Tree → β}
    (hf : ∀ {input output c c'}, annotate input c = .ok output c' → f output = f input) :
    ∀ {inputs outputs : List Tree} {c c' : Context},
      annotateEach annotate inputs c = .ok outputs c' → outputs.map f = inputs.map f := by
  intro inputs
  induction inputs with
  | nil =>
      intro outputs c c' h
      obtain ⟨rfl, -⟩ := annotateEach_nil h
      rfl
  | cons input inputs ih =>
      intro outputs c c' h
      obtain ⟨output, c₁, others, hfirst, hrest, rfl⟩ := annotateEach_cons h
      rw [List.map_cons, List.map_cons, hf hfirst, ih hrest]

/-- What annotating a tree establishes holds of all results of a pass. -/
theorem forall_of_annotateEach {P : Tree → Prop}
    (hP : ∀ {input output c c'}, annotate input c = .ok output c' → P output) :
    ∀ {inputs outputs : List Tree} {c c' : Context},
      annotateEach annotate inputs c = .ok outputs c' → ∀ output ∈ outputs, P output := by
  intro inputs
  induction inputs with
  | nil =>
      intro outputs c c' h
      obtain ⟨rfl, -⟩ := annotateEach_nil h
      exact nofun
  | cons input inputs ih =>
      intro outputs c c' h
      obtain ⟨output, c₁, others, hfirst, hrest, rfl⟩ := annotateEach_cons h
      exact List.forall_mem_cons.mpr ⟨hP hfirst, ih hrest⟩

end Passes

/-! ## Registering functions -/

/-- A function that has been registered. -/
structure Registered (function : Function) (signature : Signature) : Prop where
  declared : function.signature = some signature
  name : signature.name = function.name
  arity : signature.parameters.length = function.arity
  returns : function.returnTypeName = none → signature.returns = .any

theorem length_parameterTypes {names : TypeNames} : ∀ {parameters : List Parameter}
    {types : List Ty}, parameterTypes names parameters = .ok types →
      types.length = parameters.length := by
  intro parameters
  induction parameters with
  | nil =>
      intro types h
      cases h
      rfl
  | cons parameter parameters ih =>
      intro types h
      simp only [parameterTypes, Except.bind_eq_ok, Except.pure_eq_ok] at h
      obtain ⟨ty, -, others, hothers, rfl⟩ := h
      simp [ih hothers]

theorem registerFunction_apply (function : Function) (c : Context) :
    registerFunction settings function c =
      match declaredSignature settings.names function with
      | .error reason => .error ⟨reason, function⟩ c
      | .ok signature =>
        match c.scope.defineFunction? function.name function.arity signature with
        | none => .error ⟨.functionRedefined function.name function.arity, function⟩ c
        | some scope =>
          .ok { function with signature := some signature } ⟨scope, c.returning,
            .functionRegistered function.name function.arity :: c.notices⟩ := by
  unfold registerFunction
  cases declaredSignature settings.names function with
  | error reason => rfl
  | ok signature =>
      show (match c.scope.defineFunction? function.name function.arity signature with
        | none => _
        | some scope => _ : Check Function Function) c = _
      dsimp only
      cases c.scope.defineFunction? function.name function.arity signature <;> rfl

theorem registerFunction_eq_ok_iff {input output : Function} {c c' : Context} :
    registerFunction settings input c = .ok output c' ↔
      ∃ signature scope, declaredSignature settings.names input = .ok signature ∧
        c.scope.defineFunction? input.name input.arity signature = some scope ∧
        output = { input with signature := some signature } ∧
        c' = ⟨scope, c.returning, .functionRegistered input.name input.arity :: c.notices⟩ := by
  rw [registerFunction_apply]
  constructor
  · intro h
    split at h
    · cases h
    next signature hsignature =>
    split at h
    · cases h
    next scope hscope =>
    cases h
    exact ⟨signature, scope, hsignature, hscope, rfl, rfl⟩
  · rintro ⟨signature, scope, hsignature, hscope, rfl, rfl⟩
    simp only [hsignature, hscope]

theorem registerFunction_eq_ok {input output : Function} {c c' : Context}
    (h : registerFunction settings input c = .ok output c') :
    ∃ signature scope, Registered output signature ∧
      output = { input with signature := some signature } ∧
      c.scope.defineFunction? input.name input.arity signature = some scope ∧
      c'.scope = scope := by
  obtain ⟨signature, scope, hsignature, hdefine, rfl, rfl⟩ := registerFunction_eq_ok_iff.mp h
  simp only [declaredSignature, Except.bind_eq_ok, Except.pure_eq_ok] at hsignature
  obtain ⟨parameters, hparameters, returns, hreturns, rfl⟩ := hsignature
  refine ⟨_, scope, ⟨rfl, rfl, length_parameterTypes hparameters, fun hnone => ?_⟩, rfl,
    hdefine, rfl⟩
  have hnone : input.returnTypeName = none := hnone
  rw [hnone] at hreturns
  cases hreturns
  rfl

/-- A function is registered under the signature that it declares. -/
theorem declares_of_registerFunction {input output : Function} {c c' : Context}
    (h : registerFunction settings input c = .ok output c') :
    ∃ signature, output.signature = some signature ∧
      declaredSignature settings.names output = .ok signature := by
  obtain ⟨signature, scope, hsignature, -, rfl, -⟩ := registerFunction_eq_ok_iff.mp h
  exact ⟨signature, rfl, hsignature⟩

/-- The entry of the root frame for a registered function. -/
def signatureEntry (function : Function) : (String × Nat) × Signature :=
  ((function.name, function.arity), function.signature.getD default)

/-- The entries of the root frame when functions have been registered: theirs, the latest first, and
that of the function that prints. -/
def registeredEntries (functions : List Function) : List ((String × Nat) × Signature) :=
  (functions.map signatureEntry).reverse ++ [(("print", 1), printSignature)]

/-- The frame behind registering functions. -/
theorem scope_of_registerFunctions {vars : List (String × VariableBinding)} :
    ∀ {inputs outputs : List Function} {c c' : Context}
      {funs : List ((String × Nat) × Signature)},
      annotateEach (registerFunction settings) inputs c = .ok outputs c' →
      c.scope = .root ⟨vars, funs⟩ → (funs.map Prod.fst).Nodup →
        c'.scope = .root ⟨vars, (outputs.map signatureEntry).reverse ++ funs⟩ ∧
          (((outputs.map signatureEntry).reverse ++ funs).map Prod.fst).Nodup ∧
          (∀ output ∈ outputs, ∃ signature, Registered output signature) ∧
          outputs.map (fun output => (output.name, output.arity)) =
            inputs.map (fun input => (input.name, input.arity)) := by
  intro inputs
  induction inputs with
  | nil =>
      intro outputs c c' funs h hscope hdistinct
      obtain ⟨rfl, rfl⟩ := annotateEach_nil h
      refine ⟨hscope, hdistinct, ?_, rfl⟩
      intro output hmem
      cases hmem
  | cons input inputs ih =>
      intro outputs c c' funs h hscope hdistinct
      obtain ⟨output, c₁, others, hfirst, hrest, rfl⟩ := annotateEach_cons h
      obtain ⟨signature, scope, hregistered, houtput, hdefine, hscope₁⟩ :=
        registerFunction_eq_ok hfirst
      rw [hscope] at hdefine
      obtain ⟨hfree, rfl⟩ := Scope.defineFunction?_eq_some.mp hdefine
      have hentry : signatureEntry output = ((input.name, input.arity), signature) := by
        rw [houtput]
        rfl
      have hnew : ((signatureEntry output :: funs).map Prod.fst).Nodup := by
        rw [hentry, List.map_cons, List.nodup_cons]
        exact ⟨lookup_eq_none_iff_keys.mp hfree, hdistinct⟩
      have hscope₂ : c₁.scope = .root ⟨vars, signatureEntry output :: funs⟩ := by
        rw [hscope₁, hentry]
        rfl
      obtain ⟨hscope', hdistinct', hothers, hkeys⟩ := ih hrest hscope₂ hnew
      refine ⟨?_, ?_, ?_, ?_⟩
      · simpa [List.append_assoc] using hscope'
      · simpa [List.append_assoc] using hdistinct'
      · rintro other hmem
        rcases List.mem_cons.mp hmem with rfl | hmem
        · exact ⟨signature, hregistered⟩
        · exact hothers other hmem
      · rw [List.map_cons, List.map_cons, hkeys, houtput]
        rfl

/-- The root frame behind the first pass: the signatures of all functions, and that of the function
that prints. -/
theorem scope_of_registered {inputs outputs : List Function} {c : Context}
    (h : annotateEach (registerFunction settings) inputs .initial = .ok outputs c) :
    c.scope = .root ⟨[], registeredEntries outputs⟩ ∧
      ((registeredEntries outputs).map Prod.fst).Nodup ∧
      (∀ output ∈ outputs, ∃ signature, Registered output signature) ∧
      outputs.map (fun output => (output.name, output.arity)) =
        inputs.map (fun input => (input.name, input.arity)) := by
  have hscope : Context.initial.scope = .root ⟨[], [(("print", 1), printSignature)]⟩ := rfl
  exact scope_of_registerFunctions h hscope (by simp)

/-! ## Checking globals -/

/-- The rules for globals: how a global is annotated, with which binding. -/
inductive GlobalRule (settings : Settings) (c : Context) : Global → Global → VariableBinding → Prop
  | declared {global ty} :
      global.value = none → settings.names.resolveOptional global.typeName = .ok (some ty) →
      GlobalRule settings c global
        { global with
          value := none, binding := some ⟨global.name, ty, none, global.isMutable⟩ }
        ⟨global.name, ty, none, global.isMutable⟩
  | list {global value elements received declared} :
      global.value = some value → settings.names.resolveOptional global.typeName = .ok declared →
      annotateExpression settings c.scope value = .ok (.list elements received, .list) →
      requireElements (declared.getD .any) elements = .ok () →
      GlobalRule settings c global
        { global with
          value := some (.list elements received)
          binding := some
            ⟨global.name, .list, some (declared.getD .any), global.isMutable⟩ }
        ⟨global.name, .list, some (declared.getD .any), global.isMutable⟩
  | other {global value value' received ty declared} :
      global.value = some value →
      annotateExpression settings c.scope value = .ok (value', received) →
      isAssignable ty received = true →
      settings.names.resolveOptional global.typeName = .ok declared → ty = declared.getD received →
      (∀ elements elementsTy, value' ≠ .list elements elementsTy) →
      GlobalRule settings c global
        { global with
          value := some value'
          binding := some ⟨global.name, ty, copiedElement value', global.isMutable⟩ }
        ⟨global.name, ty, copiedElement value', global.isMutable⟩

/-- A global is bound last, when its value has been annotated. -/
theorem bound_of_define {tree global output : Global} {binding : VariableBinding} {notice : Notice}
    {c c' : Context}
    (h : (do
      Check.define tree binding
      notify notice
      return global : Check Global Global) c = .ok output c') :
    ∃ scope, c.scope.defineVariable? binding.name binding = some scope ∧ c'.scope = scope ∧
      output = global := by
  simp only [bind_eq_ok, Check.define_eq_ok, pure_eq_ok] at h
  obtain ⟨_, _, ⟨scope, hscope, rfl⟩, _, _, hnotify, rfl, rfl⟩ := h
  cases hnotify
  exact ⟨scope, hscope, rfl, rfl⟩

theorem rule_of_annotateGlobal {input output : Global} {c c' : Context}
    (h : annotateGlobal settings input c = .ok output c') :
    ∃ binding scope, GlobalRule settings c input output binding ∧
      c.scope.defineVariable? input.name binding = some scope ∧ c'.scope = scope := by
  unfold annotateGlobal at h
  obtain ⟨declared, _, hrequire, h⟩ := bind_eq_ok.mp h
  obtain ⟨hdeclared, rfl⟩ := Check.require_eq_ok.mp hrequire
  cases hvalue : input.value with
  | none =>
      rw [hvalue] at h
      cases declared with
      | none =>
          obtain ⟨_, _, h, -⟩ := bind_eq_ok.mp h
          obtain ⟨h, -⟩ := Check.require_eq_ok.mp h
          cases h
      | some ty =>
          obtain ⟨_, _, hpure, h⟩ := bind_eq_ok.mp h
          obtain ⟨rfl, rfl⟩ := pure_eq_ok.mp hpure
          obtain ⟨scope, hscope, hafter, rfl⟩ := bound_of_define h
          exact ⟨_, scope, .declared hvalue hdeclared, hscope, hafter⟩
  | some value =>
      rw [hvalue] at h
      obtain ⟨⟨value', received⟩, _, hexpression, h⟩ := bind_eq_ok.mp h
      obtain ⟨hann, rfl⟩ := Check.expression_eq_ok.mp hexpression
      obtain ⟨⟨ty, element⟩, _, hrequire, h⟩ := bind_eq_ok.mp h
      obtain ⟨htype, rfl⟩ := Check.require_eq_ok.mp hrequire
      obtain ⟨_, _, hpure, h⟩ := bind_eq_ok.mp h
      obtain ⟨rfl, rfl⟩ := pure_eq_ok.mp hpure
      obtain ⟨scope, hscope, hafter, rfl⟩ := bound_of_define h
      refine ⟨_, scope, ?_, hscope, hafter⟩
      unfold globalType at htype
      split at htype
      · next elements _ =>
          simp only [Except.bind_eq_ok, Except.pure_eq_ok, Prod.mk.injEq] at htype
          obtain ⟨⟨⟩, helements, rfl, rfl⟩ := htype
          have hlist : received = .list := by
            cases rule_of_annotateExpression hann
            rfl
          subst hlist
          exact .list hvalue hdeclared hann helements
      · next hlist =>
        simp only [Except.bind_eq_ok, requireAssignable_eq_ok, Except.pure_eq_ok,
          Prod.mk.injEq] at htype
        obtain ⟨_, hassignable, rfl, rfl⟩ := htype
        exact .other hvalue hann hassignable hdeclared rfl hlist

/-- The entry of the root frame for a global that has been checked. -/
def globalEntry (global : Global) : String × VariableBinding :=
  (global.name, global.binding.getD default)

theorem GlobalRule.entry {input output : Global} {binding : VariableBinding} {c : Context}
    (h : GlobalRule settings c input output binding) :
    globalEntry output = (input.name, binding) ∧ output.name = input.name := by
  cases h <;> exact ⟨rfl, rfl⟩

/-- The frame behind checking globals. -/
theorem scope_of_annotateGlobals {funs : List ((String × Nat) × Signature)} :
    ∀ {inputs outputs : List Global} {c c' : Context} {vars : List (String × VariableBinding)},
      annotateEach (annotateGlobal settings) inputs c = .ok outputs c' →
      c.scope = .root ⟨vars, funs⟩ → (vars.map Prod.fst).Nodup →
        c'.scope = .root ⟨(outputs.map globalEntry).reverse ++ vars, funs⟩ ∧
          (((outputs.map globalEntry).reverse ++ vars).map Prod.fst).Nodup ∧
          outputs.map Global.name = inputs.map Global.name := by
  intro inputs
  induction inputs with
  | nil =>
      intro outputs c c' vars h hscope hdistinct
      obtain ⟨rfl, rfl⟩ := annotateEach_nil h
      exact ⟨hscope, hdistinct, rfl⟩
  | cons input inputs ih =>
      intro outputs c c' vars h hscope hdistinct
      obtain ⟨output, c₁, others, hfirst, hrest, rfl⟩ := annotateEach_cons h
      obtain ⟨binding, scope, hrule, hdefine, hscope₁⟩ := rule_of_annotateGlobal hfirst
      rw [hscope] at hdefine
      obtain ⟨hfree, rfl⟩ := Scope.defineVariable?_eq_some.mp hdefine
      obtain ⟨hentry, hname⟩ := hrule.entry
      have hnew : ((globalEntry output :: vars).map Prod.fst).Nodup := by
        rw [hentry, List.map_cons, List.nodup_cons]
        exact ⟨lookup_eq_none_iff_keys.mp hfree, hdistinct⟩
      have hscope₂ : c₁.scope = .root ⟨globalEntry output :: vars, funs⟩ := by
        rw [hscope₁, hentry]
        rfl
      obtain ⟨hscope', hdistinct', hnames⟩ := ih hrest hscope₂ hnew
      refine ⟨?_, ?_, ?_⟩
      · simpa [List.append_assoc] using hscope'
      · simpa [List.append_assoc] using hdistinct'
      · rw [List.map_cons, List.map_cons, hnames, hname]

/-! ## Checking functions -/

/-- The rules for functions: the body is accepted behind the parameters, and a result that is not
declared is written into the frame. -/
inductive FunctionRule (settings : Settings) (c : Context) :
    Function → Function → Context → Context → Prop
  | declared {function signature start after body c'} :
      function.signature = some signature → function.returnTypeName.isSome = true →
      defineParameters function.body function.parameters signature.parameters
        (c.body function signature) = .ok () start →
      annotateStatements settings function.body start = .ok body after →
      c'.scope = c.scope →
      FunctionRule settings c function { function with body } after c'
  | inferred {function signature start after body returns c'} :
      function.signature = some signature → function.returnTypeName = none →
      defineParameters function.body function.parameters signature.parameters
        (c.body function signature) = .ok () start →
      annotateStatements settings function.body start = .ok body after →
      returns = (after.returning.getD none).getD .nil →
      (c.scope.current.lookupFunction function.name function.arity = none ∧ c'.scope = c.scope ∨
        ∃ found, c.scope.current.lookupFunction function.name function.arity = some found ∧
          c'.scope =
            c.scope.setFunction function.name function.arity { found with returns }) →
      FunctionRule settings c function
        { function with body, signature := some { signature with returns } } after c'

theorem insideFunction_eq_ok {Tree α : Type} {returns : Option Ty} {check : Check Tree α}
    {c c' : Context} {a : α} {known : Option Ty}
    (h : insideFunction returns check c = .ok (a, known) c') :
    ∃ after, check { c with returning := some returns } = .ok a after ∧
      known = after.returning.getD none ∧ c' = { after with returning := c.returning } := by
  unfold insideFunction at h
  split at h
  · next hcheck =>
      cases h
      exact ⟨_, hcheck, rfl, rfl⟩
  · cases h

theorem annotateBody_eq_ok {parameters : List Parameter} {types : List Ty}
    {input output : List Statement} {c c' : Context}
    (h : annotateBody settings parameters types input c = .ok output c') :
    ∃ start after, defineParameters input parameters types c.enter = .ok () start ∧
      annotateStatements settings input start = .ok output after ∧ c' = after.leave ∧
      c'.scope = c.scope := by
  unfold annotateBody at h
  obtain ⟨after, hinside, rfl⟩ := inBlock_eq_ok.mp h
  obtain ⟨_, start, hparameters, hbody⟩ := bind_eq_ok.mp hinside
  have hblock := (extends_of_defineParameters hparameters).trans
    (extends_of_annotateStatements _ hbody)
  exact ⟨start, after, hparameters, hbody, rfl, hblock.scope_leave⟩

theorem inferResult_eq_ok {Tree : Type} {function : Function} {returns : Ty} {c c' : Context}
    {u : Unit} (h : (inferResult function returns : Check Tree Unit) c = .ok u c') :
    c.scope.current.lookupFunction function.name function.arity = none ∧ c'.scope = c.scope ∨
      ∃ found, c.scope.current.lookupFunction function.name function.arity = some found ∧
        c'.scope =
          c.scope.setFunction function.name function.arity { found with returns } := by
  unfold inferResult at h
  split at h
  · next found hfound =>
      cases h
      exact .inr ⟨found, hfound, rfl⟩
  · next hnone =>
      cases h
      exact .inl ⟨hnone, rfl⟩

theorem rule_of_annotateFunction {input output : Function} {c c' : Context}
    (h : annotateFunction settings input c = .ok output c') :
    ∃ after, FunctionRule settings c input output after c' := by
  obtain ⟨name, parameters, typeName, statements, signature⟩ := input
  cases signature with
  | none =>
      unfold annotateFunction at h
      obtain ⟨h, -⟩ := Check.require_eq_ok.mp h
      cases h
  | some signature =>
      unfold annotateFunction at h
      obtain ⟨⟨body, known⟩, c₁, hpart, hrest⟩ := bind_eq_ok.mp h
      obtain ⟨c₂, hbody, rfl, rfl⟩ := insideFunction_eq_ok (Check.part_eq_ok.mp hpart)
      obtain ⟨start, after, hparameters, hstatements, rfl, hscope⟩ := annotateBody_eq_ok hbody
      refine ⟨after, ?_⟩
      cases typeName with
      | some typeName =>
          obtain ⟨rfl, rfl⟩ := pure_eq_ok.mp hrest
          exact .declared rfl rfl hparameters hstatements hscope
      | none =>
          obtain ⟨_, c₃, hinfer, hrest⟩ := bind_eq_ok.mp hrest
          obtain ⟨_, _, hnotify, hrest⟩ := bind_eq_ok.mp hrest
          obtain ⟨rfl, rfl⟩ := pure_eq_ok.mp hrest
          cases hnotify
          have hresult := inferResult_eq_ok hinfer
          have houter : after.leave.scope = c.scope := hscope
          simp only [houter] at hresult
          exact .inferred rfl rfl hparameters hstatements rfl hresult

end TinyScript.Typing
