import TinyScript.Proofs.Typing.Program

/-!
# Checks in similar contexts

The checker asks a frame for the function of a name and an arity, and never for the order in which
functions were bound. So contexts whose frames answer alike are as good as each other: what is
accepted in one of them is accepted in the other, as the same tree (`Check.Carries`). The argument
allows for looser settings on the way, under which all that was accepted still is.

The rules for `Check.Carries` follow the ways in which checks are put together; the theorems behind
them follow the checker, form by form.
-/

namespace TinyScript

/-! ## Scopes that answer alike -/

section Scopes

variable {V F : Type}

/-- Frames with the same variables that bind the same functions, in whatever order. -/
structure Frame.Similar (frame frame' : Frame V F) : Prop where
  vars : frame'.vars = frame.vars
  funs : ∀ name arity, frame'.lookupFunction name arity = frame.lookupFunction name arity

namespace Frame.Similar

variable {frame frame' : Frame V F}

theorem refl (frame : Frame V F) : frame.Similar frame := ⟨rfl, fun _ _ => rfl⟩

theorem trans {frame'' : Frame V F} (h : frame.Similar frame') (h' : frame'.Similar frame'') :
    frame.Similar frame'' :=
  ⟨h'.vars.trans h.vars, fun name arity => (h'.funs name arity).trans (h.funs name arity)⟩

theorem lookupVariable (h : frame.Similar frame') (name : String) :
    frame'.lookupVariable name = frame.lookupVariable name :=
  congrArg (List.lookup name) h.vars

theorem addVariable (h : frame.Similar frame') (name : String) (binding : V) :
    (frame.addVariable name binding).Similar (frame'.addVariable name binding) :=
  ⟨congrArg ((name, binding) :: ·) h.vars, h.funs⟩

theorem addFunction (h : frame.Similar frame') (name : String) (arity : Nat) (binding : F) :
    (frame.addFunction name arity binding).Similar (frame'.addFunction name arity binding) :=
  ⟨h.vars, fun other asked => by simp only [lookupFunction_addFunction, h.funs]⟩

theorem setFunction (h : frame.Similar frame') (name : String) (arity : Nat) (binding : F) :
    (frame.setFunction name arity binding).Similar (frame'.setFunction name arity binding) := by
  refine ⟨h.vars, fun other asked => ?_⟩
  have hfuns := h.funs
  simp only [lookupFunction, Frame.setFunction, lookup_replaceEntry] at hfuns ⊢
  rw [hfuns, hfuns]

/-- Functions of different names or arities may be added in either order. -/
theorem swapFunctions (h : frame.Similar frame') {name name' : String} {arity arity' : Nat}
    {binding binding' : F} (hne : ¬(name' = name ∧ arity' = arity)) :
    ((frame.addFunction name arity binding).addFunction name' arity' binding').Similar
      ((frame'.addFunction name' arity' binding').addFunction name arity binding) := by
  refine ⟨h.vars, fun other asked => ?_⟩
  simp only [lookupFunction_addFunction, h.funs]
  by_cases hfirst : other = name ∧ asked = arity
  · rw [if_pos hfirst, if_neg fun hsecond => hne ⟨hsecond.1.symm.trans hfirst.1,
      hsecond.2.symm.trans hfirst.2⟩, if_pos hfirst]
  · rw [if_neg hfirst, if_neg hfirst]

end Frame.Similar

/-- Scopes whose frames are similar one by one. -/
inductive Scope.Similar : Scope V F → Scope V F → Prop
  | root {frame frame' : Frame V F} : frame.Similar frame' → Similar (.root frame) (.root frame')
  | child {frame frame' : Frame V F} {parent parent' : Scope V F} :
      frame.Similar frame' → Similar parent parent' →
      Similar (.child frame parent) (.child frame' parent')

namespace Scope.Similar

variable {scope scope' : Scope V F}

theorem refl : ∀ scope : Scope V F, scope.Similar scope
  | .root frame => .root (.refl frame)
  | .child frame parent => .child (.refl frame) (refl parent)

theorem trans {scope'' : Scope V F} (h : scope.Similar scope') (h' : scope'.Similar scope'') :
    scope.Similar scope'' := by
  induction h generalizing scope'' with
  | root hframe =>
      cases h' with
      | root hframe' => exact .root (hframe.trans hframe')
  | child hframe _ ih =>
      cases h' with
      | child hframe' hparent' => exact .child (hframe.trans hframe') (ih hparent')

theorem enter (h : scope.Similar scope') : scope.enter.Similar scope'.enter :=
  .child (.refl _) h

theorem leave (h : scope.Similar scope') : scope.leave.Similar scope'.leave := by
  cases h with
  | root hframe => exact .root hframe
  | child _ hparent => exact hparent

theorem current (h : scope.Similar scope') : scope.current.Similar scope'.current := by
  cases h <;> assumption

theorem modifyCurrent (h : scope.Similar scope') {change change' : Frame V F → Frame V F}
    (hchange : (change scope.current).Similar (change' scope'.current)) :
    (scope.modifyCurrent change).Similar (scope'.modifyCurrent change') := by
  cases h with
  | root _ => exact .root hchange
  | child _ hparent => exact .child hchange hparent

theorem lookupVariable (h : scope.Similar scope') (name : String) :
    scope'.lookupVariable name = scope.lookupVariable name := by
  induction h with
  | root hframe => exact hframe.lookupVariable name
  | child hframe _ ih => simp only [Scope.lookupVariable, hframe.lookupVariable name, ih]

theorem lookupFunction (h : scope.Similar scope') (name : String) (arity : Nat) :
    (scope'.lookupFunction name arity).map Prod.fst =
      (scope.lookupFunction name arity).map Prod.fst := by
  induction h with
  | @root frame _ hframe =>
      simp only [Scope.lookupFunction, hframe.funs name arity, Option.map_map]
      rfl
  | @child frame _ _ _ hframe _ ih =>
      simp only [Scope.lookupFunction, hframe.funs name arity]
      cases frame.lookupFunction name arity with
      | some _ => rfl
      | none => exact ih

/-- A function that is found in a scope is found in a similar one. -/
theorem lookupFunction_eq_some (h : scope.Similar scope') {name : String} {arity : Nat}
    {binding : F} {home : Scope V F}
    (hfound : scope.lookupFunction name arity = some (binding, home)) :
    ∃ home', scope'.lookupFunction name arity = some (binding, home') := by
  have hsame := h.lookupFunction name arity
  rw [hfound, Option.map_some, Option.map_eq_some_iff] at hsame
  obtain ⟨⟨_, home'⟩, hfound', rfl⟩ := hsame
  exact ⟨home', hfound'⟩

theorem defineVariable? (h : scope.Similar scope') {name : String} {binding : V}
    {after : Scope V F} (hafter : scope.defineVariable? name binding = some after) :
    ∃ after', scope'.defineVariable? name binding = some after' ∧ after.Similar after' := by
  obtain ⟨hfree, rfl⟩ := Scope.defineVariable?_eq_some.mp hafter
  refine ⟨_, Scope.defineVariable?_eq_some.mpr ⟨?_, rfl⟩,
    h.modifyCurrent (h.current.addVariable name binding)⟩
  rw [h.current.lookupVariable, hfree]

theorem defineFunction? (h : scope.Similar scope') {name : String} {arity : Nat} {binding : F}
    {after : Scope V F} (hafter : scope.defineFunction? name arity binding = some after) :
    ∃ after', scope'.defineFunction? name arity binding = some after' ∧ after.Similar after' := by
  obtain ⟨hfree, rfl⟩ := Scope.defineFunction?_eq_some.mp hafter
  refine ⟨_, Scope.defineFunction?_eq_some.mpr ⟨?_, rfl⟩,
    h.modifyCurrent (h.current.addFunction name arity binding)⟩
  rw [h.current.funs, hfree]

/-- Two functions may be bound in either order. -/
theorem swapFunctions (h : scope.Similar scope') {name name' : String} {arity arity' : Nat}
    {binding binding' : F} {between after : Scope V F}
    (hfirst : scope.defineFunction? name arity binding = some between)
    (hsecond : between.defineFunction? name' arity' binding' = some after) :
    ∃ between' after', scope'.defineFunction? name' arity' binding' = some between' ∧
      between'.defineFunction? name arity binding = some after' ∧ after.Similar after' := by
  obtain ⟨hfree, rfl⟩ := Scope.defineFunction?_eq_some.mp hfirst
  obtain ⟨hfree', rfl⟩ := Scope.defineFunction?_eq_some.mp hsecond
  rw [Scope.current_modifyCurrent, Frame.lookupFunction_addFunction] at hfree'
  -- The second function could not have been bound under the key of the first.
  split at hfree'
  · cases hfree'
  next hne =>
  have hne' : ¬(name = name' ∧ arity = arity') := fun heq => hne ⟨heq.1.symm, heq.2.symm⟩
  refine ⟨_, _, Scope.defineFunction?_eq_some.mpr ⟨?_, rfl⟩,
    Scope.defineFunction?_eq_some.mpr ⟨?_, rfl⟩, ?_⟩
  · rw [h.current.funs, hfree']
  · rw [Scope.current_modifyCurrent, Frame.lookupFunction_addFunction, if_neg hne',
      h.current.funs, hfree]
  · rw [Scope.modifyCurrent_modifyCurrent, Scope.modifyCurrent_modifyCurrent]
    exact h.modifyCurrent (h.current.swapFunctions hne)

theorem setFunction (h : scope.Similar scope') (name : String) (arity : Nat) (binding : F) :
    (scope.setFunction name arity binding).Similar (scope'.setFunction name arity binding) :=
  h.modifyCurrent (h.current.setFunction name arity binding)

end Scope.Similar

end Scopes

namespace Typing

variable {settings looser : Settings} {Part Whole Tree α β : Type}

/-! ## Looser settings -/

/-- Settings under which all that is accepted under some others is accepted too: the names stand
for what they stood for, and groups are not taken more strictly. -/
structure Settings.Loosens (looser settings : Settings) : Prop where
  names : ∀ {name ty}, settings.names.find? name = some ty → looser.names.find? name = some ty
  groups : looser.strictGroups = true → settings.strictGroups = true

namespace Settings.Loosens

theorem refl (settings : Settings) : settings.Loosens settings := ⟨id, id⟩

theorem resolve (h : looser.Loosens settings) {name : String} {ty : Ty}
    (hty : settings.names.resolve name = .ok ty) : looser.names.resolve name = .ok ty := by
  unfold TypeNames.resolve at hty ⊢
  cases hfound : settings.names.find? name with
  | none =>
      rw [hfound] at hty
      cases hty
  | some found =>
      rw [hfound] at hty
      rw [h.names hfound]
      exact hty

theorem resolveOptional (h : looser.Loosens settings) {typeName : Option String}
    {ty : Option Ty} (hty : settings.names.resolveOptional typeName = .ok ty) :
    looser.names.resolveOptional typeName = .ok ty := by
  cases typeName with
  | none => exact hty
  | some name =>
      obtain ⟨found, hfound, rfl⟩ := Except.map_eq_ok.mp hty
      exact Except.map_eq_ok.mpr ⟨found, h.resolve hfound, rfl⟩

theorem parameterTypes (h : looser.Loosens settings) :
    ∀ {parameters : List Parameter} {types : List Ty},
      Typing.parameterTypes settings.names parameters = .ok types →
        Typing.parameterTypes looser.names parameters = .ok types := by
  intro parameters
  induction parameters with
  | nil => exact id
  | cons parameter parameters ih =>
      intro types htypes
      simp only [Typing.parameterTypes, Except.bind_eq_ok] at htypes ⊢
      obtain ⟨ty, hty, others, hothers, heq⟩ := htypes
      exact ⟨ty, h.resolve hty, others, ih hothers, heq⟩

theorem declaredSignature (h : looser.Loosens settings) {function : Function}
    {signature : Signature}
    (hsignature : Typing.declaredSignature settings.names function = .ok signature) :
    Typing.declaredSignature looser.names function = .ok signature := by
  simp only [Typing.declaredSignature, Except.bind_eq_ok] at hsignature ⊢
  obtain ⟨parameters, hparameters, returns, hreturns, heq⟩ := hsignature
  exact ⟨parameters, h.parameterTypes hparameters, returns, h.resolveOptional hreturns, heq⟩

end Settings.Loosens

/-! ## Expressions -/

section Expressions

variable {scope scope' : StaticScope}

mutual

/-- An expression that is accepted in a scope is accepted in a similar one, as the same tree. -/
theorem annotateExpression_of_similar (hlooser : looser.Loosens settings)
    (hscope : scope.Similar scope') : ∀ {input output : Expression} {ty : Ty},
      annotateExpression settings scope input = .ok (output, ty) →
        annotateExpression looser scope' input = .ok (output, ty)
  | .literal value old, output, ty, h => by
      rw [annotateExpression] at h ⊢
      exact h
  | .group inner old, output, ty, h => by
      simp only [annotateExpression] at h ⊢
      split at h
      · cases h
      · next hstrict =>
          have hstrict' : ¬(looser.strictGroups && !inner.isBinary) = true := by
            simp only [Bool.and_eq_true, not_and] at hstrict ⊢
            exact fun hgroups => hstrict (hlooser.groups hgroups)
          rw [if_neg hstrict']
          simp only [Except.bind_eq_ok, within_eq_ok] at h ⊢
          obtain ⟨checked, hinner, hrest⟩ := h
          exact ⟨checked, annotateExpression_of_similar hlooser hscope hinner, hrest⟩
  | .binary operator left right old, output, ty, h => by
      simp only [annotateExpression, Except.bind_eq_ok, within_eq_ok] at h ⊢
      obtain ⟨checked, hleft, checked', hright, hrest⟩ := h
      exact ⟨checked, annotateExpression_of_similar hlooser hscope hleft, checked',
        annotateExpression_of_similar hlooser hscope hright, hrest⟩
  | .access name oldBinding old, output, ty, h => by
      rw [annotateExpression] at h ⊢
      rw [hscope.lookupVariable name]
      exact h
  | .element name index oldBinding old, output, ty, h => by
      simp only [annotateExpression, hscope.lookupVariable name] at h ⊢
      split at h
      · cases h
      · simp only [Except.bind_eq_ok, within_eq_ok] at h ⊢
        obtain ⟨checked, hindex, hrest⟩ := h
        exact ⟨checked, annotateExpression_of_similar hlooser hscope hindex, hrest⟩
  | .call name arguments oldBinding old, output, ty, h => by
      simp only [annotateExpression] at h ⊢
      split at h
      · cases h
      · next hfound =>
          obtain ⟨home', hfound'⟩ := hscope.lookupFunction_eq_some hfound
          rw [hfound']
          simp only [Except.bind_eq_ok, within_eq_ok] at h ⊢
          obtain ⟨checked, harguments, hrest⟩ := h
          exact ⟨checked, annotateArguments_of_similar hlooser hscope harguments, hrest⟩
  | .list elements old, output, ty, h => by
      simp only [annotateExpression, Except.bind_eq_ok, within_eq_ok] at h ⊢
      obtain ⟨checked, helements, hrest⟩ := h
      exact ⟨checked, annotateElements_of_similar hlooser hscope helements, hrest⟩

theorem annotateArguments_of_similar (hlooser : looser.Loosens settings)
    (hscope : scope.Similar scope') :
    ∀ {inputs outputs : List Expression} {parameters : List Ty},
      annotateArguments settings scope inputs parameters = .ok outputs →
        annotateArguments looser scope' inputs parameters = .ok outputs
  | [], outputs, parameters, h => by
      rw [annotateArguments] at h ⊢
      exact h
  | argument :: arguments, outputs, [], h => by
      rw [annotateArguments] at h ⊢
      · exact h
      all_goals nofun
  | argument :: arguments, outputs, expected :: parameters, h => by
      simp only [annotateArguments, Except.bind_eq_ok, within_eq_ok] at h ⊢
      obtain ⟨checked, hargument, u, hassignable, others, hothers, hrest⟩ := h
      exact ⟨checked, annotateExpression_of_similar hlooser hscope hargument, u, hassignable,
        others, annotateArguments_of_similar hlooser hscope hothers, hrest⟩

theorem annotateElements_of_similar (hlooser : looser.Loosens settings)
    (hscope : scope.Similar scope') : ∀ {inputs outputs : List Expression},
      annotateElements settings scope inputs = .ok outputs →
        annotateElements looser scope' inputs = .ok outputs
  | [], outputs, h => by
      rw [annotateElements] at h ⊢
      exact h
  | element :: elements, outputs, h => by
      simp only [annotateElements, Except.bind_eq_ok, within_eq_ok] at h ⊢
      obtain ⟨checked, helement, others, hothers, hrest⟩ := h
      exact ⟨checked, annotateExpression_of_similar hlooser hscope helement, others,
        annotateElements_of_similar hlooser hscope hothers, hrest⟩

end

end Expressions

/-! ## Checks that carry over -/

/-- Contexts with similar scopes, in which the same is known of what is returned. -/
structure Context.Similar (c d : Context) : Prop where
  scope : c.scope.Similar d.scope
  returning : d.returning = c.returning

theorem Context.Similar.refl (c : Context) : c.Similar c := ⟨.refl _, rfl⟩

theorem Context.Similar.trans {c d e : Context} (h : c.Similar d) (h' : d.Similar e) :
    c.Similar e :=
  ⟨h.scope.trans h'.scope, h'.returning.trans h.returning⟩

/-- What one check accepts, another one accepts in every similar context, with the same result. -/
def Check.Carries (x y : Check Tree α) : Prop :=
  ∀ (c d : Context) (a : α) (c' : Context), c.Similar d → x c = .ok a c' →
    ∃ d', y d = .ok a d' ∧ c'.Similar d'

namespace Check.Carries

theorem pure (a : α) : Carries (pure a : Check Tree α) (pure a) := by
  intro c d b c' hc h
  obtain ⟨rfl, rfl⟩ := pure_eq_ok.mp h
  exact ⟨d, rfl, hc⟩

theorem bind {x y : Check Tree α} {f g : α → Check Tree β} (hx : Carries x y)
    (hf : ∀ a, Carries (f a) (g a)) : Carries (x >>= f) (y >>= g) := by
  intro c d b c' hc h
  obtain ⟨a, c₁, hfirst, hrest⟩ := bind_eq_ok.mp h
  obtain ⟨d₁, hfirst', hc₁⟩ := hx c d a c₁ hc hfirst
  obtain ⟨d', hrest', hc'⟩ := hf a c₁ d₁ b c' hc₁ hrest
  exact ⟨d', bind_eq_ok.mpr ⟨a, d₁, hfirst', hrest'⟩, hc'⟩

theorem part {rebuild : Part → Whole} {x y : Check Part α} (h : Carries x y) :
    Carries (Check.part rebuild x) (Check.part rebuild y) := by
  intro c d a c' hc hok
  obtain ⟨d', hd', hc'⟩ := h c d a c' hc (Check.part_eq_ok.mp hok)
  exact ⟨d', Check.part_eq_ok.mpr hd', hc'⟩

theorem require (tree : Tree) {result result' : Except TypeError α}
    (h : ∀ {a}, result = .ok a → result' = .ok a) :
    Carries (Check.require tree result) (Check.require tree result') := by
  intro c d a c' hc hok
  obtain ⟨hresult, rfl⟩ := Check.require_eq_ok.mp hok
  exact ⟨d, Check.require_eq_ok.mpr ⟨h hresult, rfl⟩, hc⟩

theorem define (tree : Tree) (binding : VariableBinding) :
    Carries (Check.define tree binding) (Check.define tree binding) := by
  intro c d u c' hc hok
  obtain ⟨scope, hscope, rfl⟩ := Check.define_eq_ok.mp hok
  obtain ⟨scope', hscope', hsimilar⟩ := hc.scope.defineVariable? hscope
  exact ⟨{ d with scope := scope' }, Check.define_eq_ok.mpr ⟨scope', hscope', rfl⟩, hsimilar,
    hc.returning⟩

theorem expression (hlooser : looser.Loosens settings) (rebuild : Expression → Tree)
    (input : Expression) :
    Carries (Check.expression settings rebuild input) (Check.expression looser rebuild input) := by
  intro c d (output, ty) c' hc hok
  obtain ⟨hchecked, rfl⟩ := Check.expression_eq_ok.mp hok
  exact ⟨d, Check.expression_eq_ok.mpr
    ⟨annotateExpression_of_similar hlooser hc.scope hchecked, rfl⟩, hc⟩

theorem inBlock {x y : Check Tree α} (h : Carries x y) :
    Carries (Check.inBlock x) (Check.inBlock y) := by
  intro c d a c' hc hok
  obtain ⟨after, hafter, rfl⟩ := inBlock_eq_ok.mp hok
  have hinside : c.enter.Similar d.enter := ⟨hc.scope.enter, hc.returning⟩
  obtain ⟨after', hafter', hsimilar⟩ := h _ _ _ _ hinside hafter
  exact ⟨after'.leave, inBlock_eq_ok.mpr ⟨after', hafter', rfl⟩, hsimilar.scope.leave,
    hsimilar.returning⟩

theorem returning (tree : Tree) (received : Ty) :
    Carries (Check.returning tree received) (Check.returning tree received) := by
  intro c d u c' hc hok
  unfold Check.returning at hok ⊢
  rw [hc.returning]
  split at hok
  · cases hok
  · cases hok
    exact ⟨_, rfl, hc.scope, rfl⟩
  · exact require tree id _ _ _ _ hc hok

theorem notify (notice : Notice) :
    Carries (Typing.notify notice : Check Tree Unit) (Typing.notify notice) := by
  intro c d u c' hc hok
  cases hok
  exact ⟨_, rfl, hc.scope, hc.returning⟩

theorem insideFunction {returns : Option Ty} {x y : Check Tree α} (h : Carries x y) :
    Carries (Typing.insideFunction returns x) (Typing.insideFunction returns y) := by
  intro c d (a, known) c' hc hok
  obtain ⟨after, hafter, rfl, rfl⟩ := insideFunction_eq_ok hok
  have hinside : Context.Similar { c with returning := some returns }
    { d with returning := some returns } := ⟨hc.scope, rfl⟩
  obtain ⟨after', hafter', hsimilar⟩ := h _ _ _ _ hinside hafter
  refine ⟨{ after' with returning := d.returning }, ?_, hsimilar.scope, hc.returning⟩
  unfold Typing.insideFunction
  rw [hafter', ← hsimilar.returning]

theorem inferResult (function : Function) (returns : Ty) :
    Carries (Typing.inferResult function returns : Check Tree Unit)
      (Typing.inferResult function returns) := by
  intro c d u c' hc hok
  unfold Typing.inferResult at hok ⊢
  rw [hc.scope.current.funs]
  split at hok
  · cases hok
    exact ⟨_, rfl, hc.scope.setFunction _ _ _, hc.returning⟩
  · cases hok
    exact ⟨_, rfl, hc⟩

/-- A check that goes on only if a condition does not hold. -/
theorem guarded {condition : Bool} {tree : Tree} {reason : TypeError} {after : α → Check Tree β}
    {x y : Check Tree β} (h : Carries x y) :
    Carries (if condition = true then Check.require tree (.error reason) >>= after else x)
      (if condition = true then Check.require tree (.error reason) >>= after else y) := by
  intro c d b c' hc hok
  obtain ⟨rfl, hok⟩ := guarded_eq_ok hok
  exact h _ _ _ _ hc hok

end Check.Carries

/-! ## Statements -/

theorem carries_annotateCondition (hlooser : looser.Loosens settings) (rebuild : Expression → Tree)
    (input : Expression) :
    Check.Carries (annotateCondition settings rebuild input)
      (annotateCondition looser rebuild input) :=
  .bind (.expression hlooser _ _) fun _ => .bind (.require _ id) fun _ => .pure _

theorem carries_annotateDeclaration (hlooser : looser.Loosens settings) (name : String)
    (typeName : Option String) (value : Option Expression) (old : Option VariableBinding) :
    Check.Carries (annotateDeclaration settings name typeName value old)
      (annotateDeclaration looser name typeName value old) := by
  refine .bind (.require _ hlooser.resolveOptional) fun declared => ?_
  cases value with
  | none =>
      cases declared with
      | none => exact .require _ id
      | some ty => exact .bind (.define _ _) fun _ => .pure _
  | some value =>
      exact .bind (.expression hlooser _ _) fun _ => .bind (.require _ id) fun _ =>
        .bind (.define _ _) fun _ => .pure _

theorem carries_annotateAssignment (hlooser : looser.Loosens settings)
    (receiver value : Expression) :
    Check.Carries (annotateAssignment settings receiver value)
      (annotateAssignment looser receiver value) :=
  .guarded (.bind (.expression hlooser _ _) fun _ => .bind (.expression hlooser _ _) fun _ =>
    .bind (.require _ id) fun _ => .pure _)

mutual

theorem carries_annotateStatement (hlooser : looser.Loosens settings) : ∀ input : Statement,
    Check.Carries (annotateStatement settings input) (annotateStatement looser input)
  | .expression expression => by
      rw [annotateStatement, annotateStatement]
      exact .guarded (.bind (.expression hlooser _ _) fun _ => .pure _)
  | .declaration name typeName value old => by
      rw [annotateStatement, annotateStatement]
      exact carries_annotateDeclaration hlooser name typeName value old
  | .assignment receiver value => by
      rw [annotateStatement, annotateStatement]
      exact carries_annotateAssignment hlooser receiver value
  | .branch test thenBody elseBody => by
      rw [annotateStatement, annotateStatement]
      exact .bind (carries_annotateCondition hlooser _ _) fun _ =>
        .bind (.part (.inBlock (carries_annotateStatements hlooser thenBody))) fun _ =>
          .bind (.part (.inBlock (carries_annotateStatements hlooser elseBody))) fun _ => .pure _
  | .switch test cases => by
      rw [annotateStatement, annotateStatement]
      exact .bind (.expression hlooser _ _) fun _ => .guarded
        (.bind (.part (carries_annotateCases hlooser cases)) fun _ => .pure _)
  | .loop test body => by
      rw [annotateStatement, annotateStatement]
      exact .bind (carries_annotateCondition hlooser _ _) fun _ =>
        .bind (.part (.inBlock (carries_annotateStatements hlooser body))) fun _ => .pure _
  | .result value => by
      rw [annotateStatement, annotateStatement]
      exact .bind (.expression hlooser _ _) fun _ => .bind (.returning _ _) fun _ => .pure _

theorem carries_annotateStatements (hlooser : looser.Loosens settings) :
    ∀ input : List Statement,
    Check.Carries (annotateStatements settings input) (annotateStatements looser input)
  | [] => by
      rw [annotateStatements, annotateStatements]
      exact .pure _
  | statement :: statements => by
      rw [annotateStatements, annotateStatements]
      exact .bind (.part (carries_annotateStatement hlooser statement)) fun _ =>
        .bind (.part (carries_annotateStatements hlooser statements)) fun _ => .pure _

theorem carries_annotateCases (hlooser : looser.Loosens settings) :
    ∀ (input : List Case) {ty : Ty},
    Check.Carries (annotateCases settings ty input) (annotateCases looser ty input)
  | [], ty => by
      rw [annotateCases, annotateCases]
      exact .pure _
  | .mk none body :: cases, ty => by
      rw [annotateCases, annotateCases, annotateCase, annotateCase]
      exact .bind (.part (.guarded
        (.bind (.part (.inBlock (carries_annotateStatements hlooser body))) fun _ => .pure _)))
          fun _ => .bind (.part (carries_annotateCases hlooser cases)) fun _ => .pure _
  | .mk (some value) body :: cases, ty => by
      rw [annotateCases, annotateCases, annotateCase, annotateCase]
      exact .bind (.part (.guarded (.bind (.expression hlooser _ _) fun _ =>
        .bind (.require _ id) fun _ =>
          .bind (.part (.inBlock (carries_annotateStatements hlooser body))) fun _ => .pure _)))
            fun _ => .bind (.part (carries_annotateCases hlooser cases)) fun _ => .pure _

end

/-! ## Globals, functions, programs -/

theorem carries_annotateGlobal (hlooser : looser.Loosens settings) (global : Global) :
    Check.Carries (annotateGlobal settings global) (annotateGlobal looser global) := by
  refine .bind (.require _ hlooser.resolveOptional) fun declared => ?_
  cases global.value with
  | none =>
      cases declared with
      | none =>
          exact .bind (.require _ id) fun _ => .bind (.define _ _) fun _ =>
            .bind (.notify _) fun _ => .pure _
      | some ty =>
          exact .bind (.pure _) fun _ => .bind (.define _ _) fun _ =>
            .bind (.notify _) fun _ => .pure _
  | some value =>
      exact .bind (.expression hlooser _ _) fun _ => .bind (.require _ id) fun _ =>
        .bind (.pure _) fun _ => .bind (.define _ _) fun _ => .bind (.notify _) fun _ => .pure _

theorem carries_registerFunction (hlooser : looser.Loosens settings) (function : Function) :
    Check.Carries (registerFunction settings function) (registerFunction looser function) := by
  intro c d output c' hc h
  obtain ⟨signature, scope, hsignature, hscope, rfl, rfl⟩ := registerFunction_eq_ok_iff.mp h
  obtain ⟨scope', hscope', hsimilar⟩ := hc.scope.defineFunction? hscope
  exact ⟨_, registerFunction_eq_ok_iff.mpr ⟨signature, scope',
    hlooser.declaredSignature hsignature, hscope', rfl, rfl⟩, hsimilar, hc.returning⟩

theorem carries_defineParameters (tree : Tree) :
    ∀ (parameters : List Parameter) (types : List Ty),
      Check.Carries (defineParameters tree parameters types)
        (defineParameters tree parameters types)
  | [], _ => by
      unfold defineParameters
      exact .pure _
  | _ :: _, [] => by
      unfold defineParameters
      exact .pure _
  | parameter :: parameters, ty :: types => by
      unfold defineParameters
      exact .bind (.define _ _) fun _ => carries_defineParameters tree parameters types

theorem carries_annotateFunction (hlooser : looser.Loosens settings) (function : Function) :
    Check.Carries (annotateFunction settings function) (annotateFunction looser function) := by
  unfold annotateFunction
  split
  · exact .require _ id
  · refine .bind (.part (.insideFunction (.inBlock (.bind (carries_defineParameters _ _ _)
      fun _ => carries_annotateStatements hlooser _)))) fun _ => ?_
    dsimp only
    split
    · exact .pure _
    · exact .bind (.inferResult _ _) fun _ => .bind (.notify _) fun _ => .pure _

theorem carries_annotateEach {annotate annotate' : Tree → Check Tree Tree}
    (h : ∀ tree, Check.Carries (annotate tree) (annotate' tree)) : ∀ trees,
      Check.Carries (annotateEach annotate trees) (annotateEach annotate' trees)
  | [] => .pure _
  | tree :: trees => .bind (.part (h tree)) fun _ =>
      .bind (.part (carries_annotateEach h trees)) fun _ => .pure _

theorem requireMain_of_similar {scope scope' : StaticScope} (h : scope.Similar scope') :
    requireMain scope' = requireMain scope := by
  have hmain := h.lookupFunction "main" 0
  unfold requireMain
  generalize scope.lookupFunction "main" 0 = found, scope'.lookupFunction "main" 0 = found' at hmain
  cases found <;> cases found' <;> simp_all

theorem carries_annotateProgram (hlooser : looser.Loosens settings) (program : Program) :
    Check.Carries (annotateProgram settings program) (annotateProgram looser program) := by
  refine .bind (.part (carries_annotateEach (carries_registerFunction hlooser) _)) fun functions =>
    .bind (.part (carries_annotateEach (carries_annotateGlobal hlooser) _)) fun globals =>
      .bind (.part (carries_annotateEach (carries_annotateFunction hlooser) _)) fun functions' => ?_
  -- The context is read here, for its scope, so `bind` does not apply before it is fixed.
  intro c d output c' hc h
  have hmain := requireMain_of_similar hc.scope
  exact Check.Carries.bind (.require _ fun hok => hmain.trans hok)
    (fun _ => .bind (.notify _) fun _ => .pure _) c d output c' hc h

end Typing

end TinyScript
