import TinyScript.Proofs.Typing.Program

/-!
# Programs whose variables have no element types

The checker knows an element type for a global that starts with a list literal, and for a variable
that is declared as a copy of another that has one. So where no list literal comes with a declared
element type, no variable has an element type of its own.
-/

namespace TinyScript

/-- No global that starts with a list literal declares an element type other than any. -/
def Program.HasPlainLists (settings : Typing.Settings) (program : Program) : Prop :=
  ∀ global ∈ program.globals, ∀ elements ty typeName,
    global.value = some (.list elements ty) → global.typeName = some typeName →
      settings.names.resolve typeName = .ok .any

namespace Typing

variable {settings : Settings}

/-- A variable that is declared with a value has no element type of its own where no other has one:
it takes one over from a variable at most. -/
theorem itemType_of_copied {scope : StaticScope} {input output : Expression} {received ty : Ty}
    {name : String} {isMutable : Bool}
    (hann : annotateExpression settings scope input = .ok (output, received))
    (hassignable : isAssignable ty received = true)
    (hplain : ∀ other binding, scope.lookupVariable other = some binding →
      binding.itemType = .any) :
    VariableBinding.itemType ⟨name, ty, copiedElement output, isMutable⟩ = .any := by
  unfold VariableBinding.itemType
  split
  · next hlist =>
      have hlist : ty = .list := hlist
      subst hlist
      have hreceived : received = .list := by
        cases received <;> simp_all [isAssignable]
      -- Only a variable that is copied by name brings an element type with it.
      cases rule_of_annotateExpression hann with
      | access hstatic =>
          have hother := hplain _ _ hstatic
          unfold VariableBinding.itemType at hother
          rwa [if_pos hreceived] at hother
      | _ => rfl
  · rfl

theorem GlobalRule.itemType {input output : Global} {binding : VariableBinding} {c : Context}
    (h : GlobalRule settings c input output binding)
    (hlist : ∀ elements ty typeName, input.value = some (.list elements ty) →
      input.typeName = some typeName → settings.names.resolve typeName = .ok .any)
    (hplain : ∀ name binding, c.scope.lookupVariable name = some binding →
      binding.itemType = .any) : binding.itemType = .any := by
  cases h with
  | declared _ =>
      unfold VariableBinding.itemType
      split <;> rfl
  | @list value elements received declared hvalue hdeclared hann =>
      cases rule_of_annotateExpression hann with
      | list _ =>
          show declared.getD .any = .any
          cases htypeName : input.typeName with
          | none =>
              rw [htypeName] at hdeclared
              cases hdeclared
              rfl
          | some typeName =>
              have hany := hlist _ _ _ hvalue htypeName
              rw [htypeName, TypeNames.resolveOptional, hany] at hdeclared
              cases hdeclared
              rfl
  | other _ hann hassignable => exact itemType_of_copied hann hassignable hplain

/-- No global has an element type of its own. The induction is on the globals: each may take over
the element type of one in front of it. -/
theorem itemType_of_annotateGlobals {funs : List ((String × Nat) × Signature)} :
    ∀ {inputs outputs : List Global} {c c' : Context} {vars : List (String × VariableBinding)},
      annotateEach (annotateGlobal settings) inputs c = .ok outputs c' →
      c.scope = .root ⟨vars, funs⟩ → (∀ entry ∈ vars, entry.2.itemType = .any) →
      (∀ global ∈ inputs, ∀ elements ty typeName, global.value = some (.list elements ty) →
        global.typeName = some typeName → settings.names.resolve typeName = .ok .any) →
        ∀ global ∈ outputs, (globalEntry global).2.itemType = .any := by
  intro inputs
  induction inputs with
  | nil =>
      intro outputs c c' vars h _ _ _ global hmem
      obtain ⟨rfl, -⟩ := annotateEach_nil h
      cases hmem
  | cons input inputs ih =>
      intro outputs c c' vars h hscope hplain hlists
      obtain ⟨output, c₁, others, hfirst, hrest, rfl⟩ := annotateEach_cons h
      obtain ⟨binding, scope, hrule, hdefine, hscope₁⟩ := rule_of_annotateGlobal hfirst
      have hbinding : binding.itemType = .any :=
        hrule.itemType (hlists input List.mem_cons_self) fun name other hfound => by
          rw [hscope] at hfound
          exact hplain (name, other) (mem_of_lookup hfound)
      rw [hscope] at hdefine
      obtain ⟨-, rfl⟩ := Scope.defineVariable?_eq_some.mp hdefine
      have hplain₁ : ∀ entry ∈ (input.name, binding) :: vars, entry.2.itemType = .any := by
        intro entry hmem
        rcases List.mem_cons.mp hmem with rfl | hmem
        · exact hbinding
        · exact hplain entry hmem
      have hothers := ih hrest hscope₁ hplain₁ fun global hmem =>
        hlists global (List.mem_cons_of_mem _ hmem)
      intro global hmem
      rcases List.mem_cons.mp hmem with rfl | hmem
      · rwa [hrule.entry.1]
      · exact hothers global hmem

end Typing

end TinyScript
