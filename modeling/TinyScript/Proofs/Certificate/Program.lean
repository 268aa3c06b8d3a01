import TinyScript.Proofs.Certificate.Checking
import TinyScript.Proofs.Stage

/-!
# Checked programs keep to the rules

The root frame of the checker holds, at every point of its passes over globals and functions, just
what the recorded annotations say at that point (`viewAt`). So every global and every function keeps
to its rule in the view that belongs to it (`certifiesProgram_of_accepts`).
-/

namespace TinyScript

open Typing

namespace Certificate

variable {settings : Settings}

/-! ## Views of the root frame -/

/-- A root frame with the entries of a view is known as the view says. -/
theorem View.Agrees.of_root {view : View} {scope : StaticScope}
    (hscope : scope = .root ⟨view.visible, view.signatures⟩)
    (harity : ∀ entry ∈ view.signatures, entry.2.parameters.length = entry.1.2) :
    view.Agrees scope := by
  subst hscope
  refine ⟨fun name => rfl, fun name arity => ?_, fun name arity signature hfound => ?_⟩
  · show _ = (Option.map _ (List.lookup (name, arity) view.signatures)).map Prod.fst
    cases view.signatures.lookup (name, arity) <;> rfl
  · exact harity _ (mem_of_lookup hfound)

/-- Parameters are bound one by one. -/
theorem agrees_of_defineParameters {Tree : Type} {tree : Tree} :
    ∀ {parameters : List Parameter} {types : List Ty} {view : View} {c c' : Context} {u : Unit},
      defineParameters tree parameters types c = .ok u c' → view.Agrees c.scope →
        (view.bindAll ((parameters.zip types).map fun (parameter, ty) =>
          ⟨parameter.name, ty, none, true⟩)).Agrees c'.scope ∧ c'.returning = c.returning := by
  intro parameters
  induction parameters with
  | nil =>
      intro types view c c' u h hagrees
      simp only [defineParameters, pure_eq_ok] at h
      rw [← h.2]
      exact ⟨hagrees, rfl⟩
  | cons parameter parameters ih =>
      intro types view c c' u h hagrees
      cases types with
      | nil =>
          simp only [defineParameters, pure_eq_ok] at h
          rw [← h.2]
          exact ⟨hagrees, rfl⟩
      | cons ty types =>
          simp only [defineParameters, bind_eq_ok, Check.define_eq_ok] at h
          obtain ⟨_, _, ⟨scope, hdefine, rfl⟩, hrest⟩ := h
          have hbound : (view.bind ⟨parameter.name, ty, none, true⟩).Agrees scope :=
            hagrees.define hdefine
          obtain ⟨hagrees', hreturning⟩ := ih hrest hbound
          exact ⟨hagrees', hreturning⟩

/-! ## Signatures on the way -/

theorem replaceEntry_middle {κ α : Type} [BEq κ] [LawfulBEq κ] {key : κ} {value value' : α}
    {front behind : List (κ × α)} (h : key ∉ front.map Prod.fst) :
    replaceEntry key value' (front ++ (key, value) :: behind) =
      front ++ (key, value') :: behind := by
  induction front with
  | nil => simp [replaceEntry]
  | cons entry front ih =>
      rw [List.map_cons, List.mem_cons, not_or] at h
      obtain ⟨k, v⟩ := entry
      have hne : (key == k) = false := beq_false_of_ne h.1
      simp [replaceEntry, hne, ih h.2]

/-- Up to its body, a function shows the signature under which it has been registered. -/
theorem shown_of_annotateFunction {input output : Function} {signature : Signature} {c c' : Context}
    (h : annotateFunction settings input c = .ok output c')
    (hregistered : Registered input signature) :
    shown output = some (signatureEntry input) := by
  obtain ⟨after, hrule⟩ := rule_of_annotateFunction h
  unfold signatureEntry
  rw [hregistered.declared]
  cases hrule with
  | declared hsignature hdeclared =>
      obtain rfl := Option.some.inj (hregistered.declared.symm.trans hsignature)
      simp [shown, hsignature, hdeclared, Function.arity]
  | inferred hsignature hnone =>
      obtain rfl := Option.some.inj (hregistered.declared.symm.trans hsignature)
      simp [shown, hnone, Function.arity, ← hregistered.returns hnone]

/-- The signatures that are shown up to the bodies are those under which functions are
registered. -/
theorem shown_of_annotateFunctions : ∀ {inputs outputs : List Function} {c c' : Context},
    annotateEach (annotateFunction settings) inputs c = .ok outputs c' →
      (∀ input ∈ inputs, ∃ signature, Registered input signature) →
        outputs.filterMap shown = inputs.map signatureEntry := by
  intro inputs
  induction inputs with
  | nil =>
      intro outputs c c' h _
      obtain ⟨rfl, -⟩ := annotateEach_nil h
      rfl
  | cons input inputs ih =>
      intro outputs c c' h hregistered
      obtain ⟨output, c₁, others, hfirst, hrest, rfl⟩ := annotateEach_cons h
      obtain ⟨signature, hsignature⟩ := hregistered input List.mem_cons_self
      rw [List.filterMap_cons_some (shown_of_annotateFunction hfirst hsignature), List.map_cons,
        ih hrest fun other hmem => hregistered other (List.mem_cons_of_mem _ hmem)]

/-- The entries of functions, latest first, and that of the function that prints. -/
def entriesOf (entries : List ((String × Nat) × Signature)) : List ((String × Nat) × Signature) :=
  entries.reverse ++ [(("print", 1), printSignature)]

theorem entriesOf_middle (front behind : List ((String × Nat) × Signature))
    (entry : (String × Nat) × Signature) :
    entriesOf (front ++ entry :: behind) = behind.reverse ++ entry :: entriesOf front := by
  simp [entriesOf]

/-- When the body of a function has been checked, its entry is the one that is known behind it. -/
theorem scope_of_annotateFunction {vars : List (String × VariableBinding)}
    {front behind : List ((String × Nat) × Signature)} {input output : Function}
    {signature : Signature} {c c' : Context}
    (h : annotateFunction settings input c = .ok output c')
    (hregistered : Registered input signature)
    (hscope : c.scope = .root ⟨vars, entriesOf (front ++ signatureEntry input :: behind)⟩)
    (hfree : (input.name, input.arity) ∉ behind.map Prod.fst) :
    ∃ entry, known output = some entry ∧ entry.1 = (input.name, input.arity) ∧
      entry.2.parameters.length = entry.1.2 ∧
      c'.scope = .root ⟨vars, entriesOf (front ++ entry :: behind)⟩ := by
  have hentry : signatureEntry input = ((input.name, input.arity), signature) := by
    rw [signatureEntry, hregistered.declared]
    rfl
  have hkeys : (input.name, input.arity) ∉ behind.reverse.map Prod.fst := by
    rwa [List.map_reverse, List.mem_reverse]
  rw [hentry, entriesOf_middle] at hscope
  obtain ⟨after, hrule⟩ := rule_of_annotateFunction h
  cases hrule with
  | declared hsignature _ _ _ hscope' =>
      obtain rfl := Option.some.inj (hregistered.declared.symm.trans hsignature)
      refine ⟨_, by simp [known, hsignature]; rfl, rfl, hregistered.arity, ?_⟩
      rw [hscope', hscope, entriesOf_middle]
      rfl
  | @inferred _ _ _ body returns _ hsignature _ _ _ _ hresult =>
      obtain rfl := Option.some.inj (hregistered.declared.symm.trans hsignature)
      refine ⟨((input.name, input.arity), { signature with returns }), rfl, rfl,
        hregistered.arity, ?_⟩
      have hfound : c.scope.current.lookupFunction input.name input.arity = some signature := by
        rw [hscope]
        show List.lookup _ (behind.reverse ++ _) = _
        rw [lookup_append_of_disjoint (lookup_eq_none_iff_keys.mpr hkeys), List.lookup_cons_self]
      rcases hresult with ⟨hnone, -⟩ | ⟨found, hfound', hscope'⟩
      · rw [hnone] at hfound
        cases hfound
      · obtain rfl := Option.some.inj (hfound.symm.trans hfound')
        rw [hscope', hscope, entriesOf_middle]
        exact congrArg (fun funs => Scope.root ⟨vars, funs⟩) (replaceEntry_middle hkeys)

/-- Behind the bodies of some functions the root frame holds what is known of these, and what the
others show. -/
theorem scope_of_annotateFunctions {vars : List (String × VariableBinding)} :
    ∀ {inputs outputs : List Function} {c c' : Context}
      {front behind : List ((String × Nat) × Signature)},
      annotateEach (annotateFunction settings) inputs c = .ok outputs c' →
      (∀ input ∈ inputs, ∃ signature, Registered input signature) →
      c.scope = .root ⟨vars, entriesOf (front ++ (inputs.map signatureEntry ++ behind))⟩ →
      ((inputs.map signatureEntry ++ behind).map Prod.fst).Nodup →
      (∀ entry ∈ outputs.filterMap known, entry.2.parameters.length = entry.1.2) ∧
        c'.scope = .root ⟨vars, entriesOf (front ++ (outputs.filterMap known ++ behind))⟩ := by
  intro inputs
  induction inputs with
  | nil =>
      intro outputs c c' front behind h _ hscope _
      obtain ⟨rfl, rfl⟩ := annotateEach_nil h
      exact ⟨nofun, hscope⟩
  | cons input inputs ih =>
      intro outputs c c' front behind h hregistered hscope hdistinct
      obtain ⟨output, c₁, others, hfirst, hrest, rfl⟩ := annotateEach_cons h
      obtain ⟨signature, hsignature⟩ := hregistered input List.mem_cons_self
      rw [List.map_cons, List.cons_append, List.map_cons, List.nodup_cons] at hdistinct
      obtain ⟨entry, hknown, hkey, harity, hscope₁⟩ :=
        scope_of_annotateFunction hfirst hsignature hscope hdistinct.1
      rw [← List.singleton_append, ← List.append_assoc] at hscope₁
      obtain ⟨hothers, hscope'⟩ := ih hrest
        (fun other hmem => hregistered other (List.mem_cons_of_mem _ hmem)) hscope₁ hdistinct.2
      rw [List.filterMap_cons_some hknown]
      refine ⟨?_, by rw [hscope', List.append_assoc]; rfl⟩
      rintro other hmem
      rcases List.mem_cons.mp hmem with rfl | hmem
      · exact harity
      · exact hothers other hmem

theorem length_registered {functions : List Function}
    (h : ∀ function ∈ functions, ∃ signature, Registered function signature) :
    ∀ entry ∈ functions.map signatureEntry, entry.2.parameters.length = entry.1.2 := by
  rintro entry hmem
  obtain ⟨function, hfunction, rfl⟩ := List.mem_map.mp hmem
  obtain ⟨signature, hsignature⟩ := h function hfunction
  rw [signatureEntry, hsignature.declared]
  exact hsignature.arity

theorem length_entriesOf {entries : List ((String × Nat) × Signature)}
    (h : ∀ entry ∈ entries, entry.2.parameters.length = entry.1.2) :
    ∀ entry ∈ entriesOf entries, entry.2.parameters.length = entry.1.2 := by
  rintro entry hmem
  rcases List.mem_append.mp hmem with hmem | hmem
  · exact h entry (List.mem_reverse.mp hmem)
  · rw [List.mem_singleton.mp hmem]
    rfl

/-! ## Globals -/

theorem recorded_of_annotateGlobal {input output : Global} {c c' : Context}
    (h : annotateGlobal settings input c = .ok output c') :
    output.binding.map (fun binding => (binding.name, binding)) = some (globalEntry output) := by
  obtain ⟨binding, scope, hrule, -, -⟩ := rule_of_annotateGlobal h
  cases hrule <;> rfl

/-- The recorded bindings of globals are those that the root frame holds. -/
theorem visible_of_annotateGlobals : ∀ {inputs outputs : List Global} {c c' : Context},
    annotateEach (annotateGlobal settings) inputs c = .ok outputs c' →
      (outputs.filterMap Global.binding).map (fun binding => (binding.name, binding)) =
        outputs.map globalEntry := by
  intro inputs
  induction inputs with
  | nil =>
      intro outputs c c' h
      obtain ⟨rfl, -⟩ := annotateEach_nil h
      rfl
  | cons input inputs ih =>
      intro outputs c c' h
      obtain ⟨output, c₁, others, hfirst, hrest, rfl⟩ := annotateEach_cons h
      obtain ⟨binding, hbinding, hentry⟩ :=
        Option.map_eq_some_iff.mp (recorded_of_annotateGlobal hfirst)
      rw [List.filterMap_cons_some hbinding, List.map_cons, List.map_cons, hentry, ih hrest]

theorem requireElements_eq_ok {element : Ty} {values : List Expression} {u : Unit} :
    requireElements element values = .ok u ↔
      ∀ value ∈ values, isAssignable element (value.ty.getD .any) = true := by
  induction values with
  | nil => simp [requireElements]
  | cons value values ih =>
      simp [requireElements, Except.bind_eq_ok, requireAssignable_eq_ok, ih]

theorem certifies_of_annotateGlobal {view : View} {input output : Global} {c c' : Context}
    (h : annotateGlobal settings input c = .ok output c') (hagrees : view.Agrees c.scope) :
    CertifiesGlobal settings.names view output := by
  obtain ⟨name, typeName, isMutable, value, old⟩ := input
  obtain ⟨binding, scope, hrule, -, -⟩ := rule_of_annotateGlobal h
  cases hrule with
  | declared _ hdeclared => exact .declared hdeclared
  | list _ hdeclared hann helements =>
      obtain rfl : _ = some Ty.list := ty_of_annotateExpression hann
      have hlist := certifies_of_annotateExpression hagrees _ hann
      refine .list hdeclared hlist fun element hmem => ?_
      cases hlist with
      | list hcertified =>
          obtain ⟨ty, hty⟩ := hcertified.ty element hmem
          have hassignable := requireElements_eq_ok.mp helements element hmem
          rw [hty] at hassignable
          exact ⟨ty, hty, hassignable⟩
  | other _ hann hassignable hdeclared hty hlist =>
      subst hty
      exact .other hdeclared (certifies_of_annotateExpression hagrees _ hann) hassignable hlist

/-! ## Functions -/

theorem declaredSignature_eq_ok {names : TypeNames} {function : Function} {signature : Signature} :
    declaredSignature names function = .ok signature ↔
      ∃ parameters returns, parameterTypes names function.parameters = .ok parameters ∧
        names.resolveOptional function.returnTypeName = .ok returns ∧
        ⟨function.name, parameters, returns.getD .any⟩ = signature := by
  simp only [declaredSignature, Except.bind_eq_ok, Except.pure_eq_ok]
  constructor
  · rintro ⟨parameters, hparameters, returns, hreturns, heq⟩
    exact ⟨parameters, returns, hparameters, hreturns, heq⟩
  · rintro ⟨parameters, returns, hparameters, hreturns, heq⟩
    exact ⟨parameters, hparameters, returns, hreturns, heq⟩

theorem resolve_of_resolveOptional {names : TypeNames} {name : String} {found : Option Ty}
    (h : names.resolveOptional (some name) = .ok found) :
    names.resolve name = .ok (found.getD .any) := by
  obtain ⟨ty, hty, rfl⟩ := Except.map_eq_ok.mp h
  exact hty

/-- A function keeps to its rule where the frame around its body knows names as the view does. -/
theorem certifies_of_annotateFunction {view : View} {input output : Function}
    {signature : Signature} {c c' : Context}
    (h : annotateFunction settings input c = .ok output c') (hagrees : view.Agrees c.scope)
    (hrecorded : input.signature = some signature)
    (hdeclares : declaredSignature settings.names input = .ok signature) :
    ∃ final, CertifiesFunction settings.names view output final := by
  obtain ⟨types, returns, htypes, hreturns, rfl⟩ := declaredSignature_eq_ok.mp hdeclares
  obtain ⟨after, hrule⟩ := rule_of_annotateFunction h
  cases hrule with
  | @declared signature start _ body _ hsignature hdeclared hparameters hbody _ =>
      obtain rfl := Option.some.inj (hrecorded.symm.trans hsignature)
      obtain ⟨hstart, hreturning⟩ := agrees_of_defineParameters hparameters hagrees.enter
      have hknown : start.returning = some (some (returns.getD .any)) := by
        rw [hreturning]
        simp [Context.body, hdeclared]
      refine ⟨_, hrecorded, rfl, htypes, ?_, ?_, ?_⟩
      · intro typeName htypeName
        rw [show input.returnTypeName = some typeName from htypeName] at hreturns
        exact resolve_of_resolveOptional hreturns
      · intro hnone
        rw [show input.returnTypeName = none from hnone] at hdeclared
        cases hdeclared
      · obtain ⟨inner, hinner, -⟩ := certifies_of_annotateStatements _ hbody hstart fun ty hty => by
          have hafter := (extends_of_annotateStatements _ hbody).returning _ hknown
          exact Option.some.inj (Option.some.inj (hty.symm.trans hafter))
        exact ⟨inner, hinner⟩
  | @inferred signature start _ body returns' _ hsignature hnone hparameters hbody hresult _ =>
      obtain rfl := Option.some.inj (hrecorded.symm.trans hsignature)
      obtain ⟨hstart, hreturning⟩ := agrees_of_defineParameters hparameters hagrees.enter
      have hunknown : start.returning = some none := by
        rw [hreturning]
        simp [Context.body, hnone]
      refine ⟨_, rfl, rfl, htypes, ?_, ?_, ?_⟩
      · intro typeName htypeName
        rw [show input.returnTypeName = some typeName from htypeName] at hnone
        cases hnone
      · intro _
        rcases infers_of_annotateStatements _ hbody hunknown with
          ⟨hempty, hafter⟩ | ⟨ty, rest, hfirst, hafter⟩
        · rw [hresult, hafter, firstResultType, hempty]
          rfl
        · rw [hresult, hafter, firstResultType, hfirst]
          rfl
      · have hreturns : ∀ ty, after.returning = some (some ty) → ty = returns' := by
          intro ty hty
          rw [hresult, hty]
          rfl
        obtain ⟨inner, hinner, -⟩ := certifies_of_annotateStatements _ hbody hstart hreturns
        exact ⟨inner, hinner⟩

/-! ## Programs -/

section Programs

variable {source annotated : Program} {functions : List Function} {c₀ c₁ c₂ : Context}
  (h : Accepts settings source annotated functions c₀ c₁ c₂)
include h

/-- In front of the bodies calls see what functions show. -/
theorem shown_of_accepts : annotated.functions.filterMap shown = functions.map signatureEntry :=
  shown_of_annotateFunctions h.bodies (scope_of_registered h.registered).2.2.1

/-- Every global keeps to its rule. -/
theorem certifiesGlobal_of_accepts {earlier later : List Global} {global : Global}
    (hsplit : annotated.globals = earlier ++ global :: later) :
    CertifiesGlobal settings.names (viewAt earlier [] annotated.functions) global := by
  obtain ⟨hroot, -, hregistered, -⟩ := scope_of_registered h.registered
  have hglobals := h.globals
  rw [hsplit] at hglobals
  obtain ⟨inputs, input, _, c, _, -, hearlier, hglobal⟩ := annotateEach_middle hglobals
  obtain ⟨hscope, -, -⟩ := scope_of_annotateGlobals hearlier hroot List.nodup_nil
  have hview : c.scope = .root ⟨(viewAt earlier [] annotated.functions).visible,
      (viewAt earlier [] annotated.functions).signatures⟩ := by
    simp [hscope, viewAt, visible_of_annotateGlobals hearlier, shown_of_accepts h,
      registeredEntries]
  refine certifies_of_annotateGlobal hglobal (.of_root hview ?_)
  have hlength := length_entriesOf (length_registered hregistered)
  simpa [viewAt, shown_of_accepts h, entriesOf] using hlength

/-- The functions behind some first ones show what is registered of them. -/
theorem shown_behind {earlier later : List Function} {inputs rest : List Function} {c : Context}
    (hsplit : annotated.functions = earlier ++ later) (hinputs : functions = inputs ++ rest)
    (hearlier : annotateEach (annotateFunction settings) inputs c₁ = .ok earlier c) :
    later.filterMap shown = rest.map signatureEntry := by
  have hregistered := (scope_of_registered h.registered).2.2.1
  have hall := shown_of_accepts h
  rw [hsplit, hinputs, List.filterMap_append, List.map_append,
    shown_of_annotateFunctions hearlier fun input hmem =>
      hregistered input (hinputs ▸ List.mem_append_left _ hmem)] at hall
  exact List.append_cancel_left hall

/-- Every function keeps to its rule. -/
theorem certifiesFunction_of_accepts {earlier later : List Function} {function : Function}
    (hsplit : annotated.functions = earlier ++ function :: later) :
    ∃ signature, CertifiesFunction settings.names
      (viewAt annotated.globals earlier (function :: later)) function signature := by
  obtain ⟨-, hdistinct, hregistered, -⟩ := scope_of_registered h.registered
  have hbodies := h.bodies
  rw [hsplit] at hbodies
  obtain ⟨inputs, input, rest, c, _, hinputs, hearlier, hfunction⟩ := annotateEach_middle hbodies
  have hshown := shown_behind h hsplit hinputs hearlier
  have hentries : c₁.scope = .root ⟨(annotated.globals.map globalEntry).reverse,
      entriesOf ([] ++ (inputs.map signatureEntry ++ (input :: rest).map signatureEntry))⟩ := by
    rw [List.nil_append, ← List.map_append, ← hinputs]
    exact h.scope_globals.1
  have hkeys :
      ((inputs.map signatureEntry ++ (input :: rest).map signatureEntry).map Prod.fst).Nodup := by
    rw [registeredEntries, List.map_append, List.nodup_append, List.map_reverse,
      List.nodup_reverse] at hdistinct
    rw [← List.map_append, ← hinputs]
    exact hdistinct.1
  obtain ⟨hfront, hscope⟩ := scope_of_annotateFunctions hearlier
    (fun other hmem => hregistered other (hinputs ▸ List.mem_append_left _ hmem)) hentries hkeys
  have hview : c.scope =
      .root ⟨(viewAt annotated.globals earlier (function :: later)).visible,
        (viewAt annotated.globals earlier (function :: later)).signatures⟩ := by
    rw [hscope, ← visible_of_annotateGlobals h.globals, ← hshown]
    rfl
  have hlength : ∀ entry ∈ (viewAt annotated.globals earlier (function :: later)).signatures,
      entry.2.parameters.length = entry.1.2 := by
    refine length_entriesOf fun entry hmem => ?_
    rcases List.mem_append.mp hmem with hmem | hmem
    · exact hfront entry hmem
    · rw [hshown] at hmem
      exact length_registered (fun other hother => hregistered other
        (hinputs ▸ List.mem_append_right _ hother)) entry hmem
  have hmem : input ∈ functions := by
    rw [hinputs]
    exact List.mem_append_right _ List.mem_cons_self
  obtain ⟨signature, hrecorded, hdeclares⟩ :=
    forall_of_annotateEach declares_of_registerFunction h.registered input hmem
  exact certifies_of_annotateFunction hfunction (.of_root hview hlength) hrecorded hdeclares

/-- An accepted program keeps to the rules. -/
theorem certifiesProgram_of_accepts : CertifiesProgram settings.names annotated where
  globals _ _ _ hsplit := certifiesGlobal_of_accepts h hsplit
  functions _ _ _ hsplit := certifiesFunction_of_accepts h hsplit

end Programs

end Certificate

end TinyScript
