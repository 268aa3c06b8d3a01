import TinyScript.Proofs.Fitting

/-!
# Expressions come to what the checker says

One lemma for each rule by which an expression finishes: if the parts are sound, so is the whole.
Calls are no exception, since the body of a function is a task that fits the machine in which the
call takes it up (`Fitting.enterBody`).
-/

namespace TinyScript

open Typing Run

section Sound

variable {stage : Stage} {settings : RunSettings} {w : Elements} {R : Ty} {c after : Context}
  {m m₁ m' : Machine}

/-! ## Expressions -/

theorem typed_of_annotate {input output : Expression} {ty : Ty} {element : Ty} {v : Value}
    (h : annotateExpression stage.settings c.scope input = .ok (output, ty))
    (hfits : v.Fits stage.discipline w ty element) : Typed stage w output element v :=
  ⟨ty, ty_of_annotateExpression h, hfits⟩

theorem Typed.fits {input output : Expression} {ty : Ty} {element : Ty} {v : Value}
    (hv : Typed stage w output element v)
    (h : annotateExpression stage.settings c.scope input = .ok (output, ty)) :
    v.Fits stage.discipline w ty element := by
  obtain ⟨ty', hty', hfits⟩ := hv
  rw [ty_of_annotateExpression h] at hty'
  cases hty'
  exact hfits

theorem sound_literal {value : Literal} {ty : Option Ty} :
    Sound stage (.expression (.literal value ty)) m (.value (.ofLiteral value)) m := by
  intro w R item c after h
  cases h.checks with
  | expression hann =>
      cases rule_of_annotateExpression hann with
      | literal hty =>
          intro element _
          refine ⟨w, .refl w, h.stands, typed_of_annotate hann (Value.fits_of_conforms ?_ ?_)⟩
          · exact Value.conforms_ofLiteral hty
          · intro id
            cases value <;> simp [Value.ofLiteral]

theorem sound_group {inner : Expression} {ty : Option Ty} {v : Value}
    (hinner : Sound stage (.expression inner) m (.value v) m') :
    Sound stage (.expression (.group inner ty)) m (.value v) m' := by
  intro w R item c after h
  cases h.checks with
  | expression hann =>
      cases rule_of_annotateExpression hann with
      | group hpart =>
          intro element helement
          obtain ⟨later, hext, hstands, htyped⟩ :=
            hinner (Fitting.of_expression (R := R) hpart h.stands h.keeps) element helement
          exact ⟨later, hext, hstands, typed_of_annotate hann (htyped.fits hpart)⟩

theorem sound_decided {operator : Operator} {left right : Expression} {ty : Option Ty} {a : Value}
    {truth : Bool} (hlogical : operator.isLogical = true)
    (hleft : Sound stage (.expression left) m (.value a) m') :
    Sound stage (.expression (.binary operator left right ty)) m (.value (.boolean truth)) m' := by
  intro w R item c after h
  cases h.checks with
  | expression hann =>
      cases rule_of_annotateExpression hann with
      | binary hl hr hty =>
          obtain ⟨-, -, rfl⟩ := Operator.operatorType_of_isLogical hlogical hty
          intro element _
          obtain ⟨later, hext, hstands, -⟩ := hleft.value hl h.stands h.keeps.left
          exact ⟨later, hext, hstands, typed_of_annotate hann
            (Value.fits_of_conforms (Value.conforms_kind (.boolean truth)) (by simp))⟩

/-- Both operands of an operator, one after the other. -/
theorem Sound.operands {left left' right right' : Expression} {leftTy rightTy : Ty} {a b : Value}
    (hleft : Sound stage (.expression left') m (.value a) m₁)
    (hright : Sound stage (.expression right') m₁ (.value b) m')
    (hl : annotateExpression stage.settings c.scope left = .ok (left', leftTy))
    (hr : annotateExpression stage.settings c.scope right = .ok (right', rightTy))
    (hstands : Stands stage w c.scope m)
    (hkeeps : stage.Keeps (left'.transfers ++ right'.transfers)) :
    ∃ later, w.Extends later ∧ Stands stage later c.scope m' ∧
      (stage.discipline ≠ .names → a.Conforms leftTy ∧ b.Conforms rightTy) := by
  obtain ⟨w₁, hext₁, hstands₁, _, ha⟩ := hleft.value hl hstands hkeeps.left
  obtain ⟨w₂, hext₂, hstands₂, _, hb⟩ := hright.value hr hstands₁ hkeeps.right
  exact ⟨w₂, hext₁.trans hext₂, hstands₂,
    fun hd => ⟨(ha.fits hl).1 hd, (hb.fits hr).1 hd⟩⟩

theorem sound_undecided {operator : Operator} {left right : Expression} {ty : Option Ty}
    {a b : Value} {truth : Bool} (hlogical : operator.isLogical = true)
    (hleft : Sound stage (.expression left) m (.value a) m₁)
    (hright : Sound stage (.expression right) m₁ (.value b) m') :
    Sound stage (.expression (.binary operator left right ty)) m (.value (.boolean truth)) m' := by
  intro w R item c after h
  cases h.checks with
  | expression hann =>
      cases rule_of_annotateExpression hann with
      | binary hl hr hty =>
          obtain ⟨-, -, rfl⟩ := Operator.operatorType_of_isLogical hlogical hty
          intro element _
          obtain ⟨later, hext, hstands, -⟩ := hleft.operands hright hl hr h.stands h.keeps
          exact ⟨later, hext, hstands, typed_of_annotate hann
            (Value.fits_of_conforms (Value.conforms_kind (.boolean truth)) (by simp))⟩

theorem sound_operation {operator : Operator} {left right : Expression} {ty : Option Ty}
    {a b v : Value} (hlogical : operator.isLogical = false)
    (hleft : Sound stage (.expression left) m (.value a) m₁)
    (hright : Sound stage (.expression right) m₁ (.value b) m')
    (hv : operator.apply settings.negativeExponent m'.lists.text a b = .ok v) :
    Sound stage (.expression (.binary operator left right ty)) m (.value v) m' := by
  intro w R item c after h
  cases h.checks with
  | expression hann =>
      cases rule_of_annotateExpression hann with
      | @binary _ _ _ _ _ _ _ _ ty hl hr hty =>
          intro element _
          obtain ⟨later, hext, hstands, hoperands⟩ := hleft.operands hright hl hr h.stands h.keeps
          refine ⟨later, hext, hstands, typed_of_annotate hann ⟨fun hd => ?_, fun _ id hid => ?_⟩⟩
          · obtain ⟨ha, hb⟩ := hoperands hd
            rcases Operator.computes_of_operatorType settings.negativeExponent m'.lists.text hty
              hlogical ha hb with hcomputes | hincomparable
            · rw [hv] at hcomputes
              cases hcomputes with
              | value hconforms => exact hconforms
            · rw [hv] at hincomparable
              cases hincomparable
          · exact absurd hid (Operator.apply_ne_list hv id)

theorem sound_access {name : String} {binding : Option VariableBinding} {ty : Option Ty}
    {found : Variable} (hfound : m.scope.lookupVariable name = some found) :
    Sound stage (.expression (.access name binding ty)) m (.value found.value) m := by
  intro w R item c after h
  cases h.checks with
  | expression hann =>
      cases rule_of_annotateExpression hann with
      | access hstatic =>
          intro element helement
          refine ⟨w, .refl w, h.stands, typed_of_annotate hann ?_⟩
          have hbinds := h.stands.agrees.binds_of_lookup hstatic hfound
          refine ⟨hbinds.fits.1, fun hd id hid => ?_⟩
          rw [← show _ = element from helement hd]
          exact hbinds.fits.2 hd id hid

/-- An element has the type of what is found in the lists that a variable holds. -/
theorem elementType_eq_ok {binding : VariableBinding} {name : String} {index ty : Ty}
    (h : elementType binding name index = .ok ty) : index = .integer ∧ ty = binding.itemType := by
  simp only [elementType, Except.bind_eq_ok, requireExact_eq_ok] at h
  obtain ⟨_, rfl, h⟩ := h
  refine ⟨rfl, ?_⟩
  unfold VariableBinding.itemType
  split at h
  · next hlist =>
      cases h
      rw [if_pos hlist]
  · next hany =>
      cases h
      rw [if_neg (by rw [hany]; decide)]
  · cases h

theorem getD_mem_or_nil (items : Array Value) (slot : Nat) :
    items.getD slot .nil ∈ items ∨ items.getD slot .nil = .nil := by
  rw [Array.getD_eq_getD_getElem?]
  cases h : items[slot]? with
  | none => exact .inr rfl
  | some value => exact .inl (Array.mem_of_getElem? h)

theorem sound_element {name : String} {index : Expression} {binding : Option VariableBinding}
    {ty : Option Ty} {found : Variable} {id : ListId} {position : Value} {slot : Nat}
    (hfound : m.scope.lookupVariable name = some found) (hid : found.value = .list id)
    (hindex : Sound stage (.expression index) m (.value position) m') :
    Sound stage (.expression (.element name index binding ty)) m
      (.value ((m'.lists.items id).getD slot .nil)) m' := by
  intro w R item c after h
  cases h.checks with
  | expression hann =>
      cases rule_of_annotateExpression hann with
      | @element _ _ _ _ _ _ binding ty hstatic hpart hty =>
          obtain ⟨rfl, rfl⟩ := elementType_eq_ok hty
          intro element helement
          obtain ⟨later, hext, hstands, -⟩ := hindex.value hpart h.stands h.keeps
          refine ⟨later, hext, hstands, typed_of_annotate hann ?_⟩
          have hholds : stage.discipline = .elements → Ty.any = element := helement
          -- Only where element types are followed is anything known of the item.
          cases hd : stage.discipline with
          | names => exact ⟨fun hnames => absurd rfl hnames, fun hnames => by cases hnames⟩
          | types =>
              rw [h.stands.agrees.plain hstatic hd]
              exact ⟨fun _ => Value.conforms_any _, fun htypes => by cases htypes⟩
          | elements =>
              have hbinds := h.stands.agrees.binds_of_lookup hstatic hfound
              have hitem := hext id _ (hbinds.fits.2 hd id hid)
              rw [← hholds hd, ← hd]
              rcases getD_mem_or_nil (m'.lists.items id) slot with hmem | hnil
              · exact (hstands.lists hd id _ hitem).2 _ hmem
              · rw [hnil]
                exact Value.fits_nil

/-! ## Expressions in order -/

/-- The first of the expressions that the checker has annotated as arguments or as elements, and
the others. -/
theorem Checks.cons {item : Item} {expression : Expression} {expressions : List Expression}
    (h : Checks stage.settings R item c (.expressions (expression :: expressions)) after) :
    ∃ input ty others,
      annotateExpression stage.settings c.scope input = .ok (expression, ty) ∧
      Typing.Step stage.settings item c 0 (.expression input) c ∧
      Typing.Step stage.settings item c 1 others c ∧
      Checks stage.settings R others c (.expressions expressions) c := by
  cases h with
  | arguments hlength hann =>
      cases rule_of_annotateArguments hann with
      | beyond => cases hlength
      | more hfirst _ hrest =>
          exact ⟨_, _, _, hfirst, .argument, .otherArguments,
            .arguments (Nat.succ.inj hlength) hrest⟩
  | elements hann =>
      cases rule_of_annotateElements hann with
      | more hfirst hrest => exact ⟨_, _, _, hfirst, .element, .otherElements, .elements hrest⟩

theorem sound_noExpression : Sound stage (.expressions []) m (.values []) m := by
  intro w R item c after h element _
  exact ⟨w, .refl w, h.stands, .nil⟩

theorem Typed.mono {w w' : Elements} {expression : Expression} {element : Ty} {v : Value}
    (h : Typed stage w expression element v) (hext : w.Extends w') :
    Typed stage w' expression element v := by
  obtain ⟨ty, hty, hfits⟩ := h
  exact ⟨ty, hty, hfits.mono hext⟩

theorem sound_expressions {expression : Expression} {expressions : List Expression} {v : Value}
    {vs : List Value} (hfirst : Sound stage (.expression expression) m (.value v) m₁)
    (hrest : Sound stage (.expressions expressions) m₁ (.values vs) m') :
    Sound stage (.expressions (expression :: expressions)) m (.values (v :: vs)) m' := by
  intro w R item c after h element helement
  obtain ⟨input, ty, others, hann, -, -, hothers⟩ := h.checks.cons
  obtain ⟨w₁, hext₁, hstands₁, hv⟩ :=
    hfirst (Fitting.of_expression (R := R) hann h.stands h.keeps.left) (element expression)
      fun hd => helement hd _ List.mem_cons_self
  obtain ⟨w₂, hext₂, hstands₂, hvs⟩ := hrest ⟨hothers, hstands₁, h.keeps.right⟩ element
    fun hd other hmem => helement hd other (List.mem_cons_of_mem _ hmem)
  exact ⟨w₂, hext₁.trans hext₂, hstands₂, .cons (hv.mono hext₂) hvs⟩

theorem exists_of_mem_right {α β : Type} {related : α → β → Prop} {left : List α} {right : List β}
    (h : List.Forall₂ related left right) {b : β} (hb : b ∈ right) : ∃ a ∈ left, related a b := by
  induction h with
  | nil => cases hb
  | cons hhead _ ih =>
      rcases List.mem_cons.mp hb with rfl | hb
      · exact ⟨_, List.mem_cons_self, hhead⟩
      · obtain ⟨a, ha, hrelated⟩ := ih hb
        exact ⟨a, List.mem_cons_of_mem _ ha, hrelated⟩

theorem sound_list {elements : List Expression} {ty : Option Ty} {values : List Value}
    (helements : Sound stage (.expressions elements) m (.values values) m') :
    Sound stage (.expression (.list elements ty)) m (.value (.list m'.lists.next))
      { m' with lists := m'.lists.add values.toArray } := by
  intro w R item c after h
  cases h.checks with
  | expression hann =>
      cases rule_of_annotateExpression hann with
      | list hpart =>
          intro element helement
          have hholds : stage.discipline = .elements →
            ∀ value ∈ elements, isAssignable element (value.ty.getD .any) = true := helement
          have hkeeps : stage.Keeps (elements.map (⟨.any, ·⟩) ++ transfersOfExpressions elements) :=
            h.keeps
          obtain ⟨later, hext, hstands, hvalues⟩ :=
            helements (R := R) ⟨.elements hpart, h.stands, hkeeps.right⟩ (fun _ => .any)
              fun hd expression hmem => hkeeps.left hd _ (List.mem_map_of_mem hmem)
          by_cases hd : stage.discipline = .elements
          · -- The list is new, so any element type that all its items fit can be chosen for it.
            have hnew : ∀ v ∈ values, v.Fits stage.discipline later element .any := by
              intro v hv
              obtain ⟨expression, hmem, ty, hty, hfits⟩ := exists_of_mem_right hvalues hv
              have hassignable := hholds hd expression hmem
              rw [hty] at hassignable
              exact hfits.of_isAssignable hassignable
            have hadd := Elements.extends_add (hstands.lists.fresh hd) element
            refine ⟨later.add m'.lists.next element, hext.trans hadd,
              ⟨hstands.agrees.mono hadd, hstands.lists.add fun _ => hnew⟩,
              typed_of_annotate hann ⟨fun _ => Value.conforms_kind (.list _), ?_⟩⟩
            intro _ id hid
            cases hid
            simp [Elements.add]
          · exact ⟨later, hext, ⟨hstands.agrees, fun hd' => absurd hd' hd⟩, typed_of_annotate hann
              ⟨fun _ => Value.conforms_kind (.list _), fun hd' => absurd hd' hd⟩⟩

/-! ## Calls -/

theorem length_annotateArguments {scope : StaticScope} :
    ∀ {inputs outputs : List Expression} {parameters : List Ty},
      annotateArguments stage.settings scope inputs parameters = .ok outputs →
        outputs.length = inputs.length := by
  intro inputs
  induction inputs with
  | nil =>
      intro outputs parameters h
      cases rule_of_annotateArguments h with
      | none => rfl
      | beyond => rfl
  | cons input inputs ih =>
      intro outputs parameters h
      cases rule_of_annotateArguments h with
      | beyond => rfl
      | more _ _ hrest => simp [ih hrest]

/-- The values of accepted arguments fit the parameters that the checker has held them against. -/
theorem fits_of_annotateArguments {scope : StaticScope} :
    ∀ {inputs outputs : List Expression} {parameters : List Ty} {values : List Value},
      annotateArguments stage.settings scope inputs parameters = .ok outputs →
      parameters.length = inputs.length →
      List.Forall₂ (fun expression v => Typed stage w expression .any v) outputs values →
        List.Forall₂ (fun v ty => v.Fits stage.discipline w ty .any) values parameters := by
  intro inputs
  induction inputs with
  | nil =>
      intro outputs parameters values h hlength hvalues
      obtain rfl := List.eq_nil_of_length_eq_zero hlength
      have hnone := length_annotateArguments h
      obtain rfl := List.eq_nil_of_length_eq_zero hnone
      cases hvalues
      exact .nil
  | cons input inputs ih =>
      intro outputs parameters values h hlength hvalues
      cases rule_of_annotateArguments h with
      | beyond => cases hlength
      | more hfirst hassignable hrest =>
          cases hvalues with
          | cons hv hvs =>
              obtain ⟨ty, hty, hfits⟩ := hv
              rw [ty_of_annotateExpression hfirst] at hty
              cases hty
              exact .cons (hfits.of_isAssignable hassignable)
                (ih hrest (Nat.succ.inj hlength) hvs)

/-- A signature that links to what a name and an arity are bound to has so many parameters. -/
theorem Stage.arity {name : String} {arity : Nat} {callable : Callable} {signature : Signature}
    (hfound : stage.functions.lookup (name, arity) = some callable)
    (hlinks : Links signature callable) : signature.parameters.length = arity := by
  have hmem := mem_of_lookup hfound
  cases callable with
  | print =>
      have hkey := stage.print _ hmem
      rw [show signature = printSignature from hlinks, (Prod.mk.inj hkey).2]
      rfl
  | function function =>
      obtain ⟨-, final, hfinal, hparameters, -⟩ := hlinks
      obtain ⟨hkey, _, signature', _, _, _, _, hbody⟩ := stage.bodies _ _ hmem
      obtain rfl : final = signature' := Option.some.inj (hfinal.symm.trans hbody.declared)
      rw [hparameters, hbody.arity, (Prod.mk.inj hkey).2]

/-- A parameter, or a variable declared without a value, holds lists of anything. -/
theorem binds_plain {name : String} {ty : Ty} {v : Value}
    (hfits : v.Fits stage.discipline w ty .any) :
    Binds stage.discipline w ⟨name, ty, none, true⟩ ⟨true, v⟩ := by
  have hitem : VariableBinding.itemType ⟨name, ty, none, true⟩ = .any := by
    unfold VariableBinding.itemType
    split <;> rfl
  exact ⟨rfl, by rwa [hitem], fun _ => hitem⟩

/-- Parameters that the checker can bind to types can be bound to values that fit the types. -/
theorem Stands.parameters {Tree : Type} {tree : Tree} :
    ∀ {parameters : List Parameter} {types : List Ty} {values : List Value} {c c' : Context}
      {m : Machine}, defineParameters tree parameters types c = .ok () c' →
      Stands stage w c.scope m → 0 < c.scope.depth →
      List.Forall₂ (fun v ty => v.Fits stage.discipline w ty .any) values types →
        ∃ m', bindParameters parameters values m = .ok () m' ∧ Stands stage w c'.scope m' := by
  intro parameters
  induction parameters with
  | nil =>
      intro types values c c' m h hstands _ _
      simp only [defineParameters, pure_eq_ok] at h
      rw [← h.2]
      exact ⟨m, rfl, hstands⟩
  | cons parameter parameters ih =>
      intro types values c c' m h hstands hblock hvalues
      cases hvalues with
      | nil =>
          simp only [defineParameters, pure_eq_ok] at h
          rw [← h.2]
          exact ⟨m, rfl, hstands⟩
      | @cons v ty values types hv hvs =>
          simp only [defineParameters, bind_eq_ok] at h
          obtain ⟨_, c₁, hfirst, hrest⟩ := h
          have hdepth : 0 < c₁.scope.depth := by
            obtain ⟨change, hchange⟩ := (extends_of_define hfirst).scope
            rwa [hchange, Scope.depth_modifyCurrent]
          obtain ⟨scope, hscope, rfl⟩ := Check.define_eq_ok.mp hfirst
          obtain ⟨scope', hscope', hagrees⟩ :=
            hstands.agrees.define hblock hscope (binds_plain hv)
          obtain ⟨m', hbound, hstands'⟩ :=
            ih (m := { m with scope := scope' }) hrest ⟨hagrees, hstands.lists⟩ hdepth hvs
          refine ⟨m', ?_, hstands'⟩
          exact bind_eq_ok.mpr ⟨(), _, Run.define_eq_ok.mpr ⟨scope', hscope', rfl⟩, hbound⟩

/-- The body of a function fits the machine that a call of it enters, with values for which the
checker has accepted the call. -/
theorem Stands.enterBody {σ outer : StaticScope} {name : String} {values : List Value}
    {signature : Signature} {function : Function} {home : RunScope}
    (hstands : Stands stage w σ m)
    (hstatic : σ.lookupFunction name values.length = some (signature, outer))
    (hfound : m.scope.lookupFunction name values.length = some (.function function, home))
    (hvalues : List.Forall₂ (fun v ty => v.Fits stage.discipline w ty .any) values
      signature.parameters) :
    ∃ m',
      bindParameters function.parameters values (m.callee home name values.length) = .ok () m' ∧
        Entered stage w function signature.returns m' := by
  -- Functions are bound in the root frame only, so the body starts in a frame on the root, at which
  -- the checker has looked when all globals were bound.
  obtain ⟨hlookup, frame', rfl, hroot⟩ := hstands.agrees.home hfound
  obtain ⟨callable, _, hrun, hcallable, hlinks⟩ := hstands.agrees.lookupFunction hstatic
  rw [hlookup] at hcallable
  cases hcallable
  obtain ⟨-, final, hfinal, hparameters, hreturns⟩ := hlinks
  have hmem := mem_of_lookup hlookup
  obtain ⟨-, input, signature', frame, before, start, after, hbody⟩ := stage.bodies _ _ hmem
  obtain rfl : final = signature' := Option.some.inj (hfinal.symm.trans hbody.declared)
  have hbefore : Stands stage w before.scope (m.callee (.root frame') name values.length) := by
    refine ⟨?_, hstands.lists⟩
    rw [hbody.outer]
    exact Agrees.enter (.root (.inr hbody.vars) hbody.funs hroot)
  have hdepth : 0 < before.scope.depth := by
    rw [hbody.outer]
    exact Nat.succ_pos _
  rw [hparameters] at hvalues
  obtain ⟨m', hbound, hstart⟩ := hbefore.parameters hbody.parameters hdepth hvalues
  obtain ⟨change, hchange⟩ := (extends_of_defineParameters hbody.parameters).scope
  have hshape : start.scope = .child (change .empty) (.root frame) := by
    rw [hchange, hbody.outer]
    rfl
  have hinside : 0 < start.scope.depth := by
    rw [hshape]
    exact Nat.succ_pos _
  exact ⟨m', hbound, .mk hbody.checked
    ⟨.statements hinside hbody.body hbody.result, hstart, fun hd => stage.kept hd _ _ hmem⟩
    hshape hreturns⟩

/-- What a call leaves behind when the body of the function has ended. -/
theorem Ends.resume {σ : StaticScope} {start : Context}
    {frame root : Frame VariableBinding Signature} {w' : Elements} {flow : Flow} {m₂ : Machine}
    (hends : Ends stage w' R start after flow m₂)
    (hafter : start.Extends after) (hshape : start.scope = .child frame (.root root))
    (hstands : Stands stage w σ m) (hext : w.Extends w') :
    Stands stage w' σ (m.resume m₂) ∧ flow.value.Fits stage.discipline w' R .any := by
  -- Whatever the body has done to its own frame, its root frame is left for the caller.
  have hroot : ∀ {change}, Stands stage w' (start.scope.modifyCurrent change) m₂ →
      Stands stage w' σ (m.resume m₂) := by
    intro change hleft
    have hagrees := hleft.agrees
    rw [hshape] at hagrees
    refine ⟨?_, hleft.lists⟩
    show Agrees stage w' σ (m.scope.regrow m₂.scope.leave)
    have hleave : Agrees stage w' (.root root) m₂.scope.leave := hagrees.leave
    generalize m₂.scope.leave = outer at hleave
    cases hleave with
    | root _ _ hroot => exact hstands.agrees.regrow hext hroot
  cases flow with
  | completed =>
      obtain ⟨change, hchange⟩ := hafter.scope
      have hleft : Stands stage w' after.scope m₂ := hends
      rw [hchange] at hleft
      exact ⟨hroot hleft, Value.fits_nil⟩
  | returned v =>
      obtain ⟨hfits, change, hleft⟩ := hends
      exact ⟨hroot hleft, hfits⟩

/-- The arguments of an accepted call as a task of their own. -/
theorem Fitting.arguments {name : String} {inputs outputs : List Expression}
    {signature : Signature} {outer : StaticScope} {ty : Option Ty}
    (hstatic : c.scope.lookupFunction name inputs.length = some (signature, outer))
    (hann : annotateArguments stage.settings c.scope inputs signature.parameters = .ok outputs)
    (hstands : Stands stage w c.scope m)
    (hkeeps : stage.Keeps
      (Task.expression (.call name outputs (some signature) ty)).transfers) :
    signature.parameters.length = inputs.length ∧
      Fitting stage w R (.arguments inputs signature.parameters) c (.expressions outputs) c m := by
  obtain ⟨callable, _, -, hcallable, hlinks⟩ := hstands.agrees.lookupFunction hstatic
  have harity := Stage.arity hcallable hlinks
  exact ⟨harity, .arguments harity hann, hstands, Stage.Keeps.right hkeeps⟩

/-- The arguments of a call that does not print may hold lists of anything. -/
theorem holds_of_keeps {name : String} {arguments : List Expression} {signature : Signature}
    {ty : Option Ty} (hprint : signature ≠ printSignature)
    (hkeeps : stage.Keeps
      (Task.expression (.call name arguments (some signature) ty)).transfers)
    (hd : stage.discipline = .elements) :
    ∀ argument ∈ arguments, argument.Holds .any := by
  intro argument hmem
  refine hkeeps hd ⟨.any, argument⟩ (List.mem_append_left _ ?_)
  rw [if_neg (by simpa using hprint)]
  exact List.mem_map_of_mem hmem

/-- The arguments of an accepted call have finished: the checker has found the function that has so
many parameters. -/
theorem Fitting.called {name : String} {arguments : List Expression} {binding : Option Signature}
    {ty : Option Ty} {item : Item} {values : List Value}
    (h : Fitting stage w R item c (.expression (.call name arguments binding ty)) after m)
    (harguments : Sound stage (.expressions arguments) m (.values values) m₁) :
    ∃ later signature outer, w.Extends later ∧ Stands stage later c.scope m₁ ∧
      binding = some signature ∧ values.length = arguments.length ∧
      c.scope.lookupFunction name values.length = some (signature, outer) := by
  cases h.checks with
  | expression hann =>
      cases rule_of_annotateExpression hann with
      | call hstatic hpart =>
          obtain ⟨-, hfitting⟩ := Fitting.arguments (R := R) hstatic hpart h.stands h.keeps
          -- Nothing is asked of the lists among the arguments, so each may be one of any kind.
          obtain ⟨later, hext, hstands, hvs⟩ := harguments hfitting
            (fun expression => Classical.choose expression.exists_holds)
            fun _ expression _ => Classical.choose_spec expression.exists_holds
          rw [← length_annotateArguments hpart, hvs.length_eq] at hstatic
          exact ⟨later, _, _, hext, hstands, rfl, hvs.length_eq.symm, hstatic⟩

theorem sound_print {name : String} {arguments : List Expression} {binding : Option Signature}
    {ty : Option Ty} {values : List Value}
    (harguments : Sound stage (.expressions arguments) m (.values values) m₁)
    (hafter : m' = { m₁ with sink := m'.sink, notices := m'.notices }) :
    Sound stage (.expression (.call name arguments binding ty)) m (.value .nil) m' := by
  intro w R item c after h element _
  obtain ⟨later, _, _, hext, hstands, -, -, -⟩ := h.called harguments
  cases h.checks with
  | expression hann =>
      refine ⟨later, hext, ?_, typed_of_annotate hann Value.fits_nil⟩
      rw [hafter]
      exact ⟨hstands.agrees, hstands.lists⟩

/-- The arguments of an accepted call of a function have finished: its body can be entered. -/
theorem Fitting.enterBody {name : String} {arguments : List Expression}
    {binding : Option Signature} {ty : Option Ty} {item : Item} {values : List Value}
    {function : Function} {home : RunScope}
    (h : Fitting stage w R item c (.expression (.call name arguments binding ty)) after m)
    (harguments : Sound stage (.expressions arguments) m (.values values) m₁)
    (hfound : m₁.scope.lookupFunction name values.length = some (.function function, home)) :
    ∃ (later : Elements) (signature : Signature), w.Extends later ∧
      Stands stage later c.scope m₁ ∧ ty = some signature.returns ∧
      ∃ m₂,
        bindParameters function.parameters values (m₁.callee home name values.length) =
          .ok () m₂ ∧
        Entered stage later function signature.returns m₂ := by
  obtain ⟨_, signature, outer, -, hstands₁, rfl, -, hcalled⟩ := h.called harguments
  have hprint : signature ≠ printSignature := by
    -- The call comes to a function, so the signature is not that of the printing one.
    obtain ⟨callable, _, hrun, -, hlinks⟩ := hstands₁.agrees.lookupFunction hcalled
    rw [hfound] at hrun
    cases hrun
    rintro rfl
    exact hlinks.1 rfl
  cases h.checks with
  | expression hann =>
      cases rule_of_annotateExpression hann with
      | call hstatic hpart =>
          obtain ⟨hlength, hfitting⟩ := Fitting.arguments (R := R) hstatic hpart h.stands h.keeps
          obtain ⟨later, hext, hstands, hvs⟩ := harguments hfitting (fun _ => .any)
            (holds_of_keeps hprint h.keeps)
          exact ⟨later, signature, hext, hstands, rfl, hstands.enterBody hcalled hfound
            (fits_of_annotateArguments hpart hlength hvs)⟩

theorem sound_call {name : String} {arguments : List Expression} {binding : Option Signature}
    {ty : Option Ty} {values : List Value} {function : Function} {home : RunScope} {flow : Flow}
    {m₂ m₃ : Machine} (harguments : Sound stage (.expressions arguments) m (.values values) m₁)
    (hfound : m₁.scope.lookupFunction name values.length = some (.function function, home))
    (hbound : bindParameters function.parameters values (m₁.callee home name values.length) =
      .ok () m₂)
    (hbody : Sound stage (.statements function.body) m₂ (.flow flow) m₃) :
    Sound stage (.expression (.call name arguments binding ty)) m (.value flow.value)
      (m₁.resume m₃) := by
  intro w R item c after h element helement
  obtain ⟨w₁, signature, hext₁, hstands₁, rfl, m₂', hbound', hentered⟩ :=
    h.enterBody harguments hfound
  rw [hbound] at hbound'
  cases hbound'
  obtain @⟨input, start, behind, final, frame, root, -, hfitting, hshape, hreturns⟩ := hentered
  obtain ⟨w₂, hext₂, hends⟩ := hbody hfitting
  have hbehind : start.Extends behind := by
    cases hfitting.checks with
    | statements _ hann _ => exact extends_of_annotateStatements input hann
  obtain ⟨hstands₂, hfits⟩ := hends.resume hbehind hshape hstands₁ hext₂
  -- A call that the checker has met before it knew the result is taken to return anything.
  refine ⟨w₂, hext₁.trans hext₂, hstands₂, signature.returns, rfl, ?_, fun hd id hid => ?_⟩
  · rcases hreturns with hfinal | hany
    · rw [hfinal]
      exact hfits.1
    · rw [hany]
      exact fun _ => Value.conforms_any _
  · rw [← show Ty.any = element from helement hd]
    exact hfits.2 hd id hid

end Sound

end TinyScript
