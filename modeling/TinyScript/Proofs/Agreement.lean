import TinyScript.Proofs.Conformance
import TinyScript.Proofs.Elements
import TinyScript.Proofs.Scope
import TinyScript.Proofs.Typing.Checked
import TinyScript.Run.Machine

/-!
# Scopes of the checker and scopes of a run

While a run works on a part of a program, its scope agrees with the scope in which the checker has
checked that part: frame by frame the same names, and under each name a variable that its binding
describes. The one exception are globals that have not been evaluated yet, which a function body may
name; they are missing from the root frame of the run. `Agrees` is this relation.

How closely a variable is described depends on what is to be proved (`Discipline`): by its name
alone, by its static type, or by its static type and the element types of lists. Lists are shared,
so the element type of a list is kept apart from the variables that hold it, in an `Elements` that
grows while a run goes on.
-/

namespace TinyScript

open Typing

/-! ## Values -/

/-- How closely values are followed. -/
inductive Discipline where
  /-- Not at all: only names are. -/
  | names
  /-- Values conform to static types. -/
  | types
  /-- Beyond that, lists have element types. -/
  | elements
deriving DecidableEq

/-- The element types of the lists that have one. -/
abbrev Elements := ListId → Option Ty

namespace Elements

/-- Element types of lists that are known are known later on. -/
def Extends (elements later : Elements) : Prop :=
  ∀ id ty, elements id = some ty → later id = some ty

theorem Extends.refl (elements : Elements) : elements.Extends elements := fun _ _ h => h

theorem Extends.trans {w₁ w₂ w₃ : Elements} (h : w₁.Extends w₂) (h' : w₂.Extends w₃) :
    w₁.Extends w₃ :=
  fun id ty hty => h' id ty (h id ty hty)

/-- The element types when one more list has one. -/
def add (elements : Elements) (id : ListId) (ty : Ty) : Elements :=
  fun other => if other = id then some ty else elements other

theorem extends_add {elements : Elements} {id : ListId} (fresh : elements id = none) (ty : Ty) :
    elements.Extends (elements.add id ty) := by
  intro other ty' h
  unfold add
  split
  · next same =>
      rw [same, fresh] at h
      cases h
  · exact h

end Elements

/-- A value is as a static type and an element type say, as far as values are followed. -/
def Value.Fits (discipline : Discipline) (elements : Elements) (value : Value) (ty element : Ty) :
    Prop :=
  (discipline ≠ .names → value.Conforms ty) ∧
    (discipline = .elements → ∀ id, value = .list id → elements id = some element)

/-- Lists hold what their element types say. -/
def Lists.Fit (discipline : Discipline) (elements : Elements) (lists : Lists) : Prop :=
  discipline = .elements → ∀ id ty, elements id = some ty →
    id < lists.next ∧ ∀ value ∈ lists.items id, value.Fits discipline elements ty .any

section Fits

variable {d : Discipline} {w w' : Elements} {v : Value} {ty el : Ty} {lists : Lists}

theorem Value.Fits.mono (h : v.Fits d w ty el) (hw : w.Extends w') : v.Fits d w' ty el :=
  ⟨h.1, fun hd id hid => hw id el (h.2 hd id hid)⟩

theorem Value.Fits.of_isAssignable {target : Ty} (h : v.Fits d w ty el)
    (hassignable : isAssignable target ty = true) : v.Fits d w target el :=
  ⟨fun hd => (h.1 hd).of_isAssignable hassignable, h.2⟩

/-- A value of a kind other than lists fits whatever it conforms to. -/
theorem Value.fits_of_conforms (h : v.Conforms ty) (hlist : ∀ id, v ≠ .list id) :
    v.Fits d w ty el :=
  ⟨fun _ => h, fun _ id hid => absurd hid (hlist id)⟩

theorem Value.fits_nil : Value.nil.Fits d w ty el :=
  Value.fits_of_conforms (Value.conforms_nil ty) (by simp)

theorem Lists.Fit.put (h : lists.Fit d w) {id : ListId} {slot : Nat} {value : Value}
    (hvalue : d = .elements → ∀ ty, w id = some ty → value.Fits d w ty .any) :
    (lists.put id slot value).Fit d w := by
  intro hd other ty hty
  -- The list may be held by several variables, all of which have the one element type of the list.
  obtain ⟨hlt, hitems⟩ := h hd other ty hty
  refine ⟨by simpa [Lists.put, Lists.next] using hlt, fun v hv => ?_⟩
  rw [Lists.items_put] at hv
  split at hv
  · next same =>
      subst same
      rcases Array.mem_or_eq_of_mem_setIfInBounds hv with hold | rfl
      · exact hitems v hold
      · exact hvalue hd ty hty
  · exact hitems v hv

theorem Lists.Fit.fresh (h : lists.Fit d w) (hd : d = .elements) : w lists.next = none := by
  cases hnext : w lists.next with
  | none => rfl
  | some ty => exact absurd (h hd _ ty hnext).1 (Nat.lt_irrefl _)

theorem Lists.Fit.add (h : lists.Fit d w) {values : List Value} {element : Ty}
    (hvalues : d = .elements → ∀ v ∈ values, v.Fits d w element .any) :
    (lists.add values.toArray).Fit d (w.add lists.next element) := by
  intro hd id ty hty
  have hext := Elements.extends_add (h.fresh hd) element
  have hnext : (lists.add values.toArray).next = lists.next + 1 := by simp [Lists.add, Lists.next]
  rw [hnext, Lists.items_add]
  unfold Elements.add at hty
  split at hty
  · next same =>
      cases hty
      rw [if_pos same, same]
      exact ⟨Nat.lt_succ_self _, fun v hv => (hvalues hd v (by simpa using hv)).mono hext⟩
  · next different =>
      rw [if_neg different]
      obtain ⟨hlt, hitems⟩ := h hd id ty hty
      exact ⟨Nat.lt_succ_of_lt hlt, fun v hv => (hitems v hv).mono hext⟩

end Fits

/-! ## Variables and functions -/

/-- A binding of the checker describes a variable of a run. Where static types alone are followed,
no variable has an element type of its own. -/
structure Binds (discipline : Discipline) (elements : Elements) (binding : VariableBinding)
    (found : Variable) : Prop where
  isMutable : found.isMutable = binding.isMutable
  fits : found.value.Fits discipline elements binding.ty binding.itemType
  plain : discipline = .types → binding.itemType = .any

theorem Binds.mono {d : Discipline} {w w' : Elements} {binding : VariableBinding}
    {found : Variable} (h : Binds d w binding found) (hw : w.Extends w') :
    Binds d w' binding found :=
  ⟨h.isMutable, h.fits.mono hw, h.plain⟩

/-- A signature that the checker uses for what a call invokes. A function whose result is not known
yet shows that it returns anything. -/
def Links (signature : Signature) : Callable → Prop
  | .print => signature = printSignature
  | .function function =>
    (signature.name, signature.parameters.length) ≠ ("print", 1) ∧
      ∃ final, function.signature = some final ∧ signature.parameters = final.parameters ∧
        (signature.returns = final.returns ∨ signature.returns = .any)

/-- The checker has accepted the body of a function: in the context `start`, which has come from
the context `before` by binding the parameters. The frame is the root frame at that time. -/
structure BodyAccepted (settings : Settings) (source : Program)
    (globals : List (String × VariableBinding)) (functions : List ((String × Nat) × Callable))
    (function : Function) (input : List Statement) (signature : Signature)
    (frame : Frame VariableBinding Signature) (before start after : Context) : Prop where
  declared : function.signature = some signature
  arity : signature.parameters.length = function.arity
  outer : before.scope = (Scope.root frame).enter
  vars : frame.vars = globals
  funs : Entrywise Links frame.funs functions
  parameters :
    defineParameters input function.parameters signature.parameters before = .ok () start
  checked : Checked settings source (.function function.name function.arity) []
    (.statements input) start
  body : annotateStatements settings input start = .ok function.body after
  result : ∀ ty, after.returning = some (some ty) → ty = signature.returns

/-! ## Agreement -/

/-- How far a run of an accepted program has come: which globals have been evaluated and which are
still missing, the latest first, and the functions that are bound. -/
structure Stage where
  settings : Settings
  discipline : Discipline
  source : Program
  functions : List ((String × Nat) × Callable)
  present : List (String × VariableBinding)
  missing : List (String × VariableBinding)
  distinct : ((missing ++ present).map Prod.fst).Nodup
  plain : discipline = .types → ∀ entry ∈ missing ++ present, entry.2.itemType = .any
  print : ∀ key, (key, .print) ∈ functions → key = ("print", 1)
  bodies : ∀ key function, (key, .function function) ∈ functions →
    key = (function.name, function.arity) ∧
      ∃ input signature frame before start after,
        BodyAccepted settings source (missing ++ present) functions function input signature frame
          before start after
  kept : discipline = .elements → ∀ key function, (key, .function function) ∈ functions →
    ∀ transfer ∈ transfersOfStatements function.body, transfer.Kept

/-- The root frame of a run at a stage. -/
structure Stage.Root (stage : Stage) (elements : Elements) (frame : Frame Variable Callable) :
    Prop where
  funs : frame.funs = stage.functions
  vars : Entrywise (Binds stage.discipline elements) stage.present frame.vars

section Globals

variable {stage : Stage} {name : String} {binding : VariableBinding}

/-- A missing global is not among those that are present. -/
theorem Stage.lookup_present_of_missing (h : stage.missing.lookup name = some binding) :
    stage.present.lookup name = none := by
  have hmem := List.mem_map_of_mem (f := Prod.fst) (mem_of_lookup h)
  have hdistinct := stage.distinct
  rw [List.map_append, List.nodup_append] at hdistinct
  rw [lookup_eq_none_iff_keys]
  intro hpresent
  exact hdistinct.2.2 _ hmem _ hpresent rfl

/-- A global that is present has the same binding among all globals. -/
theorem Stage.lookup_of_present {vars : List (String × VariableBinding)}
    (hvars : vars = stage.present ∨ vars = stage.missing ++ stage.present)
    (h : stage.present.lookup name = some binding) : vars.lookup name = some binding := by
  rcases hvars with hvars | hvars
  · rw [hvars, h]
  cases hmissing : stage.missing.lookup name with
  | none => rw [hvars, lookup_append_of_disjoint hmissing, h]
  | some other =>
      rw [Stage.lookup_present_of_missing hmissing] at h
      cases h

end Globals

/-- The scope in which the checker has checked a part of a program and the scope in which a run
works on it agree. Missing globals may be known to the checker. -/
inductive Agrees (stage : Stage) (elements : Elements) : StaticScope → RunScope → Prop
  | root {frame frame'} :
      frame.vars = stage.present ∨ frame.vars = stage.missing ++ stage.present →
      Entrywise Links frame.funs stage.functions → stage.Root elements frame' →
      Agrees stage elements (.root frame) (.root frame')
  | child {frame frame' parent parent'} :
      frame.funs = [] → frame'.funs = [] →
      Entrywise (Binds stage.discipline elements) frame.vars frame'.vars →
      Agrees stage elements parent parent' →
      Agrees stage elements (.child frame parent) (.child frame' parent')

namespace Agrees

variable {stage : Stage} {w w' : Elements} {σ : StaticScope} {ρ : RunScope}

theorem mono (h : Agrees stage w σ ρ) (hw : w.Extends w') : Agrees stage w' σ ρ := by
  induction h with
  | root hvars hfuns hroot =>
      exact .root hvars hfuns
        ⟨hroot.funs, Entrywise.mono hroot.vars fun _ _ hbinds => hbinds.mono hw⟩
  | child hfuns hfuns' hvars _ ih =>
      exact .child hfuns hfuns' (Entrywise.mono hvars fun _ _ hbinds => hbinds.mono hw) ih

theorem enter (h : Agrees stage w σ ρ) : Agrees stage w σ.enter ρ.enter :=
  .child rfl rfl .nil h

theorem leave {frame : Frame VariableBinding Signature}
    (h : Agrees stage w (.child frame σ) ρ) : Agrees stage w σ ρ.leave := by
  cases h with
  | child _ _ _ hparent => exact hparent

theorem root_frame {frame : Frame VariableBinding Signature}
    (h : Agrees stage w (.root frame) ρ) :
    ∃ frame', ρ = .root frame' ∧ stage.Root w frame' := by
  cases h with
  | root _ _ hroot => exact ⟨_, rfl, hroot⟩

/-- A name that the checker knows is the name of a variable that its binding describes, or of a
global that is missing. -/
theorem lookupVariable (h : Agrees stage w σ ρ) {name : String} {binding : VariableBinding}
    (hfound : σ.lookupVariable name = some binding) :
    (∃ found, ρ.lookupVariable name = some found ∧ Binds stage.discipline w binding found) ∨
      ρ.lookupVariable name = none ∧ stage.missing.lookup name = some binding ∧
        σ.variableDepth? name = some σ.depth := by
  induction h with
  | @root frame frame' hvars hfuns hroot =>
      have present : stage.present.lookup name = some binding →
          ∃ found, frame'.vars.lookup name = some found ∧
            Binds stage.discipline w binding found := hroot.vars.lookup_left
      have here : frame.vars.lookup name = some binding := hfound
      -- The frame of the checker holds the present globals only, or all of them. No name is both
      -- present and missing, so a missing one is not in the frame of the run.
      rcases hvars with hvars | hvars
      · rw [hvars] at here
        exact .inl (present here)
      cases hmissing : stage.missing.lookup name with
      | none =>
          rw [hvars, lookup_append_of_disjoint hmissing] at here
          exact .inl (present here)
      | some other =>
          rw [hvars, List.lookup_append, hmissing] at here
          refine .inr ⟨?_, by simpa using here, ?_⟩
          · rcases hroot.vars.lookup name with ⟨-, hnone⟩ | ⟨_, _, hsome, -⟩
            · exact hnone
            · rw [Stage.lookup_present_of_missing hmissing] at hsome
              cases hsome
          · have bound : (frame.lookupVariable name).isSome = true := by
              rw [show frame.lookupVariable name = some binding from hfound]
              rfl
            simp [Scope.variableDepth?, Scope.frames, List.findIdx?_cons, bound, Scope.depth]
  | @child frame frame' parent parent' _ _ hvars _ ih =>
      rcases hvars.lookup name with ⟨hnone, hnone'⟩ | ⟨a, b, hsome, hsome', hbinds⟩
      · have hstatic : frame.lookupVariable name = none := hnone
        have hrun : frame'.lookupVariable name = none := hnone'
        simp only [Scope.lookupVariable, hstatic] at hfound
        simp only [Scope.lookupVariable, hrun]
        rcases ih hfound with hpresent | ⟨hmissing, hlookup, hdepth⟩
        · exact .inl hpresent
        · refine .inr ⟨hmissing, hlookup, ?_⟩
          unfold Scope.variableDepth? at hdepth ⊢
          simp [Scope.frames, List.findIdx?_cons, hstatic, hdepth, Scope.depth]
      · have hstatic : frame.lookupVariable name = some a := hsome
        have hrun : frame'.lookupVariable name = some b := hsome'
        simp only [Scope.lookupVariable, hstatic] at hfound
        cases hfound
        exact .inl ⟨b, by simp only [Scope.lookupVariable, hrun], hbinds⟩

/-- A variable that a run finds is described by the binding that the checker has found. -/
theorem binds_of_lookup (h : Agrees stage w σ ρ) {name : String} {binding : VariableBinding}
    {found : Variable} (hstatic : σ.lookupVariable name = some binding)
    (hfound : ρ.lookupVariable name = some found) : Binds stage.discipline w binding found := by
  rcases h.lookupVariable hstatic with ⟨other, hother, hbinds⟩ | ⟨hnone, -⟩
  · rw [hfound] at hother
    cases hother
    exact hbinds
  · rw [hfound] at hnone
    cases hnone

/-- A missing global is not found from where the checker finds it in the root frame. -/
theorem lookup_missing (h : Agrees stage w σ ρ) {name : String} {binding : VariableBinding}
    (hmissing : stage.missing.lookup name = some binding)
    (hdepth : σ.variableDepth? name = some σ.depth) : ρ.lookupVariable name = none := by
  induction h with
  | @root frame frame' _ _ hroot =>
      rcases hroot.vars.lookup name with ⟨-, hnone⟩ | ⟨_, _, hsome, -⟩
      · exact hnone
      · rw [Stage.lookup_present_of_missing hmissing] at hsome
        cases hsome
  | @child frame frame' parent parent' _ _ hvars _ ih =>
      unfold Scope.variableDepth? at hdepth ih
      rcases hvars.lookup name with ⟨hnone, hnone'⟩ | ⟨_, _, hsome, -, -⟩
      · have hstatic : frame.lookupVariable name = none := hnone
        have hrun : frame'.lookupVariable name = none := hnone'
        simp only [Scope.lookupVariable, hrun]
        refine ih ?_
        simpa [Scope.frames, List.findIdx?_cons, hstatic, Scope.depth] using hdepth
      · have hstatic : frame.lookupVariable name = some _ := hsome
        simp [Scope.frames, List.findIdx?_cons, hstatic, Scope.depth] at hdepth

/-- Where static types alone are followed, no name has an element type of its own. -/
theorem plain (h : Agrees stage w σ ρ) {name : String} {binding : VariableBinding}
    (hfound : σ.lookupVariable name = some binding) (hd : stage.discipline = .types) :
    binding.itemType = .any := by
  rcases h.lookupVariable hfound with ⟨_, _, hbinds⟩ | ⟨_, hmissing, _⟩
  · exact hbinds.plain hd
  · exact stage.plain hd _ (List.mem_append_left _ (mem_of_lookup hmissing))

theorem setVariable (h : Agrees stage w σ ρ) {name : String} {binding : VariableBinding}
    {value : Value} (hfound : σ.lookupVariable name = some binding)
    (hmutable : binding.isMutable = true)
    (hfits : value.Fits stage.discipline w binding.ty binding.itemType) :
    Agrees stage w σ (ρ.setVariable name ⟨true, value⟩) := by
  have hplain := h.plain hfound
  have hbinds : Binds stage.discipline w binding ⟨true, value⟩ := ⟨hmutable.symm, hfits, hplain⟩
  clear hplain
  induction h with
  | @root frame frame' hvars hfuns hroot =>
      refine .root hvars hfuns ⟨hroot.funs, hroot.vars.replace_right fun other hother => ?_⟩
      have here : frame.vars.lookup name = some binding := hfound
      rw [Stage.lookup_of_present hvars hother] at here
      cases here
      exact hbinds
  | @child frame frame' parent parent' hfuns hfuns' hvars hparent ih =>
      rcases hvars.lookup name with ⟨hnone, hnone'⟩ | ⟨a, b, hsome, hsome', -⟩
      · have hstatic : frame.lookupVariable name = none := hnone
        have hrun : frame'.lookupVariable name = none := hnone'
        simp only [Scope.lookupVariable, hstatic] at hfound
        simp only [Scope.setVariable, hrun]
        exact .child hfuns hfuns' hvars (ih hfound)
      · have hstatic : frame.lookupVariable name = some a := hsome
        have hrun : frame'.lookupVariable name = some b := hsome'
        simp only [Scope.lookupVariable, hstatic] at hfound
        cases hfound
        simp only [Scope.setVariable, hrun]
        refine .child hfuns hfuns' (hvars.replace_right fun other hother => ?_) hparent
        rw [hsome] at hother
        cases hother
        exact hbinds

/-- A name that is free in a block of the checker is free in the block of a run. -/
theorem free (h : Agrees stage w σ ρ) (hblock : 0 < σ.depth) {name : String}
    (hfree : σ.current.lookupVariable name = none) : ρ.current.lookupVariable name = none := by
  cases h with
  | root => exact absurd hblock (Nat.lt_irrefl 0)
  | @child frame frame' _ _ _ _ hvars _ =>
      have hnone : frame.vars.lookup name = none := hfree
      rcases hvars.lookup name with ⟨-, hnone'⟩ | ⟨a, b, hsome, -, -⟩
      · exact hnone'
      · rw [hnone] at hsome
        cases hsome

/-- What the checker can bind in a block, a run can bind there. -/
theorem define (h : Agrees stage w σ ρ) (hblock : 0 < σ.depth) {name : String}
    {binding : VariableBinding} {σ' : StaticScope} {found : Variable}
    (hdefine : σ.defineVariable? name binding = some σ')
    (hbinds : Binds stage.discipline w binding found) :
    ∃ ρ', ρ.defineVariable? name found = some ρ' ∧ Agrees stage w σ' ρ' := by
  obtain ⟨hnone, rfl⟩ := Scope.defineVariable?_eq_some.mp hdefine
  refine ⟨_, Scope.defineVariable?_eq_some.mpr ⟨h.free hblock hnone, rfl⟩, ?_⟩
  cases h with
  | root => exact absurd hblock (Nat.lt_irrefl 0)
  | child hfuns hfuns' hvars hparent =>
      exact .child hfuns hfuns' (.cons ⟨rfl, hbinds⟩ hvars) hparent

/-- Behind a call the frames of the caller are as they were, on the root that the call left. -/
theorem regrow (h : Agrees stage w σ ρ) (hw : w.Extends w') {frame : Frame Variable Callable}
    (hroot : stage.Root w' frame) : Agrees stage w' σ (ρ.regrow (.root frame)) := by
  induction h with
  | root hvars hfuns _ => exact .root hvars hfuns hroot
  | child hfuns hfuns' hvars _ ih =>
      simp only [Scope.regrow, Scope.depth, Nat.not_lt_zero, if_false]
      exact .child hfuns hfuns' (Entrywise.mono hvars fun _ _ hbinds => hbinds.mono hw) ih

/-- Functions are bound in the root frame only. -/
theorem home (h : Agrees stage w σ ρ) {name : String} {arity : Nat} {callable : Callable}
    {home : RunScope} (hfound : ρ.lookupFunction name arity = some (callable, home)) :
    stage.functions.lookup (name, arity) = some callable ∧
      ∃ frame, home = .root frame ∧ stage.Root w frame := by
  induction h with
  | @root frame frame' _ _ hroot =>
      simp only [Scope.lookupFunction, Frame.lookupFunction, Option.map_eq_some_iff,
        Prod.mk.injEq] at hfound
      obtain ⟨_, hlookup, rfl, rfl⟩ := hfound
      rw [hroot.funs] at hlookup
      exact ⟨hlookup, frame', rfl, hroot⟩
  | @child frame frame' _ _ _ hfuns' _ _ ih =>
      have hnone : frame'.lookupFunction name arity = none := by
        rw [Frame.lookupFunction, hfuns']
        rfl
      simp only [Scope.lookupFunction, hnone] at hfound
      exact ih hfound

/-- A function that the checker knows is bound, in the root frame. -/
theorem lookupFunction (h : Agrees stage w σ ρ) {name : String} {arity : Nat}
    {signature : Signature} {outer : StaticScope}
    (hfound : σ.lookupFunction name arity = some (signature, outer)) :
    ∃ callable home, ρ.lookupFunction name arity = some (callable, home) ∧
      stage.functions.lookup (name, arity) = some callable ∧ Links signature callable := by
  induction h with
  | @root frame frame' _ hfuns hroot =>
      simp only [Scope.lookupFunction, Frame.lookupFunction, Option.map_eq_some_iff,
        Prod.mk.injEq] at hfound
      obtain ⟨_, hlookup, rfl, -⟩ := hfound
      obtain ⟨callable, hcallable, hlinks⟩ := hfuns.lookup_left hlookup
      refine ⟨callable, .root frame', ?_, hcallable, hlinks⟩
      simp only [Scope.lookupFunction, Frame.lookupFunction, hroot.funs, hcallable,
        Option.map_some]
  | @child frame frame' _ _ hfuns hfuns' _ _ ih =>
      have hnone : frame.lookupFunction name arity = none := by
        rw [Frame.lookupFunction, hfuns]
        rfl
      have hnone' : frame'.lookupFunction name arity = none := by
        rw [Frame.lookupFunction, hfuns']
        rfl
      simp only [Scope.lookupFunction, hnone] at hfound
      simp only [Scope.lookupFunction, hnone']
      exact ih hfound

end Agrees

end TinyScript
