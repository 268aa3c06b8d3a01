import TinyScript.Proofs.Agreement
import TinyScript.Proofs.Run.Program
import TinyScript.Proofs.Typing.Plain
import TinyScript.Proofs.Typing.Unique

/-!
# Stages of an accepted program

When the checker has accepted a program, its functions are linked: each has a final signature, and
the signatures that the checker has used on its way, in whichever body, link to the functions that
a run binds. So every point between two globals is a stage (`Accepts.stage`).
-/

namespace TinyScript

open Typing

/-! ## Linked functions -/

section Links

variable {settings : Settings} {c c' after : Context} {input output : Function}
  {signature : Signature}

/-- The signature under which a function is registered links to the annotated function. -/
theorem Typing.FunctionRule.links (h : FunctionRule settings c input output after c')
    (hregistered : Registered input signature)
    (hprint : (input.name, input.arity) ≠ ("print", 1)) :
    (input.name, input.arity) = (output.name, output.arity) ∧
      Links signature (.function output) := by
  have hkey : (signature.name, signature.parameters.length) ≠ ("print", 1) := by
    rwa [hregistered.name, hregistered.arity]
  cases h with
  | declared _ _ _ _ _ =>
      exact ⟨rfl, hkey, signature, hregistered.declared, rfl, .inl rfl⟩
  | inferred hsignature hnone _ _ _ _ =>
      obtain rfl := Option.some.inj (hregistered.declared.symm.trans hsignature)
      exact ⟨rfl, hkey, _, rfl, rfl, .inr (hregistered.returns hnone)⟩

/-- A signature that links to a function still does when its result is replaced by the final one. -/
theorem Links.final {found : Signature} {returns : Ty}
    (h : Links found (.function output))
    (hfinal : output.signature = some { signature with returns }) :
    Links { found with returns } (.function output) := by
  obtain ⟨hprint, final, hfinal', hparameters, -⟩ := h
  refine ⟨hprint, final, hfinal', hparameters, .inl ?_⟩
  rw [hfinal] at hfinal'
  cases hfinal'
  rfl

end Links

/-- Checking the bodies of functions keeps the signatures linked. -/
theorem links_of_annotateFunctions {settings : Settings} {vars : List (String × VariableBinding)}
    {linked : List ((String × Nat) × Callable)} (hdistinct : (linked.map Prod.fst).Nodup) :
    ∀ {inputs outputs : List Function} {c c' : Context}
      {funs : List ((String × Nat) × Signature)},
      annotateEach (annotateFunction settings) inputs c = .ok outputs c' →
      c.scope = .root ⟨vars, funs⟩ → Entrywise Links funs linked →
      (∀ output ∈ outputs, callableEntry output ∈ linked) →
        ∃ funs', c'.scope = .root ⟨vars, funs'⟩ ∧ Entrywise Links funs' linked := by
  intro inputs
  induction inputs with
  | nil =>
      intro outputs c c' funs h hscope hlinks _
      obtain ⟨-, rfl⟩ := annotateEach_nil h
      exact ⟨funs, hscope, hlinks⟩
  | cons input inputs ih =>
      intro outputs c c' funs h hscope hlinks hmem
      obtain ⟨output, c₁, others, hfirst, hrest, rfl⟩ := annotateEach_cons h
      obtain ⟨after, hrule⟩ := rule_of_annotateFunction hfirst
      have hothers : ∀ other ∈ others, callableEntry other ∈ linked := fun other hother =>
        hmem other (List.mem_cons_of_mem _ hother)
      cases hrule with
      | declared _ _ _ _ hscope₁ => exact ih hrest (hscope₁.trans hscope) hlinks hothers
      | @inferred signature _ _ body returns _ _ _ _ _ _ hresult =>
          rcases hresult with ⟨-, hscope₁⟩ | ⟨found, hfound, hscope₁⟩
          · exact ih hrest (hscope₁.trans hscope) hlinks hothers
          -- The final signature is written over one that links to the same function.
          rw [hscope] at hfound hscope₁
          have hcallable := lookup_of_mem hdistinct (hmem _ List.mem_cons_self)
          obtain ⟨callable, hother, hlink⟩ := hlinks.lookup_left hfound
          obtain rfl := Option.some.inj (hother.symm.trans hcallable)
          refine ih hrest hscope₁ (hlinks.replace_left fun callable hlookup => ?_) hothers
          obtain rfl := Option.some.inj (hlookup.symm.trans hcallable)
          exact hlink.final rfl

/-! ## Accepted programs -/

/-- What has happened when the checker has accepted a program: the functions it has registered, and
the contexts behind its three passes. -/
structure Accepts (settings : Settings) (source annotated : Program) (functions : List Function)
    (c₀ c₁ c₂ : Context) : Prop where
  registered :
    annotateEach (registerFunction settings) source.functions .initial = .ok functions c₀
  globals : annotateEach (annotateGlobal settings) source.globals c₀ = .ok annotated.globals c₁
  bodies : annotateEach (annotateFunction settings) functions c₁ = .ok annotated.functions c₂
  main : requireMain c₂.scope = .ok ()

theorem accepts_of_check {settings : Settings} {source annotated : Program}
    (h : source.check settings = .ok annotated) :
    ∃ functions c₀ c₁ c₂, Accepts settings source annotated functions c₀ c₁ c₂ := by
  unfold Program.check at h
  split at h
  · next program c hprogram =>
      cases h
      unfold annotateProgram at hprogram
      obtain ⟨functions, c₀, hfunctions, hprogram⟩ := bind_eq_ok.mp hprogram
      obtain ⟨globals, c₁, hglobals, hprogram⟩ := bind_eq_ok.mp hprogram
      obtain ⟨bodies, c₂, hbodies, hprogram⟩ := bind_eq_ok.mp hprogram
      obtain ⟨context, _, hget, hprogram⟩ := bind_eq_ok.mp hprogram
      cases hget
      obtain ⟨_, _, hmain, hprogram⟩ := bind_eq_ok.mp hprogram
      obtain ⟨_, _, hnotify, hprogram⟩ := bind_eq_ok.mp hprogram
      obtain ⟨rfl, rfl⟩ := pure_eq_ok.mp hprogram
      exact ⟨functions, c₀, c₁, c₂, Check.part_eq_ok.mp hfunctions, Check.part_eq_ok.mp hglobals,
        Check.part_eq_ok.mp hbodies, (Check.require_eq_ok.mp hmain).1⟩
  · cases h

theorem check_of_accepts {settings : Settings} {source annotated : Program}
    {functions : List Function} {c₀ c₁ c₂ : Context}
    (h : Accepts settings source annotated functions c₀ c₁ c₂) :
    source.check settings = .ok annotated := by
  let notice := Notice.complete annotated.globals.length annotated.functions.length
  have hprogram : annotateProgram settings source .initial =
      .ok annotated { c₂ with notices := notice :: c₂.notices } := by
    unfold annotateProgram
    refine bind_eq_ok.mpr ⟨_, c₀, Check.part_eq_ok.mpr h.registered, ?_⟩
    refine bind_eq_ok.mpr ⟨_, c₁, Check.part_eq_ok.mpr h.globals, ?_⟩
    refine bind_eq_ok.mpr ⟨_, c₂, Check.part_eq_ok.mpr h.bodies, ?_⟩
    refine bind_eq_ok.mpr ⟨c₂, c₂, rfl, ?_⟩
    exact bind_eq_ok.mpr ⟨(), c₂, Check.require_eq_ok.mpr ⟨h.main, rfl⟩, rfl⟩
  unfold Program.check
  rw [hprogram]

namespace Accepts

variable {settings : Settings} {source annotated : Program} {functions : List Function}
  {c₀ c₁ c₂ : Context} (h : Accepts settings source annotated functions c₀ c₁ c₂)
include h

/-- The signatures of the registered functions link to the annotated functions. -/
theorem links :
    Entrywise Links (registeredEntries functions) annotated.linked := by
  obtain ⟨-, hdistinct, hregistered, -⟩ := scope_of_registered h.registered
  have hprint : ∀ function ∈ functions, (function.name, function.arity) ≠ ("print", 1) := by
    intro function hmem hkey
    rw [registeredEntries, List.map_append, List.nodup_append] at hdistinct
    refine hdistinct.2.2 ("print", 1) ?_ ("print", 1) (by simp) rfl
    rw [List.map_reverse, List.mem_reverse, List.map_map, List.mem_map]
    exact ⟨function, hmem, hkey⟩
  refine List.rel_append ?_ (.cons ⟨rfl, rfl⟩ .nil)
  rw [List.forall₂_reverse_iff, List.forall₂_map_left_iff, List.forall₂_map_right_iff]
  have hpass := forall₂_of_annotateEach h.bodies
  clear hdistinct
  generalize annotated.functions = outputs at hpass
  clear h
  induction hpass with
  | nil => exact .nil
  | @cons input output inputs outputs hfirst _ ih =>
      obtain ⟨c, c', hfirst⟩ := hfirst
      obtain ⟨signature, hsignature⟩ := hregistered input List.mem_cons_self
      obtain ⟨after, hrule⟩ := rule_of_annotateFunction hfirst
      obtain ⟨hkey, hlinks⟩ := hrule.links hsignature (hprint input List.mem_cons_self)
      refine .cons ⟨hkey, ?_⟩ (ih (fun function hmem => hregistered function
        (List.mem_cons_of_mem _ hmem)) fun function hmem => hprint function
        (List.mem_cons_of_mem _ hmem))
      show Links (input.signature.getD default) _
      rwa [hsignature.declared]

theorem distinct_linked : (annotated.linked.map Prod.fst).Nodup := by
  rw [← h.links.keys]
  exact (scope_of_registered h.registered).2.1

/-- The bindings of all globals, each under its own name. -/
theorem scope_globals :
    c₁.scope =
        .root ⟨(annotated.globals.map globalEntry).reverse, registeredEntries functions⟩ ∧
      (((annotated.globals.map globalEntry).reverse).map Prod.fst).Nodup ∧
      annotated.globals.map Global.name = source.globals.map Global.name := by
  simpa using scope_of_annotateGlobals h.globals (scope_of_registered h.registered).1
    List.nodup_nil

/-- Where no list literal comes with an element type, no global has one. -/
theorem plain (hlists : source.HasPlainLists settings) :
    ∀ global ∈ annotated.globals, (globalEntry global).2.itemType = .any :=
  itemType_of_annotateGlobals h.globals (scope_of_registered h.registered).1
    (fun _ hmem => absurd hmem List.not_mem_nil) hlists

/-- Behind the bodies of some first functions the signatures are still linked. -/
theorem links_between {earlier : List Function} {front behind : List Function} {c : Context}
    (hearlier : annotateEach (annotateFunction settings) earlier c₁ = .ok front c)
    (hsplit : annotated.functions = front ++ behind) :
    ∃ funs, c.scope = .root ⟨(annotated.globals.map globalEntry).reverse, funs⟩ ∧
      Entrywise Links funs annotated.linked := by
  refine links_of_annotateFunctions h.distinct_linked hearlier h.scope_globals.1 h.links ?_
  intro output hmem
  refine List.mem_append_left _ (List.mem_reverse.mpr (List.mem_map_of_mem ?_))
  rw [hsplit]
  exact List.mem_append_left _ hmem

/-- No two functions share name and arity. -/
theorem distinct_functions :
    (source.functions.map fun function => (function.name, function.arity)).Nodup := by
  obtain ⟨-, hdistinct, -, hkeys⟩ := scope_of_registered h.registered
  rw [registeredEntries, List.map_append, List.nodup_append, List.map_reverse, List.nodup_reverse,
    List.map_map] at hdistinct
  rw [← hkeys]
  exact hdistinct.1

/-- No two globals share a name. -/
theorem distinct_globals : (source.globals.map Global.name).Nodup := by
  obtain ⟨-, hdistinct, hnames⟩ := h.scope_globals
  rw [List.map_reverse, List.nodup_reverse, List.map_map] at hdistinct
  rw [← hnames]
  exact hdistinct

/-- The item and the context at a site are determined by the site. -/
theorem unique {owner : Owner} {place : List Nat} {item item' : Item} {c c' : Context}
    (hitem : Checked settings source owner place item c)
    (hitem' : Checked settings source owner place item' c') : item = item' ∧ c = c' :=
  hitem.unique h.distinct_globals h.distinct_functions hitem'

/-- The body of every function of the program has been accepted. -/
theorem body {function : Function} (hmem : function ∈ annotated.functions) :
    ∃ input signature frame before start after,
      BodyAccepted settings source ((annotated.globals.map globalEntry).reverse) annotated.linked
        function input signature frame before start after := by
  obtain ⟨front, behind, hsplit⟩ := List.append_of_mem hmem
  have hbodies := h.bodies
  rw [hsplit] at hbodies
  obtain ⟨earlier, input, later, c, _, hinputs, hearlier, hfirst⟩ := annotateEach_middle hbodies
  obtain ⟨funs, hscope, hlinks⟩ := h.links_between hearlier hsplit
  have hinput : input ∈ functions := by
    rw [hinputs]
    exact List.mem_append_right _ List.mem_cons_self
  obtain ⟨signature, hregistered⟩ := (scope_of_registered h.registered).2.2.1 input hinput
  obtain ⟨after, hrule⟩ := rule_of_annotateFunction hfirst
  have houter : (c.body input signature).scope = (Scope.root ⟨_, funs⟩).enter :=
    congrArg Scope.enter hscope
  -- Behind the body it is known what the function returns: what its signature says, if that is
  -- declared, and otherwise what the final signature takes over from there.
  cases hrule with
  | @declared signature' start _ body _ hsignature hdeclared hparameters hbody _ =>
      obtain rfl := Option.some.inj (hregistered.declared.symm.trans hsignature)
      refine ⟨input.body, signature, _, c.body input signature, start, after, hsignature,
        hregistered.arity, houter, rfl, hlinks, hparameters, ?_, hbody, ?_⟩
      · exact .body h.registered h.globals hinputs hearlier hsignature hparameters
      · intro ty hty
        have hknown := ((extends_of_defineParameters hparameters).trans
          (extends_of_annotateStatements _ hbody)).returning signature.returns
            (by simp [Context.body, hdeclared])
        rw [hty] at hknown
        exact Option.some.inj (Option.some.inj hknown)
  | @inferred signature' start _ body returns _ hsignature _ hparameters hbody hreturns _ =>
      obtain rfl := Option.some.inj (hregistered.declared.symm.trans hsignature)
      refine ⟨input.body, { signature with returns }, _, c.body input signature, start, after,
        rfl, hregistered.arity, houter, rfl, hlinks, hparameters, ?_, hbody, ?_⟩
      · exact .body h.registered h.globals hinputs hearlier hsignature hparameters
      · intro ty hty
        rw [hreturns, hty]
        rfl

omit h in
/-- What a linked function is bound under. -/
theorem mem_linked {key : String × Nat} {callable : Callable}
    (hmem : (key, callable) ∈ annotated.linked) :
    (∃ function ∈ annotated.functions, callable = .function function ∧
        key = (function.name, function.arity)) ∨
      callable = .print ∧ key = ("print", 1) := by
  rcases List.mem_append.mp hmem with hmem | hmem
  · rw [List.mem_reverse, List.mem_map] at hmem
    obtain ⟨function, hfunction, heq⟩ := hmem
    cases heq
    exact .inl ⟨function, hfunction, rfl, rfl⟩
  · rw [List.mem_singleton] at hmem
    cases hmem
    exact .inr ⟨rfl, rfl⟩

end Accepts

/-! ## Stages -/

/-- The program is such that values can be followed as closely as that. -/
structure Program.Admits (program : Program) (discipline : Discipline) : Prop where
  plain : discipline = .types →
    ∀ global ∈ program.globals, (globalEntry global).2.itemType = .any
  keeps : discipline = .elements → program.KeepsElements

theorem Program.admits_names (program : Program) : program.Admits .names :=
  ⟨fun h => absurd h (by decide), fun h => absurd h (by decide)⟩

theorem Accepts.admits_types {settings : Settings} {source annotated : Program}
    {functions : List Function} {c₀ c₁ c₂ : Context}
    (h : Accepts settings source annotated functions c₀ c₁ c₂)
    (hlists : source.HasPlainLists settings) : annotated.Admits .types :=
  ⟨fun _ => h.plain hlists, fun h => absurd h (by decide)⟩

theorem Program.KeepsElements.admits {program : Program} (h : program.KeepsElements) :
    program.Admits .elements :=
  ⟨fun h => absurd h (by decide), fun _ => h⟩

/-- The point of a run at which some first globals of an accepted program have been evaluated and
the others have not. -/
def Accepts.stage {settings : Settings} {source annotated : Program} {functions : List Function}
    {c₀ c₁ c₂ : Context} (h : Accepts settings source annotated functions c₀ c₁ c₂)
    {discipline : Discipline} (hadmits : annotated.Admits discipline)
    (earlier later : List Global) (hsplit : annotated.globals = earlier ++ later) : Stage where
  settings := settings
  discipline := discipline
  source := source
  functions := annotated.linked
  present := (earlier.map globalEntry).reverse
  missing := (later.map globalEntry).reverse
  distinct := by
    rw [← List.reverse_append, ← List.map_append, ← hsplit]
    exact h.scope_globals.2.1
  plain := by
    intro hd entry hmem
    rw [← List.reverse_append, ← List.map_append, ← hsplit, List.mem_reverse, List.mem_map] at hmem
    obtain ⟨global, hglobal, rfl⟩ := hmem
    exact hadmits.plain hd global hglobal
  print := by
    intro key hmem
    rcases Accepts.mem_linked hmem with ⟨_, _, hcallable, _⟩ | ⟨_, hkey⟩
    · cases hcallable
    · exact hkey
  bodies := by
    intro key function hmem
    rcases Accepts.mem_linked hmem with ⟨_, hfunction, hcallable, hkey⟩ | ⟨hcallable, _⟩
    · cases hcallable
      refine ⟨hkey, ?_⟩
      rw [← List.reverse_append, ← List.map_append, ← hsplit]
      exact h.body hfunction
    · cases hcallable
  kept := by
    intro hd key function hmem transfer htransfer
    rcases Accepts.mem_linked hmem with ⟨_, hfunction, hcallable, _⟩ | ⟨hcallable, _⟩
    · cases hcallable
      exact hadmits.keeps hd transfer (List.mem_append_right _
        (List.mem_flatMap.mpr ⟨function, hfunction, htransfer⟩))
    · cases hcallable

/-- The point of a run at which all globals have been evaluated. -/
abbrev Accepts.last {settings : Settings} {source annotated : Program} {functions : List Function}
    {c₀ c₁ c₂ : Context} (h : Accepts settings source annotated functions c₀ c₁ c₂)
    {discipline : Discipline} (hadmits : annotated.Admits discipline) : Stage :=
  h.stage hadmits annotated.globals [] (List.append_nil _).symm

end TinyScript
