import TinyScript.Proofs.RunIndependence
import TinyScript.Proofs.Typing.Similar

/-!
# The order of functions

Where every function declares what it returns, the functions of a program may stand in any order.
Registering two functions comes to the same either way round, and checking the body of one leaves
nothing behind for the next, so both passes over the functions may be made in any order
(`annotateEach_of_perm`). A run binds all functions before it calls one, under keys that are all
different, and from then on only looks them up.
-/

namespace TinyScript

namespace Typing

variable {settings : Settings}

/-! ## Passes in another order -/

section Passes

variable {Tree ι : Type} {annotate : Tree → Check Tree Tree}

/-- What comes of annotating a tree and then another one, comes of it the other way round too. -/
def Swaps (annotate : Tree → Check Tree Tree) (first second : Tree) : Prop :=
  ∀ (c c₁ c₂ d : Context) (output output' : Tree), c.Similar d →
    annotate first c = .ok output c₁ → annotate second c₁ = .ok output' c₂ →
      ∃ d₁ d₂, annotate second d = .ok output' d₁ ∧ annotate first d₁ = .ok output d₂ ∧
        c₂.Similar d₂

/-- A pass over trees of which any two may be swapped comes to the same for every tree when they
stand in another order. -/
theorem annotateEach_of_perm {input output : ι → Tree}
    (hcarries : ∀ tree, Check.Carries (annotate tree) (annotate tree)) {places places' : List ι}
    (hperm : places.Perm places')
    (hswaps : ∀ i ∈ places, ∀ j ∈ places, Swaps annotate (input i) (input j)) :
    ∀ {c c' d : Context}, c.Similar d →
      annotateEach annotate (places.map input) c = .ok (places.map output) c' →
        ∃ d', annotateEach annotate (places'.map input) d = .ok (places'.map output) d' ∧
          c'.Similar d' := by
  -- A permutation is made of swaps of neighbours; everything else only carries contexts along.
  induction hperm with
  | nil =>
      intro c c' d hc h
      obtain ⟨-, rfl⟩ := annotateEach_nil h
      exact ⟨d, rfl, hc⟩
  | cons i _ ih =>
      intro c c' d hc h
      obtain ⟨_, c₁, _, hfirst, hrest, heq⟩ := annotateEach_cons h
      obtain ⟨rfl, rfl⟩ := List.cons.inj heq
      obtain ⟨d₁, hfirst', hc₁⟩ := hcarries _ c d _ c₁ hc hfirst
      obtain ⟨d', hrest', hc'⟩ := ih (fun i hi j hj => hswaps i (List.mem_cons_of_mem _ hi) j
        (List.mem_cons_of_mem _ hj)) hc₁ hrest
      exact ⟨d', annotateEach_cons_of_ok hfirst' hrest', hc'⟩
  | swap i j places =>
      intro c c' d hc h
      obtain ⟨_, c₁, _, hfirst, hrest, heq⟩ := annotateEach_cons h
      obtain ⟨rfl, rfl⟩ := List.cons.inj heq
      obtain ⟨_, c₂, _, hsecond, hrest, heq⟩ := annotateEach_cons hrest
      obtain ⟨rfl, rfl⟩ := List.cons.inj heq
      obtain ⟨d₁, d₂, hsecond', hfirst', hc₂⟩ :=
        hswaps j (by simp) i (by simp) c c₁ c₂ d _ _ hc hfirst hsecond
      obtain ⟨d', hrest', hc'⟩ := carries_annotateEach hcarries _ c₂ d₂ _ c' hc₂ hrest
      exact ⟨d', annotateEach_cons_of_ok hsecond' (annotateEach_cons_of_ok hfirst' hrest'), hc'⟩
  | trans hperm _ ih ih' =>
      intro c c' d hc h
      obtain ⟨e, hbetween, hc'⟩ := ih hswaps (.refl c) h
      obtain ⟨d', h', he⟩ := ih' (fun i hi j hj => hswaps i (hperm.mem_iff.mpr hi) j
        (hperm.mem_iff.mpr hj)) hc hbetween
      exact ⟨d', h', hc'.trans he⟩

/-- Annotating a tree leaves the scope as it was, and what is known of results. -/
def Traceless (annotate : Tree → Check Tree Tree) (tree : Tree) : Prop :=
  ∀ (c c' : Context) (output : Tree), annotate tree c = .ok output c' →
    c'.scope = c.scope ∧ c'.returning = c.returning

namespace Traceless

variable {tree : Tree} {c c' d : Context} {output : Tree}

theorem behind (h : Traceless annotate tree) (hc : c.Similar d)
    (hok : annotate tree c = .ok output c') : c'.Similar d := by
  obtain ⟨hscope, hreturning⟩ := h _ _ _ hok
  exact ⟨hscope ▸ hc.scope, hc.returning.trans hreturning.symm⟩

theorem before (h : Traceless annotate tree) {d' : Context} (hc : c.Similar d)
    (hok : annotate tree d = .ok output d') : c.Similar d' := by
  obtain ⟨hscope, hreturning⟩ := h _ _ _ hok
  exact ⟨hscope ▸ hc.scope, hreturning.trans hc.returning⟩

/-- Neither of two trees that leave nothing behind is annotated otherwise for the other. -/
theorem swaps {tree' : Tree} (h : Traceless annotate tree) (h' : Traceless annotate tree')
    (hcarries : ∀ tree, Check.Carries (annotate tree) (annotate tree)) :
    Swaps annotate tree tree' := by
  intro c c₁ c₂ d output output' hc hfirst hsecond
  obtain ⟨d₁, hsecond', hc₂⟩ := hcarries tree' c₁ d output' c₂ (h.behind hc hfirst) hsecond
  obtain ⟨d₂, hfirst', hc₁⟩ := hcarries tree c d₁ output c₁ (h'.before hc hsecond') hfirst
  exact ⟨d₁, d₂, hsecond', hfirst', h.before hc₂ hfirst'⟩

end Traceless

/-- What becomes of a tree that is annotated in a context. -/
def annotatedIn (annotate : Tree → Check Tree Tree) (c : Context) (tree : Tree) : Tree :=
  match annotate tree c with
  | .ok output _ => output
  | .error fault _ => fault.tree

/-- When no tree leaves anything behind, all are annotated as in the context in front of the
pass. -/
theorem outputs_of_traceless (hcarries : ∀ tree, Check.Carries (annotate tree) (annotate tree))
    {c : Context} : ∀ {trees outputs : List Tree} {d d' : Context},
      (∀ tree ∈ trees, Traceless annotate tree) → d.Similar c →
      annotateEach annotate trees d = .ok outputs d' →
        outputs = trees.map (annotatedIn annotate c) := by
  intro trees
  induction trees with
  | nil =>
      intro outputs d d' _ _ h
      exact (annotateEach_nil h).1
  | cons tree trees ih =>
      intro outputs d d' htrees hd h
      obtain ⟨output, d₁, others, hfirst, hrest, rfl⟩ := annotateEach_cons h
      obtain ⟨htree, hothers⟩ := List.forall_mem_cons.mp htrees
      obtain ⟨c₁, hfirst', -⟩ := hcarries tree d c output d₁ hd hfirst
      rw [List.map_cons, ← ih hothers (htree.behind hd hfirst) hrest, annotatedIn, hfirst']

end Passes

/-! ## Functions that declare what they return -/

/-- A function under the signature that it declares. -/
def underSignature (names : TypeNames) (function : Function) : Function :=
  { function with signature := (declaredSignature names function).toOption }

theorem outputs_of_registerFunctions {inputs outputs : List Function} {c c' : Context}
    (h : annotateEach (registerFunction settings) inputs c = .ok outputs c') :
    outputs = inputs.map (underSignature settings.names) := by
  rw [← List.forall₂_eq_eq_eq, List.forall₂_map_right_iff]
  refine (forall₂_of_annotateEach h).flip.imp ?_
  rintro output input ⟨_, _, hinput⟩
  obtain ⟨signature, _, hsignature, -, rfl, -⟩ := registerFunction_eq_ok_iff.mp hinput
  rw [underSignature, hsignature]
  rfl

/-- Two functions may be registered in either order. -/
theorem swaps_registerFunction (first second : Function) :
    Swaps (registerFunction settings) first second := by
  intro c c₁ c₂ d output output' hc hfirst hsecond
  obtain ⟨signature, scope₁, hsignature, hscope₁, rfl, rfl⟩ :=
    registerFunction_eq_ok_iff.mp hfirst
  obtain ⟨signature', scope₂, hsignature', hscope₂, rfl, rfl⟩ :=
    registerFunction_eq_ok_iff.mp hsecond
  obtain ⟨between, after, hbetween, hafter, hsimilar⟩ := hc.scope.swapFunctions hscope₁ hscope₂
  exact ⟨_, _,
    registerFunction_eq_ok_iff.mpr ⟨signature', between, hsignature', hbetween, rfl, rfl⟩,
    registerFunction_eq_ok_iff.mpr ⟨signature, after, hsignature, hafter, rfl, rfl⟩,
    hsimilar, hc.returning⟩

/-- A function that declares what it returns has nothing to write into the scope. -/
theorem traceless_annotateFunction {function : Function}
    (hdeclared : function.returnTypeName.isSome = true) :
    Traceless (annotateFunction settings) function := by
  intro c c' output h
  obtain ⟨name, parameters, returnTypeName, body, signature⟩ := function
  obtain ⟨typeName, rfl⟩ := Option.isSome_iff_exists.mp hdeclared
  cases signature with
  | none =>
      unfold annotateFunction at h
      obtain ⟨h, -⟩ := Check.require_eq_ok.mp h
      cases h
  | some signature =>
      unfold annotateFunction at h
      obtain ⟨⟨_, known⟩, c₁, hpart, hrest⟩ := bind_eq_ok.mp h
      obtain ⟨-, rfl⟩ := pure_eq_ok.mp hrest
      obtain ⟨after, hbody, -, rfl⟩ := insideFunction_eq_ok (Check.part_eq_ok.mp hpart)
      obtain ⟨-, -, -, -, -, hscope⟩ := annotateBody_eq_ok hbody
      exact ⟨hscope, rfl⟩

end Typing

open Run Typing

/-- The functions of an accepted program may stand in another order: each of them is annotated as
the same tree, and the globals are too. -/
theorem Accepts.permute {settings : Settings} {globals : List Global}
    {functions functions' headed : List Function} {annotated : Program} {c₀ c₁ c₂ : Context}
    (h : Accepts settings ⟨globals, functions⟩ annotated headed c₀ c₁ c₂)
    (hdeclared : ∀ function ∈ functions, function.returnTypeName.isSome = true)
    (hperm : functions.Perm functions') :
    ∃ (tree : Function → Function) (d₀ d₁ d₂ : Context),
      annotated.functions = functions.map tree ∧
        Accepts settings ⟨globals, functions'⟩ ⟨annotated.globals, functions'.map tree⟩
          (functions'.map (underSignature settings.names)) d₀ d₁ d₂ := by
  obtain rfl := outputs_of_registerFunctions h.registered
  have hsame := Settings.Loosens.refl settings
  have hcarries := carries_annotateFunction hsame
  have hregistered : annotateEach (registerFunction settings) (functions.map id) .initial =
      .ok (functions.map (underSignature settings.names)) c₀ := by
    rw [List.map_id]
    exact h.registered
  obtain ⟨d₀, hregistered', hc₀⟩ := annotateEach_of_perm (carries_registerFunction hsame) hperm
    (fun i _ j _ => swaps_registerFunction i j) (.refl .initial) hregistered
  obtain ⟨d₁, hglobals', hc₁⟩ := carries_annotateEach (carries_annotateGlobal hsame) globals c₀ d₀
    _ c₁ hc₀ h.globals
  have htraceless : ∀ function ∈ functions,
      Traceless (annotateFunction settings) (underSignature settings.names function) :=
    fun function hmem => traceless_annotateFunction (hdeclared function hmem)
  have houtputs := outputs_of_traceless hcarries (List.forall_mem_map.mpr htraceless) (.refl c₁)
    h.bodies
  rw [List.map_map] at houtputs
  have hbodies := h.bodies
  rw [houtputs] at hbodies
  obtain ⟨d₂, hbodies', hc₂⟩ := annotateEach_of_perm hcarries hperm
    (fun i hi j hj => (htraceless i hi).swaps (htraceless j hj) hcarries) hc₁ hbodies
  rw [List.map_id'] at hregistered'
  exact ⟨_, d₀, d₁, d₂, houtputs, hregistered', hglobals', hbodies',
    (requireMain_of_similar hc₂.scope).trans h.main⟩

/-! ## Runs with the functions in another order -/

/-- Machines that hold the same but for the order in which functions are bound. -/
def Likeness.order : Likeness := .sameStores Eq fun _ => False

theorem Likeness.allows_order (settings : RunSettings) (fuel : Nat) :
    Likeness.order.Allows settings settings fuel fuel where
  rounds := .inl rfl
  depth := .inl rfl
  negative := .inl rfl
  takes := sameStores_takes
  header := by
    rintro function _ rfl
    exact ⟨rfl, rfl⟩
  body := by
    rintro function _ rfl calls
    rfl

/-- Frames that bind the same functions, and no variables, in whatever order. -/
theorem Likeness.frames_of_perm {funs funs' : List ((String × Nat) × Callable)}
    (hdistinct : (funs.map Prod.fst).Nodup) (hperm : funs.Perm funs') :
    Likeness.order.Frames ⟨[], funs⟩ ⟨[], funs'⟩ := by
  refine ⟨fun _ => rfl, fun name arity => ?_⟩
  simp only [Frame.lookupFunction, lookup_of_perm hdistinct hperm]
  cases funs.lookup (name, arity) with
  | none => exact .none
  | some callable =>
      cases callable with
      | print => exact .some .print
      | function function => exact .some (.function rfl)

namespace Program

variable {settings : RunSettings} {fuel : Nat} {machine : Machine} {globals : List Global}
  {functions functions' : List Function}

/-- Functions that a run can bind may stand in another order. -/
theorem execute_of_perm
    (hdistinct : ((Program.mk globals functions).linked.map Prod.fst).Nodup)
    (hperm : functions.Perm functions') :
    Program.execute settings fuel ⟨globals, functions'⟩ machine =
      Program.execute settings fuel ⟨globals, functions⟩ machine := by
  have hlinked : (Program.mk globals functions).linked.Perm
      (Program.mk globals functions').linked := by
    refine .append_right _ ?_
    exact (List.reverse_perm _).trans ((hperm.map _).trans (List.reverse_perm _).symm)
  have hdistinct' := (hlinked.map Prod.fst).nodup_iff.mp hdistinct
  have hbound := bindFunctions_of_distinct (m := { machine with scope := .initial }) rfl hdistinct
  have hbound' := bindFunctions_of_distinct (m := { machine with scope := .initial }) rfl hdistinct'
  have hends : Likeness.order.Ends id
      (Program.inside settings fuel ⟨globals, functions⟩ { machine with scope := .initial })
      (Program.inside settings fuel ⟨globals, functions'⟩ { machine with scope := .initial }) := by
    unfold Program.inside
    rw [bind_of_ok hbound, bind_of_ok hbound', hperm.length_eq]
    exact Likeness.alike_behindFunctions (Likeness.allows_order settings fuel) globals _ _ _
      { Likeness.stores_refl _ with scope := .root (Likeness.frames_of_perm hdistinct hlinked) }
  rcases Likeness.execute_of_ends hends with ⟨_, -, hcut⟩ | hsame
  · exact hcut.elim
  · exact hsame

/-- The order of the functions does not count where each declares what it returns. The checker
accepts a program with its functions in some order if it accepts it in any other, and annotates
every global and every function as the same tree; and a run comes to the same outcome in the same
machine, and so with the same output, whether of the programs themselves or of what the checker
has made of them. -/
theorem ignores_function_order (typing : Typing.Settings) (globals : List Global)
    (functions functions' : List Function)
    (hdeclared : ∀ function ∈ functions, function.returnTypeName.isSome = true)
    (hperm : functions.Perm functions') :
    ((∃ annotated, Program.check typing ⟨globals, functions⟩ = .ok annotated) ↔
        ∃ annotated, Program.check typing ⟨globals, functions'⟩ = .ok annotated) ∧
      ∀ annotated annotated' : Program,
        Program.check typing ⟨globals, functions⟩ = .ok annotated →
        Program.check typing ⟨globals, functions'⟩ = .ok annotated' →
          annotated'.globals = annotated.globals ∧
          (∃ tree : Function → Function, annotated.functions = functions.map tree ∧
            annotated'.functions = functions'.map tree) ∧
          ∀ (settings : RunSettings) (fuel : Nat) (machine : Machine),
            annotated'.execute settings fuel machine = annotated.execute settings fuel machine ∧
            Program.execute settings fuel ⟨globals, functions'⟩ machine =
              Program.execute settings fuel ⟨globals, functions⟩ machine := by
  refine ⟨⟨?_, ?_⟩, ?_⟩
  · rintro ⟨annotated, h⟩
    obtain ⟨_, _, _, _, haccepts⟩ := accepts_of_check h
    obtain ⟨_, _, _, _, -, haccepts'⟩ := haccepts.permute hdeclared hperm
    exact ⟨_, check_of_accepts haccepts'⟩
  · rintro ⟨annotated, h⟩
    obtain ⟨_, _, _, _, haccepts⟩ := accepts_of_check h
    obtain ⟨_, _, _, _, -, haccepts'⟩ := haccepts.permute
      (fun function hmem => hdeclared function (hperm.mem_iff.mpr hmem)) hperm.symm
    exact ⟨_, check_of_accepts haccepts'⟩
  · intro annotated annotated' h h'
    obtain ⟨_, _, _, _, haccepts⟩ := accepts_of_check h
    obtain ⟨tree, _, _, _, hfunctions, haccepts'⟩ := haccepts.permute hdeclared hperm
    obtain rfl := Except.ok.inj ((check_of_accepts haccepts').symm.trans h')
    refine ⟨rfl, ⟨tree, hfunctions, rfl⟩, fun settings fuel machine => ?_⟩
    have hannotated : Program.execute settings fuel ⟨annotated.globals, functions'.map tree⟩
        machine = annotated.execute settings fuel machine := by
      have hdistinct := haccepts.distinct_linked
      obtain ⟨globals', functions''⟩ := annotated
      obtain rfl : functions'' = functions.map tree := hfunctions
      exact execute_of_perm hdistinct (hperm.map tree)
    refine ⟨hannotated, ?_⟩
    -- A program does what it does with its annotations.
    rw [← execute_congr haccepts.erase, ← hannotated, execute_congr haccepts'.erase]

/-! ### Two functions that call each other -/

/-- A function that tells whether a number is even, by the one that tells whether it is odd. -/
def evenFunction : Function :=
  ⟨"even", [⟨"n", "Integer"⟩], some "Boolean",
    [.branch (.binary .equal (.access "n" none none) (.literal (.integer 0) none) none)
      [.result (.literal (.boolean true) none)]
      [.result (.call "odd"
        [.binary .subtract (.access "n" none none) (.literal (.integer 1) none) none] none
        none)]], none⟩

/-- A function that tells whether a number is odd, by the one that tells whether it is even. -/
def oddFunction : Function :=
  ⟨"odd", [⟨"n", "Integer"⟩], some "Boolean",
    [.branch (.binary .equal (.access "n" none none) (.literal (.integer 0) none) none)
      [.result (.literal (.boolean false) none)]
      [.result (.call "even"
        [.binary .subtract (.access "n" none none) (.literal (.integer 1) none) none] none
        none)]], none⟩

/-- A function that prints a global and whether three is odd. -/
def parityMain : Function :=
  ⟨"main", [], some "Integer",
    [.expression (.call "print" [.access "two" none none] none none),
      .expression (.call "print" [.call "odd" [.literal (.integer 3) none] none none] none none),
      .result (.literal (.integer 0) none)], none⟩

/-- A global that is initialised by a call. -/
def parityGlobal : Global :=
  ⟨"two", none, false, some (.call "even" [.literal (.integer 2) none] none none), none⟩

/-- In front of the functions that it calls or behind them, `main` is accepted and prints the
same. -/
theorem ignores_function_order_parity :
    (∀ function ∈ [evenFunction, oddFunction, parityMain],
        function.returnTypeName.isSome = true) ∧
      [evenFunction, oddFunction, parityMain].Perm [parityMain, oddFunction, evenFunction] ∧
      ∃ annotated annotated' : Program,
        Program.check default ⟨[parityGlobal], [evenFunction, oddFunction, parityMain]⟩ =
          .ok annotated ∧
        Program.check default ⟨[parityGlobal], [parityMain, oddFunction, evenFunction]⟩ =
          .ok annotated' ∧
        (annotated.execute default 0 (.initial .unlimited)).1 = .finished 0 ∧
        (annotated.execute default 0 (.initial .unlimited)).2.sink.text = "true\ntrue\n" ∧
        annotated'.execute default 0 (.initial .unlimited) =
          annotated.execute default 0 (.initial .unlimited) := by
  have hdeclared : ∀ function ∈ [evenFunction, oddFunction, parityMain],
      function.returnTypeName.isSome = true := by
    simp [evenFunction, oddFunction, parityMain]
  have hperm : [evenFunction, oddFunction, parityMain].Perm
      [parityMain, oddFunction, evenFunction] :=
    List.reverse_perm [parityMain, oddFunction, evenFunction]
  obtain ⟨annotated, hcheck⟩ : ∃ annotated, Program.check default
      ⟨[parityGlobal], [evenFunction, oddFunction, parityMain]⟩ = .ok annotated := by
    have hok : (Program.check default
        ⟨[parityGlobal], [evenFunction, oddFunction, parityMain]⟩).isOk = true := by decide +kernel
    generalize Program.check _ _ = result at hok ⊢
    cases result with
    | ok annotated => exact ⟨annotated, rfl⟩
    | error reason => cases hok
  obtain ⟨haccepted, hsame⟩ :=
    ignores_function_order default [parityGlobal] _ _ hdeclared hperm
  obtain ⟨annotated', hcheck'⟩ := haccepted.mp ⟨annotated, hcheck⟩
  obtain ⟨-, -, hexecute⟩ := hsame annotated annotated' hcheck hcheck'
  have hrun : annotated.execute default 0 (.initial .unlimited) =
      Program.execute default 0 ⟨[parityGlobal], [evenFunction, oddFunction, parityMain]⟩
        (.initial .unlimited) := by
    obtain ⟨_, _, _, _, haccepts⟩ := accepts_of_check hcheck
    exact execute_congr haccepts.erase
  refine ⟨hdeclared, hperm, annotated, annotated', hcheck, hcheck', ?_, ?_,
    (hexecute default 0 (.initial .unlimited)).1⟩
  · rw [hrun]
    decide +kernel
  · rw [hrun]
    decide +kernel

end Program

end TinyScript
