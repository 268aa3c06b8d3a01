import TinyScript.Proofs.Certificate.Calls
import TinyScript.Proofs.Certificate.Erasure
import TinyScript.Proofs.Certificate.Program

/-!
# Inferred results and what calls see of them

A function that does not declare what it returns returns what its first result is, wherever in the
body that stands (`ResultSettled`). Checking comes to know this behind the body only, and a call
records what is known when it is checked. So a call records the final signature of a function that
stands in front of the one around the call, and of one that declares its result; of all others,
itself among them, it records that they return anything. The initial values of globals are checked
in front of all bodies (`results_and_calls_of_check`).
-/

namespace TinyScript

open Certificate Typing

/-! ## Signatures at a position -/

/-- The final signature returns what is declared, or else what the first result of the body is, nil
if it has none; and every result fits it. -/
structure ResultSettled (names : TypeNames) (function : Function) (final : Signature) : Prop where
  recorded : function.signature = some final
  declared : ∀ typeName, function.returnTypeName = some typeName →
    names.resolve typeName = .ok final.returns
  inferred : function.returnTypeName = none → final.returns = firstResultType function.body
  fits : ∀ ty ∈ resultTypesOf function.body, Fits final.returns ty

/-- What is known of a function with a given final signature: all, if the result is declared or has
been inferred, and otherwise that it returns anything. -/
def Function.knownAs (function : Function) (final : Signature) (isInferred : Bool) : Signature :=
  if function.returnTypeName.isSome || isInferred then final else { final with returns := .any }

/-- The call names the function and has as many arguments as that has parameters. -/
def CallSite.Calls (site : CallSite) (function : Function) : Prop :=
  site.name = function.name ∧ site.arity = function.arity

section Positions

variable {functions : List Function}

/-- Entries of functions stand under their names and arities. -/
theorem map_fst_filterMap (functions : List Function)
    {entry : Function → Option ((String × Nat) × Signature)}
    (h : ∀ function ∈ functions,
      (entry function).map Prod.fst = some (function.name, function.arity)) :
    (functions.filterMap entry).map Prod.fst =
      functions.map fun function => (function.name, function.arity) := by
  rw [List.map_filterMap, List.filterMap_congr h, List.filterMap_eq_map']

/-- In every view the functions have the same names. -/
theorem map_fst_signatures {program : Program}
    (hrecorded : ∀ function ∈ program.functions, ∃ final, function.signature = some final)
    (globals : List Global) (i : Nat) :
    (viewAt globals (program.functions.take i) (program.functions.drop i)).signatures.map Prod.fst =
      program.linked.map Prod.fst := by
  have hknown : ∀ function ∈ program.functions.take i,
      (known function).map Prod.fst = some (function.name, function.arity) := by
    intro function hmem
    obtain ⟨final, hfinal⟩ := hrecorded function (List.mem_of_mem_take hmem)
    simp [known, hfinal]
  have hshown : ∀ function ∈ program.functions.drop i,
      (shown function).map Prod.fst = some (function.name, function.arity) := by
    intro function hmem
    obtain ⟨final, hfinal⟩ := hrecorded function (List.mem_of_mem_drop hmem)
    simp [shown, hfinal]
  rw [viewAt, List.map_append, List.map_reverse, List.map_append, map_fst_filterMap _ hknown,
    map_fst_filterMap _ hshown, ← List.map_append, List.take_append_drop, Program.linked,
    List.map_append, List.map_reverse, List.map_map]
  rfl

/-- The entry of a function in the view at a position is known or shown, as it stands in front of
the position or not. -/
theorem mem_signatures {globals : List Global} {i j : Nat} {callee : Function} {final : Signature}
    (hcallee : functions[j]? = some callee) (hfinal : callee.signature = some final) :
    ((callee.name, callee.arity), callee.knownAs final (j < i)) ∈
      (viewAt globals (functions.take i) (functions.drop i)).signatures := by
  refine List.mem_append_left _ (List.mem_reverse.mpr ?_)
  by_cases hfront : j < i
  · refine List.mem_append_left _ (List.mem_filterMap.mpr ⟨callee, ?_, ?_⟩)
    · exact List.mem_of_getElem? ((List.getElem?_take_of_lt hfront).trans hcallee)
    · simp [known, hfinal, Function.knownAs, hfront]
  · refine List.mem_append_right _ (List.mem_filterMap.mpr ⟨callee, ?_, ?_⟩)
    · have hplace : i + (j - i) = j := Nat.add_sub_cancel' (Nat.le_of_not_lt hfront)
      exact List.mem_of_getElem? (List.getElem?_drop.trans (hplace ▸ hcallee))
    · simp [shown, hfinal, Function.knownAs, hfront]

/-- A call that sees the view at a position records what is known of the function there. -/
theorem recorded_of_sees {program : Program} {globals : List Global} {i j : Nat}
    {callee : Function} {final : Signature} {site : CallSite}
    (hrecorded : ∀ function ∈ program.functions, ∃ final, function.signature = some final)
    (hdistinct : (program.linked.map Prod.fst).Nodup)
    (hsees : site.Sees
      (viewAt globals (program.functions.take i) (program.functions.drop i)).signatures)
    (hcallee : program.functions[j]? = some callee) (hfinal : callee.signature = some final)
    (hcalls : site.Calls callee) :
    site.recorded = some (callee.knownAs final (j < i)) := by
  obtain ⟨signature, hsite, hlookup⟩ := hsees
  rw [← map_fst_signatures hrecorded globals i] at hdistinct
  rw [hcalls.1, hcalls.2, lookup_of_mem hdistinct (mem_signatures hcallee hfinal)] at hlookup
  rw [hsite, hlookup]

end Positions

/-! ## Accepted programs -/

theorem Certificate.CertifiesFunction.settled {names : TypeNames} {view : View}
    {function : Function} {final : Signature}
    (h : CertifiesFunction names view function final) : ResultSettled names function final := by
  obtain ⟨inner, hbody⟩ := h.body
  exact ⟨h.recorded, h.declared, h.inferred, fits_of_certifiesStatements _ hbody⟩

/-- What an accepted program returns and what its calls record. The result of a function is the one
that it declares, or else the type of its first result. A call in the body at position `i` records
the final signature of the function at position `j` if that declares its result or `j < i`, and with
any result otherwise. A call in a global records every result that is not declared as any. -/
theorem results_and_calls_of_check {settings : Settings} {source annotated : Program}
    (h : source.check settings = .ok annotated) :
    annotated.rewrite .erasing = source.rewrite .erasing ∧
    (∀ function ∈ annotated.functions, ∃ final, ResultSettled settings.names function final) ∧
    (∀ (i j : Nat) (caller callee : Function) (final : Signature),
      annotated.functions[i]? = some caller → annotated.functions[j]? = some callee →
      callee.signature = some final → ∀ site ∈ caller.callSites, site.Calls callee →
        site.recorded = some (callee.knownAs final (j < i))) ∧
    ∀ global ∈ annotated.globals, ∀ callee ∈ annotated.functions, ∀ final : Signature,
      callee.signature = some final → ∀ site ∈ global.callSites, site.Calls callee →
        site.recorded = some (callee.knownAs final false) := by
  obtain ⟨functions, c₀, c₁, c₂, haccepts⟩ := accepts_of_check h
  have hcertified := certifiesProgram_of_accepts haccepts
  have hsettled : ∀ function ∈ annotated.functions,
      ∃ final, ResultSettled settings.names function final := by
    intro function hmem
    obtain ⟨earlier, later, hsplit⟩ := List.append_of_mem hmem
    obtain ⟨final, hfunction⟩ := hcertified.functions earlier function later hsplit
    exact ⟨final, hfunction.settled⟩
  have hrecorded : ∀ function ∈ annotated.functions, ∃ final, function.signature = some final :=
    fun function hmem => (hsettled function hmem).imp fun _ hfinal => hfinal.recorded
  refine ⟨haccepts.erase, hsettled, ?_, ?_⟩
  · intro i j caller callee final hcaller hcallee hfinal site hsite hcalls
    obtain ⟨hi, rfl⟩ := List.getElem?_eq_some_iff.mp hcaller
    have hdrop := List.drop_eq_getElem_cons hi
    obtain ⟨_, hfunction⟩ := hcertified.functions (annotated.functions.take i) _ _
      (by rw [← hdrop, List.take_append_drop])
    rw [← hdrop] at hfunction
    exact recorded_of_sees hrecorded haccepts.distinct_linked (hfunction.sees site hsite) hcallee
      hfinal hcalls
  · intro global hmem callee hcallee final hfinal site hsite hcalls
    obtain ⟨earlier, later, hsplit⟩ := List.append_of_mem hmem
    obtain ⟨j, hj⟩ := List.getElem?_of_mem hcallee
    have hsees := (hcertified.globals earlier global later hsplit).sees site hsite
    -- No body has been checked yet, so this is the view at the first position.
    have hrecord := recorded_of_sees (i := 0) hrecorded haccepts.distinct_linked hsees hj hfinal
      hcalls
    simpa using hrecord

/-- A function that calls itself and one behind it, and whose first result stands in a block. -/
def countdown : Function :=
  ⟨"count", [⟨"n", "Integer"⟩], none,
    [.branch
        (.binary .less (.access "n" (some ⟨"n", .integer, none, true⟩) (some .integer))
          (.literal (.integer 1) (some .integer)) (some .boolean))
        [.result (.literal (.integer 0) (some .integer))] [],
      .expression (.call "count" [.access "n" (some ⟨"n", .integer, none, true⟩) (some .integer)]
        (some ⟨"count", [.integer], .any⟩) (some .any)),
      .expression (.call "label" [] (some ⟨"label", [], .any⟩) (some .any)),
      .result (.literal (.integer 1) (some .integer))],
    some ⟨"count", [.integer], .integer⟩⟩

/-- A function without a result, which calls one behind it that declares its result. -/
def labelling : Function :=
  ⟨"label", [], none, [.expression (.call "main" [] (some ⟨"main", [], .integer⟩) (some .integer))],
    some ⟨"label", [], .nil⟩⟩

/-- A function that calls two in front of it. -/
def countingMain : Function :=
  ⟨"main", [], some "Integer",
    [.expression (.call "label" [] (some ⟨"label", [], .nil⟩) (some .nil)),
      .result (.call "count" [.literal (.integer 3) (some .integer)]
        (some ⟨"count", [.integer], .integer⟩) (some .integer))],
    some ⟨"main", [], .integer⟩⟩

/-- A global that calls a function. -/
def countingStart : Global :=
  ⟨"start", none, true,
    some (.call "count" [.literal (.integer 2) (some .integer)]
      (some ⟨"count", [.integer], .any⟩) (some .any)),
    some ⟨"start", .any, none, true⟩⟩

/-- An annotated program with calls of every kind. -/
def counting : Program := ⟨[countingStart], [countdown, labelling, countingMain]⟩

/-- A function as it is registered. -/
def registeredAs (function : Function) (returns : Ty) : Function :=
  { function.rewrite .erasing with
    signature := function.signature.map fun signature => { signature with returns } }

/-- The root frame when calls of the two functions give the given types. -/
def countingFrame (count label : Ty) : Frame VariableBinding Signature where
  vars := [("start", ⟨"start", .any, none, true⟩)]
  funs :=
    [(("main", 0), ⟨"main", [], .integer⟩), (("label", 0), ⟨"label", [], label⟩),
      (("count", 1), ⟨"count", [.integer], count⟩), (("print", 1), printSignature)]

theorem check_counting : (counting.rewrite .erasing).check default = .ok counting := by
  let registrations := [Notice.functionRegistered "main" 0, .functionRegistered "label" 0,
    .functionRegistered "count" 1]
  let notices := .globalRegistered "start" .any :: registrations
  have hregistered : annotateEach (registerFunction default) (counting.rewrite .erasing).functions
      .initial = .ok [registeredAs countdown .any, registeredAs labelling .any,
        registeredAs countingMain .integer]
        ⟨.root { countingFrame .any .any with vars := [] }, none, registrations⟩ := rfl
  have hglobals : annotateEach (annotateGlobal default) (counting.rewrite .erasing).globals
      ⟨.root { countingFrame .any .any with vars := [] }, none, registrations⟩ =
      .ok counting.globals ⟨.root (countingFrame .any .any), none, notices⟩ := rfl
  have hcount : annotateFunction default (registeredAs countdown .any)
      ⟨.root (countingFrame .any .any), none, notices⟩ =
      .ok countdown ⟨.root (countingFrame .integer .any), none,
        .resultInferred "count" .integer :: notices⟩ := rfl
  have hlabel : annotateFunction default (registeredAs labelling .any)
      ⟨.root (countingFrame .integer .any), none, .resultInferred "count" .integer :: notices⟩ =
      .ok labelling ⟨.root (countingFrame .integer .nil), none,
        .resultInferred "label" .nil :: .resultInferred "count" .integer :: notices⟩ := rfl
  have hmain : annotateFunction default (registeredAs countingMain .integer)
      ⟨.root (countingFrame .integer .nil), none,
        .resultInferred "label" .nil :: .resultInferred "count" .integer :: notices⟩ =
      .ok countingMain ⟨.root (countingFrame .integer .nil), none,
        .resultInferred "label" .nil :: .resultInferred "count" .integer :: notices⟩ := rfl
  have hbodies : annotateEach (annotateFunction default)
      [registeredAs countdown .any, registeredAs labelling .any,
        registeredAs countingMain .integer]
      ⟨.root (countingFrame .any .any), none, notices⟩ =
      .ok counting.functions ⟨.root (countingFrame .integer .nil), none,
        .resultInferred "label" .nil :: .resultInferred "count" .integer :: notices⟩ := by
    simp only [annotateEach, bind_eq_ok, Check.part_eq_ok, pure_eq_ok]
    exact ⟨_, _, hcount, _, _, ⟨_, _, hlabel, _, _, ⟨_, _, hmain, _, _, ⟨rfl, rfl⟩, rfl, rfl⟩,
      rfl, rfl⟩, rfl, rfl⟩
  exact check_of_accepts ⟨hregistered, hglobals, hbodies, rfl⟩

/-- Calls in front of a body, behind it and from inside it, of functions whose results are declared
and inferred. -/
theorem results_and_calls_of_check_counting :
    (counting.rewrite .erasing).check default = .ok counting ∧
    (∃ final, ResultSettled .builtin countdown final) ∧
    (∀ site ∈ countdown.callSites, site.Calls countdown →
      site.recorded = some ⟨"count", [.integer], .any⟩) ∧
    (∀ site ∈ countdown.callSites, site.Calls labelling →
      site.recorded = some ⟨"label", [], .any⟩) ∧
    (∀ site ∈ labelling.callSites, site.Calls countingMain →
      site.recorded = some ⟨"main", [], .integer⟩) ∧
    (∀ site ∈ countingMain.callSites, site.Calls countdown →
      site.recorded = some ⟨"count", [.integer], .integer⟩) ∧
    ∀ site ∈ countingStart.callSites, site.Calls countdown →
      site.recorded = some ⟨"count", [.integer], .any⟩ := by
  obtain ⟨-, settled, calls, globals⟩ := results_and_calls_of_check check_counting
  exact ⟨check_counting, settled countdown (by simp [counting]),
    calls 0 0 countdown countdown _ rfl rfl rfl, calls 0 1 countdown labelling _ rfl rfl rfl,
    calls 1 2 labelling countingMain _ rfl rfl rfl, calls 2 0 countingMain countdown _ rfl rfl rfl,
    globals countingStart (by simp [counting]) countdown (by simp [counting]) _ rfl⟩

end TinyScript
