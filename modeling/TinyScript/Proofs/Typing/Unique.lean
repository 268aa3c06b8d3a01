import TinyScript.Proofs.Typing.Program

/-!
# One context for every site

In an accepted program no two globals share a name, and no two functions share name and arity. So a
site stands for one place in the program, and the checker takes up one item there, in one context.
-/

namespace TinyScript.Typing

variable {settings : Settings} {program : Program}

/-! ## Taking visits of the checker apart -/

/-- The checker starts with the initial value of a global or with the body of a function. -/
theorem Checked.start {owner : Owner} {item : Item} {c : Context}
    (h : Checked settings program owner [] item c) :
    (∃ functions c₀ earlier global later globals value,
      owner = .global global.name ∧ item = .expression value ∧
      annotateEach (registerFunction settings) program.functions .initial = .ok functions c₀ ∧
      program.globals = earlier ++ global :: later ∧
      annotateEach (annotateGlobal settings) earlier c₀ = .ok globals c ∧
      global.value = some value) ∨
    ∃ functions c₀ globals c₁ earlier function later annotated c' signature,
      owner = .function function.name function.arity ∧ item = .statements function.body ∧
      annotateEach (registerFunction settings) program.functions .initial = .ok functions c₀ ∧
      annotateEach (annotateGlobal settings) program.globals c₀ = .ok globals c₁ ∧
      functions = earlier ++ function :: later ∧
      annotateEach (annotateFunction settings) earlier c₁ = .ok annotated c' ∧
      function.signature = some signature ∧
      defineParameters function.body function.parameters signature.parameters
        (c'.body function signature) = .ok () c := by
  cases h with
  | initial hfunctions hsplit hearlier hvalue =>
      exact .inl ⟨_, _, _, _, _, _, _, rfl, rfl, hfunctions, hsplit, hearlier, hvalue⟩
  | body hfunctions hglobals hsplit hearlier hsignature hparameters =>
      exact .inr ⟨_, _, _, _, _, _, _, _, _, _, rfl, rfl, hfunctions, hglobals, hsplit, hearlier,
        hsignature, hparameters⟩

/-- Everything else the checker visits is a part of what it visits. -/
theorem Checked.whole {owner : Owner} {number : Nat} {place : List Nat} {item : Item} {c : Context}
    (h : Checked settings program owner (number :: place) item c) :
    ∃ whole c₀, Checked settings program owner place whole c₀ ∧
      Step settings whole c₀ number item c := by
  cases h with
  | part hwhole hstep => exact ⟨_, _, hwhole, hstep⟩

/-! ## Uniqueness -/

/-- A list whose keys are distinct is split in one way at an entry of a given key. -/
theorem split_unique {α β : Type} {key : α → β} : ∀ {front front' behind behind' : List α}
    {entry entry' : α}, front ++ entry :: behind = front' ++ entry' :: behind' →
      key entry = key entry' → ((front ++ entry :: behind).map key).Nodup →
        front = front' ∧ entry = entry' := by
  intro front
  induction front with
  | nil =>
      intro front' behind behind' entry entry' h hkey hdistinct
      cases front' with
      | nil =>
          cases h
          exact ⟨rfl, rfl⟩
      | cons other front' =>
          cases h
          rw [List.nil_append, List.map_cons, List.nodup_cons] at hdistinct
          refine absurd (List.mem_map.mpr ⟨entry', ?_, hkey.symm⟩) hdistinct.1
          exact List.mem_append_right _ List.mem_cons_self
  | cons other front ih =>
      intro front' behind behind' entry entry' h hkey hdistinct
      rw [List.cons_append, List.map_cons, List.nodup_cons] at hdistinct
      cases front' with
      | nil =>
          cases h
          refine absurd (List.mem_map.mpr ⟨entry, ?_, hkey⟩) hdistinct.1
          exact List.mem_append_right _ List.mem_cons_self
      | cons other' front' =>
          rw [List.cons_append, List.cons_append, List.cons.injEq] at h
          obtain ⟨rfl, h⟩ := h
          obtain ⟨rfl, hentry⟩ := ih h hkey hdistinct.2
          exact ⟨rfl, hentry⟩

/-- The item that the checker takes up at a site, and the context, are determined by the site. -/
theorem Checked.unique (hglobals : (program.globals.map Global.name).Nodup)
    (hfunctions : (program.functions.map fun function => (function.name, function.arity)).Nodup)
    {owner : Owner} : ∀ {place : List Nat} {item item' : Item} {c c' : Context},
      Checked settings program owner place item c → Checked settings program owner place item' c' →
        item = item' ∧ c = c' := by
  intro place
  induction place with
  | nil =>
      intro item item' c c' h h'
      -- The owner fixes the global or the function, and what is checked in front of it fixes the
      -- context.
      rcases h.start with
        ⟨functions, c₀, earlier, global, later, globals, value, rfl, rfl, hregistered, hsplit,
          hearlier, hvalue⟩ |
        ⟨functions, c₀, globals, c₁, earlier, function, later, annotated, c₂, signature, rfl, rfl,
          hregistered, hchecked, hsplit, hearlier, hsignature, hparameters⟩
      · rcases h'.start with
          ⟨functions', c₀', earlier', global', later', globals', value', howner, rfl, hregistered',
            hsplit', hearlier', hvalue'⟩ | ⟨_, _, _, _, _, _, _, _, _, _, howner, -⟩
        · rw [hsplit] at hglobals
          have hname : global.name = global'.name := by injection howner
          obtain ⟨rfl, rfl⟩ := split_unique (hsplit.symm.trans hsplit') hname hglobals
          rw [hregistered] at hregistered'
          cases hregistered'
          rw [hearlier] at hearlier'
          cases hearlier'
          rw [hvalue] at hvalue'
          cases hvalue'
          exact ⟨rfl, rfl⟩
        · cases howner
      · rcases h'.start with
          ⟨_, _, _, _, _, _, _, howner, -⟩ |
          ⟨functions', c₀', globals', c₁', earlier', function', later', annotated', c₂', signature',
            howner, rfl, hregistered', hchecked', hsplit', hearlier', hsignature', hparameters'⟩
        · cases howner
        · rw [hregistered] at hregistered'
          cases hregistered'
          have hkeys := (scope_of_registered hregistered).2.2.2
          rw [← hkeys, hsplit] at hfunctions
          have hkey : (function.name, function.arity) = (function'.name, function'.arity) := by
            injection howner with hname harity
            rw [hname, harity]
          obtain ⟨rfl, rfl⟩ := split_unique (hsplit.symm.trans hsplit') hkey hfunctions
          rw [hchecked] at hchecked'
          cases hchecked'
          rw [hearlier] at hearlier'
          cases hearlier'
          rw [hsignature] at hsignature'
          cases hsignature'
          rw [hparameters] at hparameters'
          cases hparameters'
          exact ⟨rfl, rfl⟩
  | cons number place ih =>
      intro item item' c c' h h'
      obtain ⟨whole, c₀, hwhole, hstep⟩ := h.whole
      obtain ⟨whole', c₀', hwhole', hstep'⟩ := h'.whole
      obtain ⟨rfl, rfl⟩ := ih hwhole hwhole'
      exact hstep.unique hstep'

end TinyScript.Typing
