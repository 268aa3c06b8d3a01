import Mathlib.Data.List.Forall2
import Mathlib.Data.List.Nodup
import TinyScript.Scope

/-!
# Chains of frames, further

What changes of the innermost frame leave as it was, at which depth a name is found, and when two
chains bind the same names frame by frame. Entries of two lists that are related one by one under
the same keys are found or missed together.
-/

namespace TinyScript

/-! ## Entries -/

section Entries

variable {κ α β : Type}

theorem mem_of_lookup [BEq κ] [LawfulBEq κ] {key : κ} {value : α} {entries : List (κ × α)}
    (h : entries.lookup key = some value) : (key, value) ∈ entries := by
  induction entries with
  | nil => cases h
  | cons entry entries ih =>
      obtain ⟨k, v⟩ := entry
      rw [List.lookup_cons] at h
      split at h
      · next same =>
          cases h
          rw [eq_of_beq same]
          exact List.mem_cons_self
      · exact List.mem_cons_of_mem _ (ih h)

/-- A key is missed where no entry has it. -/
theorem lookup_eq_none_iff_keys [BEq κ] [LawfulBEq κ] {key : κ} {entries : List (κ × α)} :
    entries.lookup key = none ↔ key ∉ entries.map Prod.fst := by
  rw [List.lookup_eq_none_iff, List.mem_map]
  constructor
  · rintro hnone ⟨entry, hmem, rfl⟩
    exact bne_iff_ne.mp (hnone entry hmem) rfl
  · intro hkey entry hmem
    exact bne_iff_ne.mpr fun heq => hkey ⟨entry, hmem, heq.symm⟩

theorem lookup_of_mem [BEq κ] [LawfulBEq κ] {key : κ} {value : α} {entries : List (κ × α)}
    (hdistinct : (entries.map Prod.fst).Nodup) (h : (key, value) ∈ entries) :
    entries.lookup key = some value := by
  induction entries with
  | nil => cases h
  | cons entry entries ih =>
      obtain ⟨k, v⟩ := entry
      rw [List.map_cons, List.nodup_cons] at hdistinct
      rcases List.mem_cons.mp h with heq | hmem
      · cases heq
        simp
      · have hne : key ≠ k := by
          rintro rfl
          exact hdistinct.1 (List.mem_map.mpr ⟨_, hmem, rfl⟩)
        rw [List.lookup_cons, beq_false_of_ne hne]
        exact ih hdistinct.2 hmem

/-- Where no two entries have one key, their order does not count. -/
theorem lookup_of_perm [BEq κ] [LawfulBEq κ] {entries entries' : List (κ × α)}
    (hdistinct : (entries.map Prod.fst).Nodup) (hperm : entries.Perm entries') (key : κ) :
    entries'.lookup key = entries.lookup key := by
  cases h : entries.lookup key with
  | some value =>
      exact lookup_of_mem ((hperm.map Prod.fst).nodup_iff.mp hdistinct)
        (hperm.mem_iff.mp (mem_of_lookup h))
  | none =>
      rw [lookup_eq_none_iff_keys] at h ⊢
      exact fun hkey => h ((hperm.map Prod.fst).mem_iff.mpr hkey)

/-- Two lists of entries under the same keys, the values at each place being related. -/
abbrev Entrywise (related : α → β → Prop) (left : List (κ × α)) (right : List (κ × β)) : Prop :=
  List.Forall₂ (fun entry other => entry.1 = other.1 ∧ related entry.2 other.2) left right

namespace Entrywise

variable {related : α → β → Prop} {left : List (κ × α)} {right : List (κ × β)}

theorem keys (h : Entrywise related left right) : left.map Prod.fst = right.map Prod.fst := by
  induction h with
  | nil => rfl
  | cons hentry _ ih => simp [hentry.1, ih]

theorem mono {related' : α → β → Prop} (h : Entrywise related left right)
    (himp : ∀ a b, related a b → related' a b) : Entrywise related' left right :=
  h.imp fun _ _ hentry => ⟨hentry.1, himp _ _ hentry.2⟩

variable [BEq κ]

theorem lookup (h : Entrywise related left right) (key : κ) :
    (left.lookup key = none ∧ right.lookup key = none) ∨
      ∃ a b, left.lookup key = some a ∧ right.lookup key = some b ∧ related a b := by
  induction h with
  | nil => exact .inl ⟨rfl, rfl⟩
  | @cons entry other left right hentry _ ih =>
      obtain ⟨k, a⟩ := entry
      obtain ⟨k', b⟩ := other
      obtain ⟨same, hrelated⟩ := hentry
      obtain rfl : k = k' := same
      by_cases here : key == k
      · exact .inr ⟨a, b, by simp [List.lookup_cons, here], by simp [List.lookup_cons, here],
          hrelated⟩
      · simpa [List.lookup_cons, here] using ih

theorem lookup_left {key : κ} {a : α} (h : Entrywise related left right)
    (hleft : left.lookup key = some a) : ∃ b, right.lookup key = some b ∧ related a b := by
  rcases h.lookup key with ⟨hnone, -⟩ | ⟨a', b, hsome, hright, hrelated⟩
  · rw [hnone] at hleft
    cases hleft
  · rw [hsome] at hleft
    cases hleft
    exact ⟨b, hright, hrelated⟩

theorem lookup_right {key : κ} {b : β} (h : Entrywise related left right)
    (hright : right.lookup key = some b) : ∃ a, left.lookup key = some a ∧ related a b := by
  rcases h.lookup key with ⟨-, hnone⟩ | ⟨a, b', hleft, hsome, hrelated⟩
  · rw [hnone] at hright
    cases hright
  · rw [hsome] at hright
    cases hright
    exact ⟨a, hleft, hrelated⟩

theorem replace_right {key : κ} {b : β} (h : Entrywise related left right)
    (hrelated : ∀ a, left.lookup key = some a → related a b) :
    Entrywise related left (replaceEntry key b right) := by
  induction h with
  | nil => exact .nil
  | @cons entry other left right hentry hrest ih =>
      obtain ⟨k, a⟩ := entry
      obtain ⟨k', b'⟩ := other
      obtain rfl : k = k' := hentry.1
      unfold replaceEntry
      by_cases here : key == k
      · rw [if_pos here]
        exact .cons ⟨rfl, hrelated a (by simp [List.lookup_cons, here])⟩ hrest
      · rw [if_neg here]
        exact .cons hentry (ih fun a' ha' => hrelated a' (by simpa [List.lookup_cons, here]))

theorem replace_left {key : κ} {a : α} (h : Entrywise related left right)
    (hrelated : ∀ b, right.lookup key = some b → related a b) :
    Entrywise related (replaceEntry key a left) right := by
  induction h with
  | nil => exact .nil
  | @cons entry other left right hentry hrest ih =>
      obtain ⟨k, a'⟩ := entry
      obtain ⟨k', b⟩ := other
      obtain rfl : k = k' := hentry.1
      unfold replaceEntry
      by_cases here : key == k
      · rw [if_pos here]
        exact .cons ⟨rfl, hrelated b (by simp [List.lookup_cons, here])⟩ hrest
      · rw [if_neg here]
        exact .cons hentry (ih fun b' hb' => hrelated b' (by simpa [List.lookup_cons, here]))

end Entrywise

/-- Entries under the same keys are found or missed together. -/
theorem isSome_lookup_of_keys [BEq κ] {key : κ} : ∀ {left : List (κ × α)} {right : List (κ × β)},
    left.map Prod.fst = right.map Prod.fst →
      (left.lookup key).isSome = (right.lookup key).isSome := by
  intro left
  induction left with
  | nil =>
      intro right h
      rw [List.map_eq_nil_iff.mp h.symm]
      rfl
  | cons entry left ih =>
      intro right h
      cases right with
      | nil => cases h
      | cons other right =>
          obtain ⟨hkey, hkeys⟩ := List.cons.inj h
          rw [List.lookup_cons, List.lookup_cons, ← hkey]
          split
          · rfl
          · exact ih hkeys

/-- Entries in front of others do not answer for a key that only the others have. -/
theorem lookup_append_of_disjoint [BEq κ] {key : κ} {front behind : List (κ × α)}
    (h : front.lookup key = none) : (front ++ behind).lookup key = behind.lookup key := by
  rw [List.lookup_append, h, Option.none_or]

end Entries

/-! ## Scopes -/

namespace Scope

variable {V F : Type}

@[simp] theorem modifyCurrent_id (scope : Scope V F) :
    scope.modifyCurrent (fun frame => frame) = scope := by
  cases scope <;> rfl

@[simp] theorem modifyCurrent_modifyCurrent (first second : Frame V F → Frame V F)
    (scope : Scope V F) :
    (scope.modifyCurrent first).modifyCurrent second =
      scope.modifyCurrent fun frame => second (first frame) := by
  cases scope <;> rfl

@[simp] theorem current_modifyCurrent (change : Frame V F → Frame V F) (scope : Scope V F) :
    (scope.modifyCurrent change).current = change scope.current := by
  cases scope <;> rfl

theorem defineVariable?_eq_some {scope scope' : Scope V F} {name : String} {binding : V} :
    scope.defineVariable? name binding = some scope' ↔
      scope.current.lookupVariable name = none ∧
        scope' = scope.modifyCurrent (·.addVariable name binding) := by
  unfold defineVariable?
  cases scope.current.lookupVariable name <;> simp [eq_comm]

theorem defineVariable?_eq_none {scope : Scope V F} {name : String} {binding : V} :
    scope.defineVariable? name binding = none ↔
      ∃ old, scope.current.lookupVariable name = some old := by
  unfold defineVariable?
  cases scope.current.lookupVariable name <;> simp

theorem defineFunction?_eq_some {scope scope' : Scope V F} {name : String} {arity : Nat}
    {binding : F} :
    scope.defineFunction? name arity binding = some scope' ↔
      scope.current.lookupFunction name arity = none ∧
        scope' = scope.modifyCurrent (·.addFunction name arity binding) := by
  unfold defineFunction?
  cases scope.current.lookupFunction name arity <;> simp [eq_comm]

theorem defineFunction?_eq_none {scope : Scope V F} {name : String} {arity : Nat} {binding : F} :
    scope.defineFunction? name arity binding = none ↔
      ∃ old, scope.current.lookupFunction name arity = some old := by
  unfold defineFunction?
  cases scope.current.lookupFunction name arity <;> simp

/-- A variable that is added to the innermost frame is found there. -/
theorem lookupVariable_addVariable (scope : Scope V F) (name other : String) (binding : V) :
    (scope.modifyCurrent (·.addVariable name binding)).lookupVariable other =
      if other = name then some binding else scope.lookupVariable other := by
  cases scope with
  | root frame => exact frame.lookupVariable_addVariable name other binding
  | child frame parent =>
      simp only [modifyCurrent, lookupVariable, Frame.lookupVariable_addVariable]
      by_cases same : other = name
      · rw [if_pos same, if_pos same]
      · rw [if_neg same, if_neg same]

/-- Functions are found whatever variables are added. -/
theorem lookupFunction_addVariable (scope : Scope V F) (name other : String) (arity : Nat)
    (binding : V) :
    ((scope.modifyCurrent (·.addVariable name binding)).lookupFunction other arity).map Prod.fst =
      (scope.lookupFunction other arity).map Prod.fst := by
  cases scope with
  | root frame =>
      simp only [modifyCurrent, lookupFunction, Frame.lookupFunction_addVariable]
      cases frame.lookupFunction other arity <;> rfl
  | child frame parent =>
      simp only [modifyCurrent, lookupFunction, Frame.lookupFunction_addVariable]
      cases frame.lookupFunction other arity <;> rfl

/-! ### Where names are found -/

/-- The frames of a chain, innermost first. -/
def frames : Scope V F → List (Frame V F)
  | root frame => [frame]
  | child frame parent => frame :: parent.frames

/-- How many frames are inside the innermost one that binds a variable. -/
def variableDepth? (scope : Scope V F) (name : String) : Option Nat :=
  scope.frames.findIdx? fun frame => (frame.lookupVariable name).isSome

/-- How many frames are inside the innermost one that binds a function. -/
def functionDepth? (scope : Scope V F) (name : String) (arity : Nat) : Option Nat :=
  scope.frames.findIdx? fun frame => (frame.lookupFunction name arity).isSome

theorem findIdx?_of_forall₂ {α β : Type} {p : α → Bool} {q : β → Bool} {left : List α}
    {right : List β} (h : List.Forall₂ (fun a b => p a = q b) left right) :
    left.findIdx? p = right.findIdx? q := by
  induction h with
  | nil => rfl
  | cons hhead _ ih => simp only [List.findIdx?_cons, hhead, ih]

theorem variableDepth?_of_lookup {scope : Scope V F} {name : String} {binding : V}
    (h : scope.lookupVariable name = some binding) :
    ∃ depth, scope.variableDepth? name = some depth := by
  induction scope with
  | root frame =>
      have hfound : frame.lookupVariable name = some binding := h
      exact ⟨0, by simp [variableDepth?, frames, List.findIdx?_cons, hfound]⟩
  | child frame parent ih =>
      cases hframe : frame.lookupVariable name with
      | some _ => exact ⟨0, by simp [variableDepth?, frames, List.findIdx?_cons, hframe]⟩
      | none =>
          simp only [lookupVariable, hframe] at h
          obtain ⟨depth, hdepth⟩ := ih h
          unfold variableDepth? at hdepth
          exact ⟨depth + 1, by simp [variableDepth?, frames, List.findIdx?_cons, hframe, hdepth]⟩

theorem functionDepth?_of_lookup {scope home : Scope V F} {name : String} {arity : Nat}
    {binding : F} (h : scope.lookupFunction name arity = some (binding, home)) :
    ∃ depth, scope.functionDepth? name arity = some depth := by
  induction scope with
  | root frame =>
      simp only [lookupFunction, Option.map_eq_some_iff] at h
      obtain ⟨_, hfound, -⟩ := h
      exact ⟨0, by simp [functionDepth?, frames, List.findIdx?_cons, hfound]⟩
  | child frame parent ih =>
      cases hframe : frame.lookupFunction name arity with
      | some _ => exact ⟨0, by simp [functionDepth?, frames, List.findIdx?_cons, hframe]⟩
      | none =>
          simp only [lookupFunction, hframe] at h
          obtain ⟨depth, hdepth⟩ := ih h
          unfold functionDepth? at hdepth
          exact ⟨depth + 1, by simp [functionDepth?, frames, List.findIdx?_cons, hframe, hdepth]⟩

theorem length_frames (scope : Scope V F) : scope.frames.length = scope.depth + 1 := by
  induction scope with
  | root frame => rfl
  | child frame parent ih => simp [frames, depth, ih]

end Scope

end TinyScript
