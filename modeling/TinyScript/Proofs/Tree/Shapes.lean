import Mathlib.Data.List.Nodup
import TinyScript.Proofs.Json.Strings
import TinyScript.Tree.Decode

/-!
# Written shapes are recognised

How objects with fixed members, choices, optional values and lists are taken apart again when they
have been put together by the functions that trees are written with. `Json.nesting` is what a limit
on entering arrays and objects is compared with.
-/

namespace TinyScript

namespace Json

/-! ## Nesting -/

mutual

/-- How many arrays and objects of a value stand one inside the other. -/
def nesting : Json → Nat
  | array items => nestingOfItems items + 1
  | object members => nestingOfMembers members + 1
  | null | bool _ | number _ | string _ => 0

/-- The deepest nesting of items. -/
def nestingOfItems : List Json → Nat
  | [] => 0
  | item :: items => max item.nesting (nestingOfItems items)

/-- The deepest nesting of members. -/
def nestingOfMembers : List (String × Json) → Nat
  | [] => 0
  | (_, value) :: members => max value.nesting (nestingOfMembers members)

end

variable {limit : Nat}

theorem nestingOfItems_le {items : List Json} :
    nestingOfItems items ≤ limit ↔ ∀ item ∈ items, item.nesting ≤ limit := by
  induction items with
  | nil => simp [nestingOfItems]
  | cons item items ih => rw [nestingOfItems, Nat.max_le, ih, List.forall_mem_cons]

theorem nestingOfMembers_le {members : List (String × Json)} :
    nestingOfMembers members ≤ limit ↔ ∀ member ∈ members, member.2.nesting ≤ limit := by
  induction members with
  | nil => simp [nestingOfMembers]
  | cons member members ih => rw [nestingOfMembers, Nat.max_le, ih, List.forall_mem_cons]

/-- Within the limit an array leaves one step less to its items. -/
theorem nesting_array {items : List Json} (h : (array items).nesting ≤ limit) :
    ∃ inner, limit = inner + 1 ∧ ∀ item ∈ items, item.nesting ≤ inner := by
  rw [nesting] at h
  obtain ⟨inner, rfl⟩ := Nat.exists_eq_add_of_le' (Nat.le_trans (Nat.le_add_left 1 _) h)
  exact ⟨inner, rfl, nestingOfItems_le.mp (Nat.le_of_succ_le_succ h)⟩

/-- Within the limit an object leaves one step less to its members. -/
theorem nesting_record {members : List (String × Json)} (h : (record members).nesting ≤ limit) :
    ∃ inner, limit = inner + 1 ∧ ∀ member ∈ members, member.2.nesting ≤ inner := by
  rw [record, nesting] at h
  obtain ⟨inner, rfl⟩ := Nat.exists_eq_add_of_le' (Nat.le_trans (Nat.le_add_left 1 _) h)
  refine ⟨inner, rfl, fun (key, value) hmem => ?_⟩
  have hmembers := nestingOfMembers_le.mp (Nat.le_of_succ_le_succ h)
  exact hmembers (quote key, value) (List.mem_map.mpr ⟨(key, value), hmem, rfl⟩)

theorem nesting_tagged {tag : String} {content : Json} (h : (tagged tag content).nesting ≤ limit) :
    ∃ inner, limit = inner + 1 ∧ content.nesting ≤ inner := by
  obtain ⟨inner, rfl, hinner⟩ := nesting_record h
  exact ⟨inner, rfl, hinner (tag, content) List.mem_cons_self⟩

/-! ## Lists -/

theorem mapM_map_eq_some {α β γ : Type} {f : α → γ} {r : γ → Option β} {g : α → β}
    {values : List α} (h : ∀ value ∈ values, r (f value) = some (g value)) :
    (values.map f).mapM r = some (values.map g) := by
  induction values with
  | nil => rfl
  | cons value values ih =>
      obtain ⟨hfirst, hrest⟩ := List.forall_mem_cons.mp h
      rw [List.map_cons, List.mapM_cons, hfirst, ih hrest]
      rfl

/-! ## Objects -/

theorem members?_record (members : List (String × Json)) :
    (record members).members? = some members := by
  unfold record members?
  have hread : (members.map fun member => (quote member.1, member.2)).mapM
      (fun member : String × Json => (unquote? member.1).map (·, member.2)) =
        some (members.map id) :=
    mapM_map_eq_some fun member _ => by rw [unquote?_quote]; rfl
  rw [List.map_id] at hread
  exact hread

/-- A member is found under its key. -/
theorem filter_key {members : List (String × Json)} (hdistinct : (members.map Prod.fst).Nodup)
    {key : String} {value : Json} (hmem : (key, value) ∈ members) :
    members.filter (·.1 == key) = [(key, value)] := by
  induction members with
  | nil => exact absurd hmem List.not_mem_nil
  | cons member members ih =>
      obtain ⟨first, content⟩ := member
      rw [List.map_cons, List.nodup_cons] at hdistinct
      rcases List.mem_cons.mp hmem with heq | hmem
      · cases heq
        have hnone : members.filter (·.1 == key) = [] := by
          rw [List.filter_eq_nil_iff]
          rintro ⟨other, _⟩ hother hsame
          obtain rfl : other = key := eq_of_beq hsame
          exact hdistinct.1 (List.mem_map.mpr ⟨_, hother, rfl⟩)
        rw [List.filter_cons_of_pos (by simp), hnone]
      · rw [List.filter_cons_of_neg, ih hdistinct.2 hmem]
        intro hsame
        obtain rfl : first = key := eq_of_beq hsame
        exact hdistinct.1 (List.mem_map.mpr ⟨_, hmem, rfl⟩)

/-- An object gives the values of its members, in order. -/
theorem fields?_record {members : List (String × Json)} {names : List String}
    (hnames : members.map Prod.fst = names) (hdistinct : names.Nodup) :
    (record members).fields? names = some (members.map fun member => some member.2) := by
  subst hnames
  have hmembers := members?_record members
  unfold fields? record at *
  simp only [hmembers]
  exact mapM_map_eq_some fun member hmem => by simp only [filter_key hdistinct hmem]

/-! ## Choices and optional values -/

@[simp] theorem string?_ofString (text : String) : (ofString text).string? = some text :=
  unquote?_quote text

@[simp] theorem choice?_ofString (text : String) : (ofString text).choice? = some (text, none) := by
  simp [ofString, choice?]

@[simp] theorem choice?_tagged (tag : String) (content : Json) :
    (tagged tag content).choice? = some (tag, some content) := by
  simp [tagged, record, choice?]

@[simp] theorem optional?_null {β : Type} (read : Json → Option β) :
    optional? read (some null) = some none := rfl

theorem optional?_of_ne_null {β : Type} {read : Json → Option β} {json : Json} (h : json ≠ null) :
    optional? read (some json) = (read json).map some := by
  unfold optional?
  split
  · next hnone => cases hnone
  · next hnull => exact absurd (Option.some.inj hnull) h
  · next hsome => rw [Option.some.inj hsome]

theorem optional?_ofOption {α β : Type} {encode : α → Json} {read : Json → Option β} {g : α → β}
    {value : Option α} (hne : ∀ a, encode a ≠ null)
    (h : ∀ a, value = some a → read (encode a) = some (g a)) :
    optional? read (some (ofOption encode value)) = some (value.map g) := by
  cases value with
  | none => rfl
  | some a => rw [ofOption, optional?_of_ne_null (hne a), h a rfl, Option.map_some, Option.map_some]

/-- An optional value comes back where the value does. -/
theorem optional?_ofOption_self {α : Type} {encode : α → Json} {read : Json → Option α}
    {value : Option α} (hne : ∀ a, encode a ≠ null)
    (h : ∀ a, value = some a → read (encode a) = some a) :
    optional? read (some (ofOption encode value)) = some value := by
  have hread : optional? read (some (ofOption encode value)) = some (value.map id) :=
    optional?_ofOption hne h
  rwa [Option.map_id] at hread

/-- An array within the limit is read where its items are read with one step less. -/
theorem decodeList_array {β : Type} {read : Nat → Json → Option β} {items : List Json}
    {values : List β} (hlimit : (array items).nesting ≤ limit)
    (h : ∀ inner < limit, (∀ item ∈ items, item.nesting ≤ inner) →
      items.mapM (read inner) = some values) :
    decodeList limit read (array items) = some values := by
  obtain ⟨inner, rfl, hinner⟩ := nesting_array hlimit
  exact h inner (Nat.lt_succ_self inner) hinner

/-- Which reader is asked for the items matters only at lower limits. -/
theorem decodeList_array_congr {β : Type} {read read' : Nat → Json → Option β} {items : List Json}
    {values : List β} {bound : Nat} (hread : ∀ inner ≤ bound, read inner = read' inner)
    (hbound : limit ≤ bound) (hlimit : (array items).nesting ≤ limit)
    (h : ∀ inner, (∀ item ∈ items, item.nesting ≤ inner) →
      items.mapM (read' inner) = some values) :
    decodeList limit read (array items) = some values := by
  refine decodeList_array hlimit fun inner hinner hitems => ?_
  rw [hread inner (by omega)]
  exact h inner hitems

theorem decodeList_ofList {α β : Type} {encode : α → Json} {read : Nat → Json → Option β}
    {g : α → β} {values : List α} (hlimit : (ofList encode values).nesting ≤ limit)
    (h : ∀ value ∈ values, ∀ inner, (encode value).nesting ≤ inner →
      read inner (encode value) = some (g value)) :
    decodeList limit read (ofList encode values) = some (values.map g) :=
  decodeList_array hlimit fun inner _ hinner => mapM_map_eq_some fun value hmem =>
    h value hmem inner (hinner _ (List.mem_map_of_mem hmem))

/-- A list comes back where its values do. -/
theorem decodeList_ofList_self {α : Type} {encode : α → Json} {read : Nat → Json → Option α}
    {values : List α} (hlimit : (ofList encode values).nesting ≤ limit)
    (h : ∀ value ∈ values, ∀ inner, (encode value).nesting ≤ inner →
      read inner (encode value) = some value) :
    decodeList limit read (ofList encode values) = some values := by
  have hread : decodeList limit read (ofList encode values) = some (values.map id) :=
    decodeList_ofList hlimit h
  rwa [List.map_id] at hread

theorem decodeUnit_ofString {α : Type} (ofName? : String → Option α) (name : String) :
    decodeUnit ofName? limit (ofString name) = ofName? name := by
  have hunit : (ofString name).unit? = some name := by
    rw [unit?, choice?_ofString]
  unfold decodeUnit
  rw [hunit]
  rfl

end Json

end TinyScript
