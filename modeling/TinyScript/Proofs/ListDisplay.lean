import Mathlib.Logic.Relation
import TinyScript.Run.Value

/-!
# Writing lists that may contain themselves

Lists are written along the references between them, which can lead back to a list that is still
being written. What bounds the writing is the path of the lists that are open: `Lists.Shows` gives
its rules, which mention a list that is on the path and write every other list in full, and has
exactly one text for each value (`Lists.shows_iff`). Plain recursion, `Lists.Renders`, knows no
path. It gives a text exactly for the values from which no list is reached that contains itself, and
then it is the same text (`Lists.display_ends_plainly_if_acyclic`).
-/

namespace TinyScript.Lists

/-! ## Two ways of writing -/

/-- Texts between brackets, with commas between them. -/
def bracketed (texts : List String) : String := "[" ++ ", ".intercalate texts ++ "]"

/-- How values are written one behind the other while the lists `opened` are being written: a list
that is one of them is only mentioned, and every other list is written in full, which opens it for
its items and for nothing behind it. -/
inductive Shows (lists : Lists) : List ListId → List Value → List String → Prop
  | none {opened} : Shows lists opened [] []
  | scalar {opened value values texts} (plain : ∀ id, value ≠ .list id)
      (behind : Shows lists opened values texts) :
      Shows lists opened (value :: values) (scalarText value :: texts)
  | mention {opened id values texts} (isOpen : id ∈ opened)
      (behind : Shows lists opened values texts) :
      Shows lists opened (.list id :: values) ("(this list)" :: texts)
  | full {opened id values texts inner} (isClosed : id ∉ opened)
      (items : Shows lists (id :: opened) (lists.items id).toList inner)
      (behind : Shows lists opened values texts) :
      Shows lists opened (.list id :: values) (bracketed inner :: texts)

/-- How values are written by plain recursion, one behind the other: each list as its items between
brackets. -/
inductive Renders (lists : Lists) : List Value → List String → Prop
  | none : Renders lists [] []
  | scalar {value values texts} (plain : ∀ id, value ≠ .list id)
      (behind : Renders lists values texts) :
      Renders lists (value :: values) (scalarText value :: texts)
  | full {id values texts inner} (items : Renders lists (lists.items id).toList inner)
      (behind : Renders lists values texts) :
      Renders lists (.list id :: values) (bracketed inner :: texts)

/-! ## References between lists -/

/-- A list has another one, or itself, as an item. -/
def HasItem (lists : Lists) (outer inner : ListId) : Prop :=
  .list inner ∈ (lists.items outer).toList

instance (lists : Lists) (outer inner : ListId) : Decidable (lists.HasItem outer inner) :=
  inferInstanceAs (Decidable (_ ∈ _))

/-- A list is a value, or is met by going from lists to their items. -/
def ReachedFrom (lists : Lists) (value : Value) (id : ListId) : Prop :=
  ∃ first, value = .list first ∧ Relation.ReflTransGen lists.HasItem first id

/-- A list is met again by going from it to its items, to their items, and so on. -/
def ContainsItself (lists : Lists) (id : ListId) : Prop := Relation.TransGen lists.HasItem id id

/-- No list that is reached from a value contains itself. -/
def IsAcyclic (lists : Lists) (value : Value) : Prop :=
  ∀ id, lists.ReachedFrom value id → ¬ lists.ContainsItself id

variable {lists : Lists} {opened : List ListId} {value : Value} {values : List Value}
  {texts : List String} {id other : ListId}

theorem IsAcyclic.item (h : lists.IsAcyclic (.list id)) (hitem : value ∈ (lists.items id).toList) :
    lists.IsAcyclic value := by
  rintro other ⟨first, rfl, hreached⟩
  exact h other ⟨id, rfl, .head hitem hreached⟩

/-! ## The path bounds the writing -/

theorem textWithin_scalar (plain : ∀ id, value ≠ .list id) :
    lists.textWithin opened value = scalarText value := by
  rw [textWithin]
  exact plain

theorem textWithin_mention (isOpen : id ∈ opened) :
    lists.textWithin opened (.list id) = "(this list)" := by
  rw [textWithin, dif_pos isOpen]

theorem textWithin_full (isClosed : id ∉ opened) : lists.textWithin opened (.list id) =
    bracketed ((lists.items id).toList.map (lists.textWithin (id :: opened))) := by
  rw [textWithin, dif_neg isClosed]
  split
  · rfl
  · next hunknown =>
      rw [items_of_next_le (Nat.not_lt.mp hunknown)]
      rfl

theorem shows_of_forall
    (hshows : ∀ value values texts, Shows lists opened values texts →
      Shows lists opened (value :: values) (lists.textWithin opened value :: texts))
    (values : List Value) :
    Shows lists opened values (values.map (lists.textWithin opened)) := by
  induction values with
  | nil => exact .none
  | cons value values ih => exact hshows value values _ ih

/-- The writing of every value ends. The induction is on the number of lists that are not open. -/
theorem shows_cons (opened : List ListId) (value : Value) (values : List Value)
    (texts : List String) (behind : Shows lists opened values texts) :
    Shows lists opened (value :: values) (lists.textWithin opened value :: texts) := by
  induction opened, value using textWithin.induct lists generalizing values texts with
  | case1 opened id isOpen =>
      rw [textWithin_mention isOpen]
      exact .mention isOpen behind
  | case2 opened id isClosed known ih =>
      rw [textWithin_full isClosed]
      exact .full isClosed (shows_of_forall ih _) behind
  | case3 opened id isClosed unknown =>
      rw [textWithin_full isClosed, items_of_next_le (Nat.not_lt.mp unknown)]
      refine .full isClosed ?_ behind
      rw [items_of_next_le (Nat.not_lt.mp unknown)]
      exact .none
  | case4 opened value plain =>
      rw [textWithin_scalar plain]
      exact .scalar plain behind

theorem Shows.texts_eq (h : Shows lists opened values texts) :
    texts = values.map (lists.textWithin opened) := by
  induction h with
  | none => rfl
  | scalar plain _ ih => rw [List.map_cons, textWithin_scalar plain, ← ih]
  | mention isOpen _ ih => rw [List.map_cons, textWithin_mention isOpen, ← ih]
  | full isClosed _ _ ihitems ih => rw [List.map_cons, textWithin_full isClosed, ← ihitems, ← ih]

/-- The rules give every row of values its texts and no others. -/
theorem shows_iff :
    Shows lists opened values texts ↔ texts = values.map (lists.textWithin opened) := by
  constructor
  · exact Shows.texts_eq
  · rintro rfl
    exact shows_of_forall (shows_cons opened) values

/-! ## Plain recursion -/

theorem Renders.unique {texts' : List String} (h : Renders lists values texts)
    (h' : Renders lists values texts') : texts = texts' := by
  induction h generalizing texts' with
  | none =>
      cases h'
      rfl
  | scalar plain _ ih =>
      cases h' with
      | scalar _ behind => rw [ih behind]
      | full => exact absurd rfl (plain _)
  | full _ _ ihitems ih =>
      cases h' with
      | scalar plain => exact absurd rfl (plain _)
      | full items behind => rw [ihitems items, ih behind]

/-- Where no list that is reached contains itself, a list that is open is not reached again, so the
path is never asked. -/
theorem Shows.renders (h : Shows lists opened values texts)
    (hacyclic : ∀ value ∈ values, lists.IsAcyclic value)
    (hapart : ∀ value ∈ values, ∀ other ∈ opened, ¬ lists.ReachedFrom value other) :
    Renders lists values texts := by
  induction h with
  | none => exact .none
  | scalar plain _ ih =>
      obtain ⟨-, hacyclics⟩ := List.forall_mem_cons.mp hacyclic
      obtain ⟨-, haparts⟩ := List.forall_mem_cons.mp hapart
      exact .scalar plain (ih hacyclics haparts)
  | mention isOpen =>
      exact absurd ⟨_, rfl, .refl⟩ ((List.forall_mem_cons.mp hapart).1 _ isOpen)
  | @full opened id values texts inner isClosed items behind ihitems ih =>
      obtain ⟨hacyclic, hacyclics⟩ := List.forall_mem_cons.mp hacyclic
      obtain ⟨hapart, haparts⟩ := List.forall_mem_cons.mp hapart
      refine .full (ihitems (fun value hitem => hacyclic.item hitem) ?_) (ih hacyclics haparts)
      rintro value hitem other hopen ⟨first, rfl, hreached⟩
      have hhas : lists.HasItem id first := hitem
      rcases List.mem_cons.mp hopen with rfl | hopen
      · exact hacyclic other ⟨other, rfl, .refl⟩ (.head' hhas hreached)
      · exact hapart other hopen ⟨id, rfl, .head hhas hreached⟩

/-- What plain recursion writes has been gone into item by item, down to the lists without lists. -/
theorem Renders.acc (h : Renders lists values texts) :
    ∀ id, .list id ∈ values → Acc (Function.swap lists.HasItem) id := by
  induction h with
  | none => exact fun id hmem => absurd hmem List.not_mem_nil
  | scalar plain _ ih =>
      intro id hmem
      rcases List.mem_cons.mp hmem with heq | hmem
      · exact absurd heq.symm (plain id)
      · exact ih id hmem
  | full _ _ ihitems ih =>
      intro id hmem
      rcases List.mem_cons.mp hmem with heq | hmem
      · cases heq
        exact .intro _ ihitems
      · exact ih id hmem

theorem not_self_of_acc {α : Type} {r : α → α → Prop} {a : α} (h : Acc r a) : ¬ r a a := by
  induction h with
  | intro a _ ih => exact fun hself => ih a hself hself

theorem Renders.isAcyclic (h : Renders lists values texts) (hmem : value ∈ values) :
    lists.IsAcyclic value := by
  rintro other ⟨first, rfl, hreached⟩ hself
  have hother : Acc (Function.swap lists.HasItem) other := by
    clear hself
    induction hreached with
    | refl => exact h.acc first hmem
    | tail _ hitem ih => exact ih.inv hitem
  exact not_self_of_acc hother.transGen (Relation.transGen_swap.mpr hself)

/-! ## The text of a value -/

/-- Every value has exactly one text by the rules that look at the path, and it is the text that is
displayed. Plain recursion gives the same text, and it gives one exactly if no list that is reached
contains itself. -/
theorem display_ends_plainly_if_acyclic (lists : Lists) (value : Value) :
    (∀ text, Shows lists [] [value] [text] ↔ text = lists.text value) ∧
    ∀ text, Renders lists [value] [text] ↔ lists.IsAcyclic value ∧ text = lists.text value := by
  have hshows : ∀ text, Shows lists [] [value] [text] ↔ text = lists.text value := by
    intro text
    rw [shows_iff, List.map_singleton, List.singleton_inj]
    rfl
  have hdisplayed : lists.IsAcyclic value → Renders lists [value] [lists.text value] :=
    fun hacyclic => ((hshows _).mpr rfl).renders (List.forall_mem_singleton.mpr hacyclic)
      fun _ _ _ hopen => absurd hopen List.not_mem_nil
  refine ⟨hshows, fun text => ⟨fun hrenders => ?_, ?_⟩⟩
  · have hacyclic := hrenders.isAcyclic List.mem_cons_self
    exact ⟨hacyclic, List.singleton_inj.mp (hrenders.unique (hdisplayed hacyclic))⟩
  · rintro ⟨hacyclic, rfl⟩
    exact hdisplayed hacyclic

/-- A list that holds itself, two that hold each other, and one that holds another twice. -/
def knotted : Lists :=
  ⟨#[#[.list 0], #[.integer 1, .list 2], #[.list 1], #[.list 4, .list 4], #[.character 'a']]⟩

/-- A list that is only shared is written each time, and one that contains itself is mentioned. -/
theorem display_ends_plainly_if_acyclic_knotted :
    knotted.text (.list 0) = "[(this list)]" ∧ knotted.text (.list 1) = "[1, [(this list)]]" ∧
    (∀ text, ¬ Renders knotted [.list 1] [text]) ∧
    knotted.IsAcyclic (.list 3) ∧ knotted.text (.list 3) = "[[a], [a]]" := by
  have hitself : Shows knotted [] [.list 0] [bracketed ["(this list)"]] :=
    .full (by decide) (.mention (by decide) .none) .none
  have hpair : Shows knotted [] [.list 1] [bracketed ["1", bracketed ["(this list)"]]] :=
    .full (by decide) (.scalar nofun (.full (by decide) (.mention (by decide) .none) .none)) .none
  have hcyclic : ¬ knotted.IsAcyclic (.list 1) := by
    intro h
    have there : knotted.HasItem 1 2 := by decide
    have back : knotted.HasItem 2 1 := by decide
    exact h 1 ⟨1, rfl, .refl⟩ (.tail (.single there) back)
  have hshared : Renders knotted [.list 3] [bracketed [bracketed ["a"], bracketed ["a"]]] :=
    .full (.full (.scalar nofun .none) (.full (.scalar nofun .none) .none)) .none
  obtain ⟨shown, -⟩ := display_ends_plainly_if_acyclic knotted (.list 0)
  obtain ⟨shown', plain'⟩ := display_ends_plainly_if_acyclic knotted (.list 1)
  obtain ⟨-, plain⟩ := display_ends_plainly_if_acyclic knotted (.list 3)
  obtain ⟨hacyclic, htext⟩ := (plain _).mp hshared
  exact ⟨((shown _).mp hitself).symm, ((shown' _).mp hpair).symm,
    fun text hrenders => hcyclic ((plain' text).mp hrenders).1, hacyclic, htext.symm⟩

end TinyScript.Lists
