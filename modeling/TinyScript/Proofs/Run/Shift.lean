import TinyScript.Proofs.Conformance

/-!
# Lists behind other lists

A run that starts when there are lists already gives its own lists higher identities: they are
shifted by the number of lists in front of them. Nothing that a program can observe depends on the
shift. Values of all other kinds stay as they are, so operators compute the same (`apply_shift`,
`overflows_shift`), and the text of a value only depends on what its lists hold and on which of them
are the same (`text_behind`).
-/

namespace TinyScript

/-! ## Values -/

namespace Value

/-- The value that has this place when so many lists stand in front. -/
def shift (offset : Nat) : Value → Value
  | list id => list (id + offset)
  | other => other

variable {offset : Nat} {value : Value}

theorem shift_zero (value : Value) : value.shift 0 = value := by
  cases value <;> rfl

@[simp] theorem shift_ofLiteral (literal : Literal) :
    (ofLiteral literal).shift offset = ofLiteral literal := by
  cases literal <;> rfl

theorem shift_of_ne_list (h : ∀ id, value ≠ list id) : value.shift offset = value := by
  cases value with
  | list id => exact absurd rfl (h id)
  | _ => rfl

@[simp] theorem truth_shift (value : Value) : (value.shift offset).truth = value.truth := by
  cases value <;> rfl

@[simp] theorem slot_shift (name : String) (length : Nat) (value : Value) :
    (value.shift offset).slot name length = value.slot name length := by
  cases value <;> rfl

theorem order_shift (a b : Value) : (a.shift offset).order (b.shift offset) = a.order b := by
  cases a <;> cases b <;> rfl

theorem listOf_shift (name : String) (value : Value) :
    (value.shift offset).listOf name = (value.listOf name).map (· + offset) := by
  cases value <;> rfl

end Value

/-! ## Operators -/

namespace Operator

variable {offset : Nat} {negative : NegativeExponent} {operator : Operator}

theorem isString_shift (a : Value) : isString (a.shift offset) = isString a := by
  cases a <;> rfl

theorem applyNumbers_shift (a b : Value) :
    operator.applyNumbers negative (a.shift offset) (b.shift offset) =
      operator.applyNumbers negative a b := by
  cases a <;> cases b <;> rfl

/-- Operators that are given the same texts compute the same from shifted operands. -/
theorem apply_shift {text text' : Value → String} (htext : ∀ a, text' (a.shift offset) = text a)
    (a b : Value) :
    operator.apply negative text' (a.shift offset) (b.shift offset) =
      operator.apply negative text a b := by
  cases operator <;>
    simp only [apply, Value.order_shift, isString_shift, applyNumbers_shift, htext]

theorem overflows_shift (a b : Value) :
    operator.overflows (a.shift offset) (b.shift offset) = operator.overflows a b := by
  cases operator with
  | multiply | divide | power => cases a <;> cases b <;> rfl
  | _ => rfl

end Operator

/-! ## Stores -/

namespace Lists

/-- The lists of a store behind other lists. -/
def behind (lists : Lists) (earlier : Array (Array Value)) : Lists :=
  ⟨earlier ++ lists.contents.map (·.map (·.shift earlier.size))⟩

variable (lists : Lists) (earlier : Array (Array Value))

@[simp] theorem behind_empty : lists.behind #[] = lists := by
  simp [behind, Value.shift_zero]

theorem next_behind : (lists.behind earlier).next = lists.next + earlier.size := by
  simp [next, behind, Nat.add_comm]

theorem items_behind (id : ListId) :
    (lists.behind earlier).items (id + earlier.size) =
      (lists.items id).map (·.shift earlier.size) := by
  simp only [items, behind, Array.getD_eq_getD_getElem?]
  rw [Array.getElem?_append_right (Nat.le_add_left _ _), Nat.add_sub_cancel, Array.getElem?_map]
  cases lists.contents[id]? <;> simp

theorem add_behind (values : List Value) :
    (lists.behind earlier).add (values.map (·.shift earlier.size)).toArray =
      (lists.add values.toArray).behind earlier := by
  simp only [add, behind, Array.map_push, Array.append_push, List.map_toArray]

theorem put_behind (id : ListId) (slot : Nat) (value : Value) :
    (lists.behind earlier).put (id + earlier.size) slot (value.shift earlier.size) =
      (lists.put id slot value).behind earlier := by
  simp only [put, behind, Lists.mk.injEq]
  refine Array.ext_getElem? fun place => ?_
  rw [Array.getElem?_modify]
  rcases Nat.lt_or_ge place earlier.size with hfront | hbehind
  · have hother : id + earlier.size ≠ place := Nat.ne_of_gt (Nat.lt_add_left id hfront)
    rw [if_neg hother, Array.getElem?_append_left hfront, Array.getElem?_append_left hfront]
  · obtain ⟨other, rfl⟩ := Nat.exists_eq_add_of_le' hbehind
    simp only [Array.getElem?_append_right hbehind, Nat.add_sub_cancel, Array.getElem?_map,
      Array.getElem?_modify, Nat.add_right_cancel_iff]
    split
    · cases lists.contents[other]? <;> simp [Array.map_setIfInBounds]
    · rfl

/-! ## Texts -/

theorem mem_map_add {offset : Nat} {id : ListId} (opened : List ListId) :
    id + offset ∈ opened.map (· + offset) ↔ id ∈ opened := by
  simp

/-- A list is written when the list in its place is: the lists being written are shifted, too. -/
theorem textWithin_behind (opened : List ListId) (value : Value) :
    (lists.behind earlier).textWithin (opened.map (· + earlier.size)) (value.shift earlier.size) =
      lists.textWithin opened value := by
  fun_induction lists.textWithin opened value with
  | case1 opened id hopened =>
      rw [Value.shift, textWithin, dif_pos (List.mem_map_of_mem hopened)]
  | case2 opened id hopened hknown texts ih =>
      rw [Value.shift, textWithin, dif_neg (mt (mem_map_add opened).mp hopened),
        dif_pos (by rw [next_behind]; exact Nat.add_lt_add_right hknown _), items_behind]
      simp only [Array.toList_map, List.map_map]
      congr 3
      refine List.map_congr_left fun item _ => ?_
      exact ih item
  | case3 opened id hopened hunknown =>
      rw [Value.shift, textWithin, dif_neg (mt (mem_map_add opened).mp hopened),
        dif_neg (by rw [next_behind]; exact fun h => hunknown (Nat.lt_of_add_lt_add_right h))]
  | case4 opened value hother =>
      rw [Value.shift_of_ne_list hother]
      cases value with
      | list id => exact absurd rfl (hother id)
      | _ =>
          rw [textWithin]
          simp

theorem text_behind (value : Value) :
    (lists.behind earlier).text (value.shift earlier.size) = lists.text value :=
  lists.textWithin_behind earlier [] value

theorem piecesWithin_behind (opened : List ListId) (value : Value) :
    (lists.behind earlier).piecesWithin (opened.map (· + earlier.size)) (value.shift earlier.size) =
      lists.piecesWithin opened value := by
  fun_induction lists.piecesWithin opened value with
  | case1 opened id hopened =>
      rw [Value.shift, piecesWithin, dif_pos (List.mem_map_of_mem hopened)]
  | case2 opened id hopened hknown items ih =>
      rw [Value.shift, piecesWithin, dif_neg (mt (mem_map_add opened).mp hopened),
        dif_pos (by rw [next_behind]; exact Nat.add_lt_add_right hknown _), items_behind]
      simp only [Array.toList_map, List.map_map]
      congr 3
      refine List.map_congr_left fun item _ => ?_
      exact ih item
  | case3 opened id hopened hunknown =>
      rw [Value.shift, piecesWithin, dif_neg (mt (mem_map_add opened).mp hopened),
        dif_neg (by rw [next_behind]; exact fun h => hunknown (Nat.lt_of_add_lt_add_right h))]
  | case4 opened value hother =>
      rw [Value.shift_of_ne_list hother]
      cases value with
      | list id => exact absurd rfl (hother id)
      | _ =>
          rw [piecesWithin]
          simp

theorem pieces_behind (value : Value) :
    (lists.behind earlier).pieces (value.shift earlier.size) = lists.pieces value :=
  lists.piecesWithin_behind earlier [] value

end Lists

end TinyScript
