import TinyScript.Decimal.Text
import TinyScript.Tree

/-!
# Values of a run

A run computes with scalars and with lists. Lists are shared: a value holds the identity of a
list, and what the list holds is kept in a store (`Lists`), so every holder sees a change.
-/

namespace TinyScript

/-- The identity of a list. -/
abbrev ListId := Nat

/-- The values of a run. -/
inductive Value where
  | nil
  | boolean (value : Bool)
  | integer (value : Int)
  | decimal (value : Decimal)
  | character (value : Char)
  | string (value : String)
  | list (id : ListId)
deriving DecidableEq, Repr, Inhabited

namespace Value

/-- The type that a value has by its kind. -/
def kind : Value → Ty
  | nil => .nil
  | boolean _ => .boolean
  | integer _ => .integer
  | decimal _ => .decimal
  | character _ => .character
  | string _ => .string
  | list _ => .list

/-- The value of a literal. -/
def ofLiteral : Literal → Value
  | .nil => nil
  | .boolean value => boolean value
  | .character value => character value
  | .string value => string value
  | .integer value => integer value
  | .decimal value => decimal value

/-- The natural order of two values of one kind. Nil and lists have none. -/
def order? : Value → Value → Option Ordering
  | boolean a, boolean b => some (compare a b)
  | integer a, integer b => some (compare a b)
  | decimal a, decimal b => some (a.compareValue b)
  | character a, character b => some (compare a.toNat b.toNat)
  | string a, string b => some (compare a b)
  | _, _ => none

end Value

/-! ## The store of lists -/

/-- What the lists of a run hold, each under the number that is its identity. -/
structure Lists where
  contents : Array (Array Value)
deriving Inhabited

namespace Lists

/-- The store without lists. -/
def empty : Lists := ⟨#[]⟩

/-- What a list holds. A number that is no list holds nothing. -/
def items (lists : Lists) (id : ListId) : Array Value := lists.contents.getD id #[]

/-- The identity that the next list gets. -/
def next (lists : Lists) : ListId := lists.contents.size

/-- Adds a list. -/
def add (lists : Lists) (values : Array Value) : Lists := ⟨lists.contents.push values⟩

/-- Puts a value into a slot of a list. -/
def put (lists : Lists) (id : ListId) (slot : Nat) (value : Value) : Lists :=
  ⟨lists.contents.modify id (·.setIfInBounds slot value)⟩

theorem items_of_next_le {lists : Lists} {id : ListId} (h : lists.next ≤ id) :
    lists.items id = #[] := by
  unfold items
  exact Array.getD_eq_getD_getElem? .. ▸ by simp [Array.getElem?_eq_none h]

theorem items_add (lists : Lists) (values : Array Value) (id : ListId) :
    (lists.add values).items id = if id = lists.next then values else lists.items id := by
  simp only [items, add, next, Array.getD_eq_getD_getElem?, Array.getElem?_push]
  split <;> rfl

theorem items_put (lists : Lists) (id other : ListId) (slot : Nat) (value : Value) :
    (lists.put id slot value).items other =
      if other = id then (lists.items id).setIfInBounds slot value else lists.items other := by
  simp only [items, put, Array.getD_eq_getD_getElem?, Array.getElem?_modify]
  by_cases same : other = id
  · subst same
    cases held : lists.contents[other]? <;> simp
  · simp [same, Ne.symm same]

/-! ## Texts of values -/

/-- The text of a value that is no list. -/
def scalarText : Value → String
  | .nil => "nil"
  | .boolean value => toString value
  | .integer value => toString value
  | .decimal value => value.plain
  | .character value => value.toString
  | .string value => value
  | .list _ => ""

/-- The pieces of the text of a value that is no list. A sign is a piece of its own. -/
def scalarPieces : Value → List String
  | .integer (.negSucc n) => ["-", toString (n + 1)]
  | value => [scalarText value]

theorem join_scalarPieces (value : Value) :
    String.join (scalarPieces value) = scalarText value := by
  unfold scalarPieces
  split
  · next n =>
      rw [String.join_cons, String.join_cons, String.join_nil, String.append_empty]
      rfl
  · rw [String.join_cons, String.join_nil, String.append_empty]

/-- The lists of the store that are not among those being written. -/
def closed (lists : Lists) (opened : List ListId) : List ListId :=
  (List.range lists.next).filter (!opened.contains ·)

theorem length_closed_lt (lists : Lists) (opened : List ListId) (id : ListId)
    (known : id < lists.next) (fresh : id ∉ opened) :
    (lists.closed (id :: opened)).length < (lists.closed opened).length := by
  have split : lists.closed (id :: opened) = (lists.closed opened).filter (· ≠ id) := by
    simp only [closed, List.filter_filter]
    refine List.filter_congr fun other _ => ?_
    by_cases same : other = id <;> simp [same]
  rw [split]
  refine List.length_filter_lt_length_iff_exists.mpr ⟨id, ?_, by simp⟩
  simp [closed, known, fresh]

/-- The text of a value. Its items are written between brackets; a list met while it is itself
being written is only mentioned. -/
def textWithin (lists : Lists) (opened : List ListId) : Value → String
  | .list id =>
    if _ : id ∈ opened then "(this list)"
    else if _ : id < lists.next then
      let texts := (lists.items id).toList.map (textWithin lists (id :: opened))
      "[" ++ ", ".intercalate texts ++ "]"
    else "[]"
  | value => scalarText value
termination_by (lists.closed opened).length
decreasing_by exact length_closed_lt lists opened id ‹id < lists.next› ‹id ∉ opened›

/-- The text of a value, as it is joined to strings and, in its pieces, printed. -/
def text (lists : Lists) (value : Value) : String := lists.textWithin [] value

/-- The pieces that make up the text of a value: of a list the brackets, the separators, and those
of its items. -/
def piecesWithin (lists : Lists) (opened : List ListId) : Value → List String
  | .list id =>
    if _ : id ∈ opened then ["(this list)"]
    else if _ : id < lists.next then
      let items := (lists.items id).toList.map (piecesWithin lists (id :: opened))
      "[" :: [", "].intercalate items ++ ["]"]
    else ["[", "]"]
  | value => scalarPieces value
termination_by (lists.closed opened).length
decreasing_by exact length_closed_lt lists opened id ‹id < lists.next› ‹id ∉ opened›

/-- The pieces in which the text of a value is printed. -/
def pieces (lists : Lists) (value : Value) : List String := lists.piecesWithin [] value

theorem join_intercalate (separator : String) : ∀ items : List (List String),
    String.join ([separator].intercalate items) = separator.intercalate (items.map String.join)
  | [] => rfl
  | [item] => by simp
  | item :: next :: items => by
      simp [join_intercalate separator (next :: items), String.append_assoc]

theorem join_piecesWithin (lists : Lists) (opened : List ListId) (value : Value) :
    String.join (lists.piecesWithin opened value) = lists.textWithin opened value := by
  fun_induction lists.textWithin opened value with
  | case1 opened id hopened => simp [piecesWithin, hopened]
  | case2 opened id hopened hknown texts ih =>
      have htexts : (lists.items id).toList.map (String.join ∘ lists.piecesWithin (id :: opened)) =
          texts := List.map_congr_left fun item _ => ih item
      rw [piecesWithin, dif_neg hopened, dif_pos hknown]
      simp [join_intercalate, htexts, String.append_assoc]
  | case3 opened id hopened hunknown => simp [piecesWithin, hopened, hunknown]
  | case4 opened value hother =>
      cases value with
      | list id => exact absurd rfl (hother id)
      | _ =>
          rw [piecesWithin, join_scalarPieces]
          exact hother

/-- The pieces of a value make up its text. -/
theorem join_pieces (lists : Lists) (value : Value) :
    String.join (lists.pieces value) = lists.text value :=
  lists.join_piecesWithin [] value

/-! ## Equality of contents -/

/-- Whether two values have the same kind and the same content: decimals by value, lists item by
item, looking into lists no deeper than a bound. -/
def sameWithin (lists : Lists) : Nat → Value → Value → Bool
  | _, .decimal a, .decimal b => a.compareValue b == .eq
  | 0, .list _, .list _ => false
  | bound + 1, .list a, .list b =>
    let left := (lists.items a).toList
    let right := (lists.items b).toList
    left.length == right.length &&
      (left.zip right).all fun (x, y) => sameWithin lists bound x y
  | _, a, b => a == b

/-- Whether two values have the same kind and the same content. -/
def same (lists : Lists) (a b : Value) : Bool := lists.sameWithin (lists.next + 1) a b

end Lists

end TinyScript
