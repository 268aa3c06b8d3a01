/-!
# Static types

The closed set of types the checker works with. `any` accepts every type, `comparable` accepts
the ordered scalars, and `list` cannot be named in a program: it is the type of list literals.
-/

namespace TinyScript

/-- The static types. -/
inductive Ty where
  | nil
  | boolean
  | integer
  | decimal
  | character
  | string
  | any
  | comparable
  | list
deriving DecidableEq, Repr, Inhabited

namespace Ty

/-- The types a program can name, in the order they are listed to a reader. -/
def named : List Ty :=
  [nil, boolean, integer, decimal, character, string, any, comparable]

/-- Every type. -/
def all : List Ty := named ++ [list]

/-- The name by which messages and trees speak of a type. -/
def name : Ty → String
  | nil => "Nil"
  | boolean => "Boolean"
  | integer => "Integer"
  | decimal => "Decimal"
  | character => "Character"
  | string => "String"
  | any => "Any"
  | comparable => "Comparable"
  | list => "List"

/-- The type with a given name. -/
def ofName? (text : String) : Option Ty := all.find? fun ty => ty.name == text

/-- Values of these types have a natural order. -/
def isComparable : Ty → Bool
  | integer | decimal | character | string => true
  | _ => false

/-- Arithmetic is defined on these types. -/
def isNumeric : Ty → Bool
  | integer | decimal => true
  | _ => false

theorem mem_all (ty : Ty) : ty ∈ all := by
  cases ty <;> decide

theorem ofName?_name (ty : Ty) : ofName? ty.name = some ty := by
  cases ty <;> decide

end Ty

end TinyScript
