import TinyScript.Json.Escape

/-!
# JSON values

A value keeps its scalars as they were written: a number its digits, a string what stands between
its quotes. Decoding waits until somebody asks for the content, so a part that nobody reads is
only required to have the shape of JSON. An object keeps its members in order, repeated keys
included.
-/

namespace TinyScript

/-- A JSON value with its scalars as written. -/
inductive Json where
  | null
  | bool (value : Bool)
  | number (text : String)
  | string (inside : String)
  | array (items : List Json)
  | object (members : List (String × Json))
deriving Inhabited, Repr

namespace Json

/-! ## Making values -/

/-- What stands between the quotes of a written string. -/
def quote (text : String) : String := String.ofList (escape text.toList)

/-- A string value. -/
def ofString (text : String) : Json := string (quote text)

/-- A whole number. -/
def ofInt (n : Int) : Json := number (toString n)

/-- A natural number. -/
def ofNat (n : Nat) : Json := number (toString n)

/-- An optional value, `null` when absent. -/
def ofOption {α : Type} (encode : α → Json) : Option α → Json
  | none => null
  | some value => encode value

/-- A list of values. -/
def ofList {α : Type} (encode : α → Json) (values : List α) : Json :=
  array (values.map encode)

/-- An object with the given members. -/
def record (members : List (String × Json)) : Json :=
  object (members.map fun (key, value) => (quote key, value))

/-- An object whose single key names the case of a choice. -/
def tagged (tag : String) (content : Json) : Json := record [(tag, content)]

/-! ## Asking for content -/

/-- The text between quotes, decoded. -/
def unquote? (inside : String) : Option String := (unescape inside.toList).map String.ofList

/-- The text of a string. -/
def string? : Json → Option String
  | string inside => unquote? inside
  | _ => none

/-- The truth value. -/
def bool? : Json → Option Bool
  | bool value => some value
  | _ => none

/-- The items of an array. -/
def array? : Json → Option (List Json)
  | array items => some items
  | _ => none

/-- The members of an object, their keys decoded. -/
def members? : Json → Option (List (String × Json))
  | object members => members.mapM fun (key, value) => (unquote? key).map (·, value)
  | _ => none

end Json

end TinyScript
