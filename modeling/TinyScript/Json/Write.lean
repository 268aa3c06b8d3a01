import TinyScript.Json.Basic

/-!
# Writing JSON

`compact` writes a value on one line without blanks. `pretty` puts every item and member on a
line of its own, two blanks deeper than what encloses it; empty arrays and objects stay closed.
-/

namespace TinyScript.Json

/-- A string with its quotes. -/
def quoted (inside : String) : String := "\"" ++ inside ++ "\""

/-! ## On one line -/

mutual

/-- A value on one line. -/
def compact : Json → String
  | null => "null"
  | bool true => "true"
  | bool false => "false"
  | number text => text
  | string inside => quoted inside
  | array items => "[" ++ compactItems items ++ "]"
  | object members => "\x7b" ++ compactMembers members ++ "\x7d"

/-- Items separated by commas. -/
def compactItems : List Json → String
  | [] => ""
  | [item] => compact item
  | item :: items => compact item ++ "," ++ compactItems items

/-- Members separated by commas. -/
def compactMembers : List (String × Json) → String
  | [] => ""
  | [(key, value)] => quoted key ++ ":" ++ compact value
  | (key, value) :: members =>
    quoted key ++ ":" ++ compact value ++ "," ++ compactMembers members

end

/-! ## Indented -/

/-- The start of a line at the given depth. -/
def lineStart (depth : Nat) : String := "\n" ++ String.ofList (List.replicate (2 * depth) ' ')

mutual

/-- A value whose lines are indented for the given depth. -/
def prettyAt (depth : Nat) : Json → String
  | null => "null"
  | bool true => "true"
  | bool false => "false"
  | number text => text
  | string inside => quoted inside
  | array [] => "[]"
  | array items => "[" ++ prettyItems (depth + 1) items ++ lineStart depth ++ "]"
  | object [] => "\x7b\x7d"
  | object members => "\x7b" ++ prettyMembers (depth + 1) members ++ lineStart depth ++ "\x7d"

/-- Items on lines of their own. -/
def prettyItems (depth : Nat) : List Json → String
  | [] => ""
  | [item] => lineStart depth ++ prettyAt depth item
  | item :: items => lineStart depth ++ prettyAt depth item ++ "," ++ prettyItems depth items

/-- Members on lines of their own. -/
def prettyMembers (depth : Nat) : List (String × Json) → String
  | [] => ""
  | [(key, value)] => lineStart depth ++ quoted key ++ ": " ++ prettyAt depth value
  | (key, value) :: members =>
    lineStart depth ++ quoted key ++ ": " ++ prettyAt depth value ++ "," ++
      prettyMembers depth members

end

/-- The indented text of a value. -/
def pretty (json : Json) : String := prettyAt 0 json

end TinyScript.Json
