import TinyScript.Json.Basic

/-!
# Reading JSON

`Json.read?` takes a text apart into a value that keeps its scalars as written. The whole text
has to be one value, blanks around it apart. Each step into an array or object is paid for by a
bracket of the text, so a bound taken from the length of the text never runs out.
-/

namespace TinyScript.Json

/-- Drops the blanks that may stand between the parts of a value. -/
def skipBlanks (text : List Char) : List Char :=
  text.dropWhile fun c => c = ' ' ∨ c = '\n' ∨ c = '\t' ∨ c = '\r'

/-! ## Numbers -/

/-- A nonempty run of digits. -/
def cutDigits (text : List Char) : Option (List Char × List Char) :=
  match text.takeWhile Char.isDigit with
  | [] => none
  | digits => some (digits, text.dropWhile Char.isDigit)

/-- The digits before the point: a leading zero stands alone. -/
def cutWhole : List Char → Option (List Char × List Char)
  | '0' :: rest => if rest.head?.any Char.isDigit then none else some (['0'], rest)
  | text => cutDigits text

/-- The point and the digits behind it, if there is a point. -/
def cutFraction : List Char → Option (List Char × List Char)
  | '.' :: rest => (cutDigits rest).map fun (digits, after) => ('.' :: digits, after)
  | text => some ([], text)

/-- The exponent, if there is one. -/
def cutExponent : List Char → Option (List Char × List Char)
  | c :: rest =>
    if c = 'e' ∨ c = 'E' then
      match rest with
      | s :: rest' =>
        if s = '+' ∨ s = '-' then
          (cutDigits rest').map fun (digits, after) => (c :: s :: digits, after)
        else (cutDigits rest).map fun (digits, after) => (c :: digits, after)
      | [] => none
    else some ([], c :: rest)
  | [] => some ([], [])

/-- A number without its sign. -/
def cutUnsigned (text : List Char) : Option (List Char × List Char) := do
  let (whole, text) ← cutWhole text
  let (fraction, text) ← cutFraction text
  let (exponent, text) ← cutExponent text
  return (whole ++ fraction ++ exponent, text)

/-- A number as written. -/
def cutNumber : List Char → Option (List Char × List Char)
  | '-' :: rest => (cutUnsigned rest).map fun (digits, after) => ('-' :: digits, after)
  | text => cutUnsigned text

/-! ## Values -/

mutual

/-- Reads a value and answers the text behind it. -/
def readValue : Nat → List Char → Option (Json × List Char)
  | 0, _ => none
  | bound + 1, text =>
    match skipBlanks text with
    | 'n' :: 'u' :: 'l' :: 'l' :: rest => some (null, rest)
    | 't' :: 'r' :: 'u' :: 'e' :: rest => some (bool true, rest)
    | 'f' :: 'a' :: 'l' :: 's' :: 'e' :: rest => some (bool false, rest)
    | '"' :: rest =>
      (cutString rest).map fun (inside, after) => (string (String.ofList inside), after)
    | '[' :: rest =>
      match skipBlanks rest with
      | ']' :: after => some (array [], after)
      | _ => (readItems bound rest).map fun (items, after) => (array items, after)
    | '\x7b' :: rest =>
      match skipBlanks rest with
      | '\x7d' :: after => some (object [], after)
      | _ => (readMembers bound rest).map fun (members, after) => (object members, after)
    | rest => (cutNumber rest).map fun (digits, after) => (number (String.ofList digits), after)

/-- Reads the items of an array that has one at least, and its closing bracket. -/
def readItems : Nat → List Char → Option (List Json × List Char)
  | 0, _ => none
  | bound + 1, text =>
    match readValue bound text with
    | none => none
    | some (item, rest) =>
      match skipBlanks rest with
      | ']' :: after => some ([item], after)
      | ',' :: rest => (readItems bound rest).map fun (items, after) => (item :: items, after)
      | _ => none

/-- Reads the members of an object that has one at least, and its closing brace. -/
def readMembers : Nat → List Char → Option (List (String × Json) × List Char)
  | 0, _ => none
  | bound + 1, text =>
    match skipBlanks text with
    | '"' :: rest =>
      match cutString rest with
      | none => none
      | some (key, rest) =>
        match skipBlanks rest with
        | ':' :: rest =>
          match readValue bound rest with
          | none => none
          | some (value, rest) =>
            match skipBlanks rest with
            | '\x7d' :: after => some ([(String.ofList key, value)], after)
            | ',' :: rest =>
              (readMembers bound rest).map fun (members, after) =>
                ((String.ofList key, value) :: members, after)
            | _ => none
        | _ => none
    | _ => none

end

/-- Reads a text that is one value. -/
def read? (text : String) : Option Json :=
  match readValue (2 * text.length + 2) text.toList with
  | some (json, rest) => if skipBlanks rest = [] then some json else none
  | none => none

end TinyScript.Json
