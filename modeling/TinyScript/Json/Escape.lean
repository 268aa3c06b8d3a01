/-!
# The inside of JSON strings

`escape` writes the characters of a string as they stand between quotes, `unescape` reads them
back, and `cutString` finds where a quoted string ends without judging what its escapes mean, so
that a part nobody reads need not be meaningful.
-/

namespace TinyScript.Json

/-! ## Hexadecimal digits -/

/-- The digit for a number below sixteen, in lower case. -/
def hexDigit (n : Nat) : Char := Nat.digitChar (n % 16)

/-- The value of a hexadecimal digit in either case. -/
def hexValue? (c : Char) : Option Nat :=
  if c.isDigit then some (c.toNat - '0'.toNat)
  else if 'a' ≤ c ∧ c ≤ 'f' then some (c.toNat - 'a'.toNat + 10)
  else if 'A' ≤ c ∧ c ≤ 'F' then some (c.toNat - 'A'.toNat + 10)
  else none

/-- The number written by four hexadecimal digits. -/
def hexQuad? (a b c d : Char) : Option Nat := do
  let a ← hexValue? a
  let b ← hexValue? b
  let c ← hexValue? c
  let d ← hexValue? d
  return ((a * 16 + b) * 16 + c) * 16 + d

/-! ## Writing -/

/-- A character as it stands between quotes: the quote, the backslash and the control characters
are escaped, all else stands for itself. -/
def escapeChar (c : Char) : List Char :=
  if c = '"' then ['\\', '"']
  else if c = '\\' then ['\\', '\\']
  else if c = '\x08' then ['\\', 'b']
  else if c = '\x0c' then ['\\', 'f']
  else if c = '\n' then ['\\', 'n']
  else if c = '\r' then ['\\', 'r']
  else if c = '\t' then ['\\', 't']
  else if c.toNat < 0x20 then
    ['\\', 'u', '0', '0', hexDigit (c.toNat / 16), hexDigit c.toNat]
  else [c]

/-- Characters as they stand between quotes. -/
def escape (text : List Char) : List Char := text.flatMap escapeChar

/-! ## Reading -/

/-- What a backslash followed by this character stands for. -/
def shortEscape? (c : Char) : Option Char :=
  if c = '"' then some '"'
  else if c = '\\' then some '\\'
  else if c = '/' then some '/'
  else if c = 'b' then some '\x08'
  else if c = 'f' then some '\x0c'
  else if c = 'n' then some '\n'
  else if c = 'r' then some '\r'
  else if c = 't' then some '\t'
  else none

/-- The character that the two halves of a surrogate pair stand for. -/
def joinSurrogates? (high low : Nat) : Option Char :=
  if 0xD800 ≤ high ∧ high < 0xDC00 ∧ 0xDC00 ≤ low ∧ low < 0xE000 then
    some (Char.ofNat (0x10000 + (high - 0xD800) * 0x400 + (low - 0xDC00)))
  else none

/-- Reads what stands between quotes. Control characters have to be escaped and surrogates have
to come in pairs. -/
def unescape : List Char → Option (List Char)
  | [] => some []
  | '\\' :: 'u' :: a :: b :: c :: d :: rest =>
    match hexQuad? a b c d with
    | none => none
    | some code =>
      if code < 0xD800 ∨ 0xE000 ≤ code then (unescape rest).map (Char.ofNat code :: ·)
      else
        match rest with
        | '\\' :: 'u' :: a :: b :: c :: d :: rest =>
          match (hexQuad? a b c d).bind (joinSurrogates? code) with
          | none => none
          | some joined => (unescape rest).map (joined :: ·)
        | _ => none
  | '\\' :: c :: rest =>
    match shortEscape? c with
    | none => none
    | some plain => (unescape rest).map (plain :: ·)
  | c :: rest =>
    if c = '\\' ∨ c = '"' ∨ c.toNat < 0x20 then none else (unescape rest).map (c :: ·)

/-- Cuts what follows an opening quote at the closing one, checking the shape of escapes only. -/
def cutString : List Char → Option (List Char × List Char)
  | [] => none
  | '"' :: rest => some ([], rest)
  | '\\' :: 'u' :: a :: b :: c :: d :: rest =>
    match hexQuad? a b c d, cutString rest with
    | some _, some (inside, after) => some ('\\' :: 'u' :: a :: b :: c :: d :: inside, after)
    | _, _ => none
  | '\\' :: c :: rest =>
    match shortEscape? c, cutString rest with
    | some _, some (inside, after) => some ('\\' :: c :: inside, after)
    | _, _ => none
  | c :: rest =>
    if c = '\\' ∨ c.toNat < 0x20 then none
    else (cutString rest).map fun (inside, after) => (c :: inside, after)

end TinyScript.Json
