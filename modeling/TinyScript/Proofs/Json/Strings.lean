import TinyScript.Json.Basic

/-!
# Strings between quotes are read back

Every character is written in one of three ways (`EscapedAs`): as a backslash and one character, as
a code of four hexadecimal digits, or as itself. In each of them `unescape` finds the character
again, and `cutString` runs over it, so that a string is read back (`unquote?_quote`) and ends where
its closing quote stands (`cutString_escape`).
-/

namespace TinyScript.Json

/-! ## How a character is written -/

theorem hexValue?_hexDigit : ∀ n < 16, hexValue? (hexDigit n) = some n := by decide

/-- The three ways to write a character. -/
inductive EscapedAs (c : Char) : List Char → Prop
  | short {mark} : mark ≠ 'u' → shortEscape? mark = some c → EscapedAs c ['\\', mark]
  | code {high low} : hexQuad? '0' '0' high low = some c.toNat → c.toNat < 0x20 →
      EscapedAs c ['\\', 'u', '0', '0', high, low]
  | plain : c ≠ '\\' → c ≠ '"' → ¬ c.toNat < 0x20 → EscapedAs c [c]

theorem escapedAs_escapeChar (c : Char) : EscapedAs c (escapeChar c) := by
  unfold escapeChar
  split
  · next h => exact .short (by decide) (by rw [h]; rfl)
  split
  · next h => exact .short (by decide) (by rw [h]; rfl)
  split
  · next h => exact .short (by decide) (by rw [h]; rfl)
  split
  · next h => exact .short (by decide) (by rw [h]; rfl)
  split
  · next h => exact .short (by decide) (by rw [h]; rfl)
  split
  · next h => exact .short (by decide) (by rw [h]; rfl)
  split
  · next h => exact .short (by decide) (by rw [h]; rfl)
  split
  · next hcontrol =>
      have hhigh := hexValue?_hexDigit (c.toNat / 16) (by omega)
      have hlow : hexValue? (hexDigit c.toNat) = some (c.toNat % 16) := by
        rw [← hexValue?_hexDigit (c.toNat % 16) (Nat.mod_lt _ (by decide)), hexDigit, hexDigit,
          Nat.mod_mod]
      have hzero : hexValue? '0' = some 0 := rfl
      refine .code ?_ hcontrol
      simp only [hexQuad?, hzero, hhigh, hlow, Option.bind_eq_bind, Option.bind_some,
        Option.pure_def]
      congr 1
      omega
  · next hquote hbackslash _ _ _ _ _ hcontrol => exact .plain hbackslash hquote hcontrol

/-! ## Reading a character -/

variable {c : Char} {written rest : List Char}

theorem unescape_escapedAs (h : EscapedAs c written) :
    unescape (written ++ rest) = (unescape rest).map (c :: ·) := by
  cases h with
  | @short mark hmark hshort =>
      show unescape ('\\' :: mark :: rest) = _
      rw [unescape]
      · simp only [hshort]
      · intro _ _ _ _ _ hcode
        exact absurd hcode hmark
  | @code high low hcode hcontrol =>
      show unescape ('\\' :: 'u' :: '0' :: '0' :: high :: low :: rest) = _
      rw [unescape]
      simp only [hcode, Char.ofNat_toNat]
      rw [if_pos (.inl (by omega))]
  | plain hbackslash hquote hcontrol =>
      rw [List.singleton_append, unescape]
      · rw [if_neg (by simp only [hbackslash, hquote, hcontrol, or_false, not_false_iff])]
      · intro _ _ _ _ _ h
        exact absurd h hbackslash
      · intro _ _ h
        exact absurd h hbackslash

theorem cutString_escapedAs (h : EscapedAs c written) :
    cutString (written ++ rest) =
      (cutString rest).map fun (inside, after) => (written ++ inside, after) := by
  cases h with
  | @short mark hmark hshort =>
      show cutString ('\\' :: mark :: rest) = _
      rw [cutString]
      · simp only [hshort]
        cases cutString rest <;> rfl
      · intro _ _ _ _ _ hcode
        exact absurd hcode hmark
  | @code high low hcode hcontrol =>
      show cutString ('\\' :: 'u' :: '0' :: '0' :: high :: low :: rest) = _
      rw [cutString]
      simp only [hcode]
      cases cutString rest <;> rfl
  | plain hbackslash hquote hcontrol =>
      rw [List.singleton_append, cutString]
      · rw [if_neg (by simp only [hbackslash, hcontrol, or_false, not_false_iff])]
        rfl
      · exact hquote
      · intro _ _ _ _ _ h
        exact absurd h hbackslash
      · intro _ _ h
        exact absurd h hbackslash

/-! ## Reading a string -/

theorem unescape_escape (text : List Char) : unescape (escape text) = some text := by
  induction text with
  | nil => rfl
  | cons c text ih =>
      rw [escape, List.flatMap_cons, unescape_escapedAs (escapedAs_escapeChar c)]
      rw [escape] at ih
      rw [ih, Option.map_some]

/-- A string ends where its closing quote stands. -/
theorem cutString_escape (text : List Char) :
    cutString (escape text ++ '"' :: rest) = some (escape text, rest) := by
  induction text with
  | nil => rw [escape, List.flatMap_nil, List.nil_append, cutString]
  | cons c text ih =>
      rw [escape] at ih
      rw [escape, List.flatMap_cons, List.append_assoc,
        cutString_escapedAs (escapedAs_escapeChar c), ih, Option.map_some]

@[simp] theorem unquote?_quote (text : String) : unquote? (quote text) = some text := by
  simp [unquote?, quote, unescape_escape]

end TinyScript.Json
