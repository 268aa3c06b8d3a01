import Mathlib.Data.List.Basic
import Mathlib.Data.String.Basic
import Mathlib.Order.Compare
import Mathlib.Tactic.SplitIfs

/-!
# Texts are ordered by their code points

Texts compare as the lists of their code points (`compare_string`). The bytes of the UTF-8 encoding
give the same order (`compare_utf8Bytes`), since of two different characters the encodings differ at
a byte inside both, and there the smaller character has the smaller byte. So it does not matter
whether texts are compared by characters or by what is stored of them.
-/

namespace TinyScript

/-- The code points of a text. -/
def codePoints (text : String) : List Nat := text.toList.map Char.toNat

/-- The bytes of a text in UTF-8. -/
def utf8Bytes (text : String) : List Nat := text.toByteArray.data.toList.map UInt8.toNat

/-! ## Lists of numbers -/

theorem compare_cons (x y : Nat) (xs ys : List Nat) :
    compare (x :: xs) (y :: ys) = (compare x y).then (compare xs ys) :=
  List.compareLex_cons_cons

/-- What two lists begin with alike has no part in their order. -/
theorem compare_append (front xs ys : List Nat) :
    compare (front ++ xs) (front ++ ys) = compare xs ys := by
  induction front with
  | nil => rfl
  | cons x front ih =>
      rw [List.cons_append, List.cons_append, compare_cons, ih, compare_eq_iff_eq.mpr rfl]
      rfl

/-! ## Code points -/

theorem compare_toNat_eq_lt : ∀ a b : List Char,
    compare (a.map Char.toNat) (b.map Char.toNat) = .lt ↔ a < b
  | [], [] => by decide
  | [], _ :: _ => by simp
  | _ :: _, [] => by simp
  | c :: a, d :: b => by
      have hchars : c < d ↔ c.toNat < d.toNat := Iff.rfl
      rw [List.map_cons, List.map_cons, compare_cons, Ordering.then_eq_lt, compare_lt_iff_lt,
        compare_eq_iff_eq, compare_toNat_eq_lt a b, List.cons_lt_cons_iff, Char.toNat_inj, hchars]

theorem codePoints_inj {a b : String} : codePoints a = codePoints b ↔ a = b := by
  rw [codePoints, codePoints, (List.map_injective_iff.mpr fun _ _ => Char.toNat_inj.mp).eq_iff,
    String.toList_inj]

/-- Texts compare as their code points from the front. -/
theorem compare_string (a b : String) : compare a b = compare (codePoints a) (codePoints b) := by
  have hless : compare (codePoints a) (codePoints b) = .lt ↔ a < b := by
    rw [String.lt_iff_toList_lt, ← compare_toNat_eq_lt]
    rfl
  show compareOfLessAndEq a b = _
  unfold compareOfLessAndEq
  by_cases hlt : a < b
  · rw [if_pos hlt, hless.mpr hlt]
  · rw [if_neg hlt]
    by_cases heq : a = b
    · rw [if_pos heq, heq]
      exact Std.ReflCmp.compare_self.symm
    · rw [if_neg heq]
      cases hcompare : compare (codePoints a) (codePoints b) with
      | lt => exact absurd (hless.mp hcompare) hlt
      | eq => exact absurd (codePoints_inj.mp (Std.LawfulEqCmp.eq_of_compare hcompare)) heq
      | gt => rfl

/-! ## Bytes -/

/-- The bytes of a character in UTF-8. -/
def charBytes (c : Char) : List Nat := (String.utf8EncodeChar c).map UInt8.toNat

theorem utf8Bytes_eq (text : String) : utf8Bytes text = text.toList.flatMap charBytes := by
  rw [utf8Bytes, ← String.utf8Encode_toList, List.utf8Encode, List.data_toByteArray,
    List.toList_toArray, List.map_flatMap]
  rfl

theorem charBytes_ne_nil (c : Char) : charBytes c ≠ [] := by
  simp [charBytes]

/-- The first byte in which two characters differ stands inside both. -/
theorem compare_charBytes_append {c d : Char} (h : c.toNat < d.toNat) (rest rest' : List Nat) :
    compare (charBytes c ++ rest) (charBytes d ++ rest') = .lt := by
  have hbound : d.toNat < 0x110000 := by
    rcases d.valid with hlow | ⟨-, hhigh⟩
    · exact Nat.lt_trans hlow (by decide)
    · exact hhigh
  have hvalue : ∀ c : Char, c.val.toNat = c.toNat := fun _ => rfl
  -- Every byte but the first holds one digit of the code point to the base 64.
  have hquotient : ∀ n : Nat, n / 4096 = n / 64 / 64 ∧ n / 262144 = n / 64 / 64 / 64 := by omega
  have hdigit : ∀ n offset : Nat, offset ≤ 192 →
      (n % 64 + offset) % 256 = n % 64 + offset := by omega
  unfold charBytes String.utf8EncodeChar
  simp only [hvalue]
  generalize c.toNat = n at *
  generalize d.toNat = k at *
  split_ifs <;>
    simp [Ordering.then_eq_lt, compare_lt_iff_lt, hquotient, hdigit] <;> omega

theorem compare_flatMap_charBytes : ∀ a b : List Char,
    compare (a.flatMap charBytes) (b.flatMap charBytes) =
      compare (a.map Char.toNat) (b.map Char.toNat)
  | [], [] => rfl
  | [], d :: b => by
      obtain ⟨byte, bytes, hbytes⟩ := List.exists_cons_of_ne_nil (charBytes_ne_nil d)
      rw [List.flatMap_cons, hbytes]
      rfl
  | c :: a, [] => by
      obtain ⟨byte, bytes, hbytes⟩ := List.exists_cons_of_ne_nil (charBytes_ne_nil c)
      rw [List.flatMap_cons, hbytes]
      rfl
  | c :: a, d :: b => by
      rw [List.flatMap_cons, List.flatMap_cons, List.map_cons, List.map_cons, compare_cons]
      rcases Nat.lt_trichotomy c.toNat d.toNat with hlt | heq | hgt
      · rw [compare_charBytes_append hlt, compare_lt_iff_lt.mpr hlt]
        rfl
      · obtain rfl : c = d := Char.toNat_inj.mp heq
        rw [compare_append, compare_flatMap_charBytes a b, compare_eq_iff_eq.mpr rfl]
        rfl
      · have hbytes := compare_charBytes_append hgt (b.flatMap charBytes) (a.flatMap charBytes)
        rw [compare_gt_iff_gt.mpr hgt]
        exact Std.OrientedCmp.eq_swap.trans (congrArg Ordering.swap hbytes)

/-- Texts compare as their bytes from the front. -/
theorem compare_utf8Bytes (a b : String) :
    compare (utf8Bytes a) (utf8Bytes b) = compare (codePoints a) (codePoints b) := by
  rw [utf8Bytes_eq, utf8Bytes_eq]
  exact compare_flatMap_charBytes a.toList b.toList

end TinyScript
