import Mathlib.Algebra.Ring.Nat
import Mathlib.Data.List.Basic
import TinyScript.Text.Numeral

/-!
# Numerals are read back

What is written of a number, a sign apart, is a nonempty run of digits. Of such a run every reader
of numerals takes the value (`readNatural?_of_isDigit`, `readDigits?_of_isDigit`), and the value of
the digits of a number is the number (`valueOf_digits`).
-/

namespace TinyScript.Text

variable {text : List Char}

/-! ## Digits -/

theorem isDigit_of_mem_digits {n : Nat} : ∀ c ∈ digits n, c.isDigit = true :=
  fun _ => Nat.isDigit_of_mem_toDigits (by decide) (by decide)

theorem digits_ne_nil {n : Nat} : digits n ≠ [] := Nat.toDigits_ne_nil

theorem digits_zero : digits 0 = ['0'] := Nat.toDigits_zero 10

/-- Multiplying by ten puts a zero behind the digits. -/
theorem digits_ten_mul {n : Nat} (h : 0 < n) : digits (10 * n) = digits n ++ ['0'] := by
  have happend := Nat.toDigits_append_toDigits (d := 0) (by decide : 1 < 10) h (by decide)
  rw [Nat.toDigits_zero] at happend
  exact happend.symm

theorem digits_mul_pow {n : Nat} (h : 0 < n) (places : Nat) :
    digits (n * 10 ^ places) = digits n ++ List.replicate places '0' := by
  induction places with
  | zero => simp
  | succ places ih =>
      have hpositive : 0 < n * 10 ^ places := Nat.mul_pos h (Nat.pow_pos (by decide))
      rw [Nat.pow_succ, ← Nat.mul_assoc, Nat.mul_comm _ 10, digits_ten_mul hpositive, ih,
        List.append_assoc, ← List.replicate_succ']

theorem toList_toString (n : Int) : (toString n).toList = integerDigits n := by
  cases n with
  | ofNat n =>
      show (Nat.repr n).toList = _
      rw [Nat.repr_eq_ofList_toDigits, String.toList_ofList]
      rfl
  | negSucc n =>
      show ("-" ++ Nat.repr (n + 1)).toList = _
      rw [integerDigits, if_pos (Int.negSucc_lt_zero n)]
      simp [Nat.repr_eq_ofList_toDigits, digits]

/-- Only zero is written with a zero in front. -/
theorem eq_zero_of_digits_eq {n : Nat} (h : digits n = '0' :: text) : n = 0 := by
  induction n using Nat.strongRecOn generalizing text with
  | _ n ih =>
      by_cases hsmall : n < 10
      · rw [digits, Nat.toDigits_of_lt_base hsmall] at h
        have hchar : ∀ n < 10, Nat.digitChar n = '0' → n = 0 := by decide
        exact hchar n hsmall (List.cons.inj h).1
      · rw [digits, Nat.toDigits_of_base_le (by decide) (by omega)] at h
        cases hfront : Nat.toDigits 10 (n / 10) with
        | nil => exact absurd hfront Nat.toDigits_ne_nil
        | cons first front =>
            rw [hfront] at h
            obtain ⟨rfl, -⟩ := List.cons.inj h
            have := ih (n / 10) (by omega) hfront
            omega

/-! ## Values -/

/-- Without low lines the value is that of the digits in a row. -/
theorem valueOf_of_isDigit (h : ∀ c ∈ text, c.isDigit = true) :
    valueOf text = Nat.ofDigitChars 10 text 0 := by
  rw [valueOf, Nat.ofDigitChars_eq_foldl]
  refine List.foldl_ext _ _ _ fun n c hmem => if_neg ?_
  rintro rfl
  exact absurd (h '_' hmem) (by decide)

theorem valueOf_digits (n : Nat) : valueOf (digits n) = n := by
  rw [valueOf_of_isDigit isDigit_of_mem_digits]
  exact Nat.ofDigitChars_ten_toDigits

/-- Zeros in front count for nothing. -/
theorem valueOf_replicate_append (count n : Nat) :
    valueOf (List.replicate count '0' ++ digits n) = n := by
  rw [valueOf_of_isDigit, Nat.ofDigitChars_append, Nat.ofDigitChars_replicate_zero, Nat.mul_zero]
  · exact Nat.ofDigitChars_ten_toDigits
  · intro c hmem
    rcases List.mem_append.mp hmem with hmem | hmem
    · rw [(List.mem_replicate.mp hmem).2]
      rfl
    · exact isDigit_of_mem_digits c hmem

/-! ## Reading -/

theorem readNatural?_of_isDigit (hne : text ≠ []) (h : ∀ c ∈ text, c.isDigit = true) :
    readNatural? text = some (valueOf text) := by
  have hall : text.all isNumeralChar = true := by
    rw [List.all_eq_true]
    intro c hmem
    simp [isNumeralChar, h c hmem]
  unfold readNatural?
  split
  · exact absurd rfl hne
  · exact absurd (h '_' List.mem_cons_self) (by decide)
  · rw [if_pos hall]

theorem readDigits?_of_isDigit (hne : text ≠ []) (h : ∀ c ∈ text, c.isDigit = true) :
    readDigits? text = some (valueOf text) := by
  unfold readDigits?
  split
  · exact absurd rfl hne
  · rw [if_pos (List.all_eq_true.mpr h)]

/-- A sign in front of digits is read as a sign. -/
theorem readSigned?_of_isDigit {natural? : List Char → Option Nat} (n : Int)
    (h : ∀ c ∈ text, c.isDigit = true) (hread : natural? text = some n.natAbs) :
    readSigned? natural? ((if n < 0 then ['-'] else []) ++ text) = some n := by
  split
  · next hnegative =>
      show (natural? text).map _ = _
      rw [hread, Option.map_some, Int.ofNat_natAbs_of_nonpos (Int.le_of_lt hnegative), Int.neg_neg]
  · next hpositive =>
      rw [List.nil_append]
      unfold readSigned?
      split
      · exact absurd (h '-' List.mem_cons_self) (by decide)
      · exact absurd (h '+' List.mem_cons_self) (by decide)
      · rw [hread, Option.map_some, Int.natAbs_of_nonneg (Int.not_lt.mp hpositive)]

end TinyScript.Text
