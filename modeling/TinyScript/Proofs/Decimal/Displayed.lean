import Mathlib.Algebra.Field.Rat
import Mathlib.Algebra.GroupWithZero.Basic
import Mathlib.Data.List.TakeWhile
import Mathlib.Data.Rat.Cast.Defs
import TinyScript.Decimal.Text
import TinyScript.Proofs.Numeral

/-!
# Decimals are read back by their value

The notation of trees does not tell every scale: a zero is written without one, and a few places
left of the digits are spelled out as zeros. What is read back is the decimal as it is displayed
(`read?_textChars`). It has the same value (`value_displayed`) and the same notation
(`textChars_displayed`), and it is the same decimal where the notation keeps the scale
(`displayed_eq_self_iff`).
-/

namespace TinyScript.Decimal

open Text

/-- The number that a decimal stands for. -/
def value (d : Decimal) : ℚ := d.unscaled * 10 ^ (-d.scale)

/-- Whether the notation of trees keeps the scale. -/
def KeepsScale (d : Decimal) : Prop :=
  if d.unscaled = 0 then d.scale = 0 else d.scale < -trailingZeroLimit ∨ 0 ≤ d.scale

instance (d : Decimal) : Decidable d.KeepsScale := inferInstanceAs (Decidable (ite ..))

/-- The decimal that is shown where the notation of trees does not keep the scale. -/
def displayed (d : Decimal) : Decimal :=
  if d.unscaled = 0 then ⟨0, 0⟩
  else if -trailingZeroLimit ≤ d.scale ∧ d.scale < 0 then
    ⟨d.unscaled * 10 ^ d.scale.natAbs, 0⟩
  else d

variable {n : Int} {text : List Char}

/-! ## The displayed decimal -/

theorem displayed_eq_self_iff {d : Decimal} : d.displayed = d ↔ d.KeepsScale := by
  obtain ⟨unscaled, scale⟩ := d
  by_cases hzero : unscaled = 0
  · simp [displayed, KeepsScale, hzero, eq_comm]
  · simp only [displayed, KeepsScale, if_neg hzero]
    split
    · next hzeros =>
        simp only [Decimal.mk.injEq]
        omega
    · next hkept =>
        simp only [true_iff]
        omega

theorem value_displayed (d : Decimal) : d.displayed.value = d.value := by
  unfold displayed
  split
  · next hzero => simp [value, hzero]
  · split
    · next hzeros =>
        have hscale : -d.scale = (d.scale.natAbs : ℤ) := by omega
        show ((d.unscaled * 10 ^ d.scale.natAbs : ℤ) : ℚ) * 10 ^ (-0 : ℤ) = _
        rw [value, hscale, zpow_natCast, neg_zero, zpow_zero, mul_one, Int.cast_mul, Int.cast_pow,
          Int.cast_ofNat]
    · rfl

/-! ## Reading -/

theorem ne_point_of_isDigit {c : Char} (h : c.isDigit = true) : c ≠ '.' := by
  rintro rfl
  exact absurd h (by decide)

theorem mem_signText {c : Char} (h : c ∈ signText n) : c = '-' := by
  unfold signText at h
  split at h
  · exact List.mem_singleton.mp h
  · exact absurd h List.not_mem_nil

theorem integerDigits_eq : integerDigits n = signText n ++ digits n.natAbs := by
  unfold integerDigits signText
  split <;> rfl

/-- Digits behind a sign are an integer. -/
theorem readInteger?_signed (hne : text ≠ []) (hdigits : ∀ c ∈ text, c.isDigit = true)
    (hvalue : valueOf text = n.natAbs) : readInteger? (signText n ++ text) = some n :=
  readSigned?_of_isDigit n hdigits (by rw [readNatural?_of_isDigit hne hdigits, hvalue])

theorem readBase?_whole (hne : text ≠ []) (hdigits : ∀ c ∈ text, c.isDigit = true)
    (hvalue : valueOf text = n.natAbs) : readBase? (signText n ++ text) = some ⟨n, 0⟩ := by
  have hplain : ∀ c ∈ signText n ++ text, decide (c ≠ '.') = true := by
    intro c hmem
    rcases List.mem_append.mp hmem with hmem | hmem
    · rw [mem_signText hmem]
      rfl
    · exact decide_eq_true (ne_point_of_isDigit (hdigits c hmem))
  unfold readBase?
  rw [List.dropWhile_eq_nil_iff.mpr hplain, List.takeWhile_eq_self_iff.mpr hplain]
  simp only [readInteger?_signed hne hdigits hvalue, Option.map_some]

theorem readBase?_point {whole fraction : List Char} (hne : whole ≠ [])
    (hdigits : ∀ c ∈ whole ++ fraction, c.isDigit = true)
    (hvalue : valueOf (whole ++ fraction) = n.natAbs) :
    readBase? (signText n ++ (whole ++ '.' :: fraction)) = some ⟨n, fraction.length⟩ := by
  have hplain : ∀ c ∈ signText n ++ whole, decide (c ≠ '.') = true := by
    intro c hmem
    rcases List.mem_append.mp hmem with hmem | hmem
    · rw [mem_signText hmem]
      rfl
    · exact decide_eq_true (ne_point_of_isDigit (hdigits c (List.mem_append_left _ hmem)))
  have hplaces : fraction.filter (fun c => decide (¬ c = '_')) = fraction := by
    refine List.filter_eq_self.mpr fun c hmem => decide_eq_true ?_
    rintro rfl
    exact absurd (hdigits '_' (List.mem_append_right _ hmem)) (by decide)
  have hread := readInteger?_signed (by simp [hne]) hdigits hvalue
  unfold readBase?
  rw [← List.append_assoc, List.takeWhile_append_of_pos hplain, List.dropWhile_append_of_pos hplain]
  simp only [List.takeWhile_cons, List.dropWhile_cons, ne_eq, not_true, decide_false, if_false,
    Bool.false_eq_true, List.append_nil, List.append_assoc, hread, hplaces, Option.map_some]

theorem isNumeral_of_readNatural? {n : Nat} (h : readNatural? text = some n) :
    ∀ c ∈ text, isNumeralChar c = true := by
  unfold readNatural? at h
  split at h
  · cases h
  · cases h
  · split at h
    · next hall => exact List.all_eq_true.mp hall
    · cases h

/-- An integer is made of signs, digits and low lines. -/
theorem isNumeral_of_readInteger? (h : readInteger? text = some n) :
    ∀ c ∈ text, c = '-' ∨ c = '+' ∨ isNumeralChar c = true := by
  unfold readInteger? readSigned? at h
  intro c hmem
  split at h
  · obtain ⟨_, hread, -⟩ := Option.map_eq_some_iff.mp h
    rcases List.mem_cons.mp hmem with rfl | hmem
    · exact .inl rfl
    · exact .inr (.inr (isNumeral_of_readNatural? hread c hmem))
  · obtain ⟨_, hread, -⟩ := Option.map_eq_some_iff.mp h
    rcases List.mem_cons.mp hmem with rfl | hmem
    · exact .inr (.inl rfl)
    · exact .inr (.inr (isNumeral_of_readNatural? hread c hmem))
  · obtain ⟨_, hread, -⟩ := Option.map_eq_some_iff.mp h
    exact .inr (.inr (isNumeral_of_readNatural? hread c hmem))

/-- No exponent mark stands in a base. -/
theorem not_isExponentMark_of_readBase? {d : Decimal} (h : readBase? text = some d) :
    ∀ c ∈ text, (!isExponentMark c) = true := by
  have hmark : ∀ {c : Char}, isExponentMark c = true →
      ¬ (c = '-' ∨ c = '+' ∨ isNumeralChar c = true) ∧ c ≠ '.' := by
    intro c hmark
    simp only [isExponentMark, Bool.or_eq_true, decide_eq_true_eq] at hmark
    rcases hmark with rfl | rfl <;> decide
  intro c hmem
  rw [Bool.not_eq_true']
  by_contra hexponent
  obtain ⟨hnot, hpoint⟩ := hmark (Bool.eq_true_of_not_eq_false hexponent)
  -- The point itself is not among the digits that are read, so it is a case of its own.
  rw [← List.takeWhile_append_dropWhile (p := (· ≠ '.')) (l := text)] at hmem
  unfold readBase? at h
  split at h
  · next hnone =>
      obtain ⟨_, hread, -⟩ := Option.map_eq_some_iff.mp h
      rw [hnone, List.append_nil] at hmem
      exact hnot (isNumeral_of_readInteger? hread c hmem)
  · next first fraction hsome =>
      obtain ⟨_, hread, -⟩ := Option.map_eq_some_iff.mp h
      have hall := isNumeral_of_readInteger? hread
      rw [hsome, List.mem_append, List.mem_cons] at hmem
      rcases hmem with hmem | rfl | hmem
      · exact hnot (hall c (List.mem_append_left _ hmem))
      · have hfirst := List.head?_dropWhile_not (fun c => decide (c ≠ '.')) text
        rw [hsome] at hfirst
        exact hpoint (by simpa using hfirst)
      · exact hnot (hall c (List.mem_append_right _ hmem))

/-- Without an exponent the base is all. -/
theorem read?_of_base {d : Decimal} (hread : readBase? text = some d)
    (hscale : isWritableScale d.scale = true) : read? text = some d := by
  have hplain := not_isExponentMark_of_readBase? hread
  unfold read?
  rw [List.takeWhile_eq_self_iff.mpr hplain, List.dropWhile_eq_nil_iff.mpr hplain, hread]
  simp [hscale]

/-- An exponent behind the base lowers the scale. -/
theorem read?_of_exponent {d : Decimal} {mark : Char} {exponent : List Char} {e : Int}
    (hmark : isExponentMark mark = true) (hread : readBase? text = some d)
    (hexponent : readExponent? exponent = some e)
    (hscale : isWritableScale (d.scale - e) = true) :
    read? (text ++ mark :: exponent) = some ⟨d.unscaled, d.scale - e⟩ := by
  have hplain := not_isExponentMark_of_readBase? hread
  unfold read?
  rw [List.takeWhile_append_of_pos hplain, List.dropWhile_append_of_pos hplain]
  simp [hmark, hread, hexponent, hscale]

/-! ## The three notations -/

/-- Digits with a point behind the first of them are as many places less one. -/
theorem readBase?_scientific :
    readBase? (signText n ++ scientificDigits (digits n.natAbs)) =
      some ⟨n, (digits n.natAbs).length - 1⟩ := by
  have hvalue := valueOf_digits n.natAbs
  have hdigits := isDigit_of_mem_digits (n := n.natAbs)
  match h : digits n.natAbs with
  | [] => exact absurd h digits_ne_nil
  | [first] =>
      rw [h] at hvalue hdigits
      exact readBase?_whole (List.cons_ne_nil _ _) hdigits hvalue
  | first :: second :: rest =>
      rw [h] at hvalue hdigits
      have hread := readBase?_point (List.cons_ne_nil first []) hdigits hvalue
      simpa [scientificDigits] using hread

theorem readExponent?_integerDigits (h : isWritableExponent n = true) :
    readExponent? (integerDigits n) = some n := by
  have hread : readSigned? readDigits? (integerDigits n) = some n := by
    rw [integerDigits_eq]
    exact readSigned?_of_isDigit n isDigit_of_mem_digits
      (by rw [readDigits?_of_isDigit digits_ne_nil isDigit_of_mem_digits, valueOf_digits])
  rw [readExponent?, hread, Option.filter_some, if_pos h]

theorem readExponent?_plus {places : Nat} (h : isWritableExponent places = true) :
    readExponent? ('+' :: digits places) = some (places : Int) := by
  have hread : readSigned? readDigits? ('+' :: digits places) = some (places : Int) := by
    simp [readSigned?, readDigits?_of_isDigit digits_ne_nil isDigit_of_mem_digits, valueOf_digits]
  rw [readExponent?, hread, Option.filter_some, if_pos h]

/-- Zeros behind an integer are powers of ten. -/
theorem integerDigits_mul_pow (h : n ≠ 0) (places : Nat) :
    integerDigits (n * 10 ^ places) = integerDigits n ++ List.replicate places '0' := by
  have hpow : (0 : Int) < 10 ^ places := Int.pow_pos (by decide)
  have hsign : n * 10 ^ places < 0 ↔ n < 0 := by
    have hscaled := Int.mul_lt_mul_right (b := n) (c := 0) hpow
    rwa [Int.zero_mul] at hscaled
  have habs : (n * 10 ^ places).natAbs = n.natAbs * 10 ^ places := by
    rw [Int.natAbs_mul, Int.natAbs_pow]
    rfl
  rw [integerDigits_eq, integerDigits_eq, habs, digits_mul_pow (Int.natAbs_pos.mpr h),
    List.append_assoc]
  unfold signText
  simp only [hsign]

theorem readBase?_integerDigits : readBase? (integerDigits n) = some ⟨n, 0⟩ := by
  rw [integerDigits_eq]
  exact readBase?_whole digits_ne_nil isDigit_of_mem_digits (valueOf_digits _)

theorem isDigit_of_mem_paddedDigits {length n : Nat} :
    ∀ c ∈ paddedDigits length n, c.isDigit = true := by
  intro c hmem
  rcases List.mem_append.mp hmem with hmem | hmem
  · rw [(List.mem_replicate.mp hmem).2]
    rfl
  · exact isDigit_of_mem_digits c hmem

/-- The point divides the padded digits, and leaves one of them at least in front of it. -/
theorem pointed_eq (places n : Nat) :
    ∃ whole fraction, pointed places n = whole ++ '.' :: fraction ∧
      whole ++ fraction = paddedDigits (places + 1) n ∧ fraction.length = places ∧ whole ≠ [] := by
  have hlength : places + 1 ≤ (paddedDigits (places + 1) n).length := by
    rw [paddedDigits, List.length_append, List.length_replicate]
    omega
  refine ⟨_, _, rfl, List.take_append_drop _ _, ?_, ?_⟩
  · rw [List.length_drop]
    omega
  · rw [← List.length_pos_iff, List.length_take]
    omega

/-- A pointed numeral is as many places behind the point as it says, and has a digit before it. -/
theorem readBase?_pointed (places : Nat) :
    readBase? (signText n ++ pointed places n.natAbs) = some ⟨n, places⟩ := by
  obtain ⟨whole, fraction, hpointed, hpadded, hplaces, hwhole⟩ := pointed_eq places n.natAbs
  have hdigits : ∀ c ∈ paddedDigits (places + 1) n.natAbs, c.isDigit = true :=
    isDigit_of_mem_paddedDigits
  have hvalue : valueOf (paddedDigits (places + 1) n.natAbs) = n.natAbs :=
    valueOf_replicate_append _ _
  rw [← hpadded] at hdigits hvalue
  rw [hpointed, readBase?_point hwhole hdigits hvalue, hplaces]

theorem isWritableScale_iff {scale : Int} :
    isWritableScale scale = true ↔ -0x8000000000000000 ≤ scale ∧ scale < 0x8000000000000000 := by
  simp [isWritableScale]

/-- Decimals are read at writable scales only. -/
theorem isWritableScale_of_read? {text : List Char} {d : Decimal}
    (h : read? text = some d) : isWritableScale d.scale = true := by
  unfold read? at h
  obtain ⟨base, -, h⟩ := Option.bind_eq_some_iff.mp h
  have tested : ∀ exponent : Int, (if isWritableScale (base.scale - exponent) = true then
      some (⟨base.unscaled, base.scale - exponent⟩ : Decimal) else none) = some d →
        isWritableScale d.scale = true := by
    intro exponent h
    split at h
    · next hscale =>
        cases h
        exact hscale
    · cases h
  split at h
  · exact tested 0 h
  · obtain ⟨exponent, -, h⟩ := Option.bind_eq_some_iff.mp h
    exact tested exponent h

theorem isWritableExponent_of_scale {exponent : Int}
    (h : -0x8000000000000000 ≤ exponent ∧ exponent ≤ 0x8000000000000000) :
    isWritableExponent exponent = true := by
  simp only [isWritableExponent, Bool.and_eq_true, decide_eq_true_eq]
  omega

/-- With an exponent of the leading digit. -/
theorem read?_scientific {d : Decimal} (h : isWritableScale d.scale = true)
    (hsmall : leadingZeroLimit < d.scale - (digits d.unscaled.natAbs).length) :
    read? (signText d.unscaled ++ scientificDigits (digits d.unscaled.natAbs) ++
      'E' :: integerDigits ((digits d.unscaled.natAbs).length - d.scale - 1)) = some d := by
  rw [isWritableScale_iff] at h
  unfold leadingZeroLimit at hsmall
  have hexponent : isWritableExponent ((digits d.unscaled.natAbs).length - d.scale - 1) = true :=
    isWritableExponent_of_scale (by omega)
  have hscale : ((digits d.unscaled.natAbs).length - 1 : Int) -
      ((digits d.unscaled.natAbs).length - d.scale - 1) = d.scale := by omega
  rw [read?_of_exponent rfl readBase?_scientific (readExponent?_integerDigits hexponent), hscale]
  rw [hscale, isWritableScale_iff]
  exact h

/-- With an exponent of the last digit. -/
theorem read?_large {d : Decimal} (h : isWritableScale d.scale = true)
    (hlarge : trailingZeroLimit < -d.scale) :
    read? (signText d.unscaled ++ digits d.unscaled.natAbs ++
      'e' :: '+' :: digits d.scale.natAbs) = some d := by
  rw [isWritableScale_iff] at h
  unfold trailingZeroLimit at hlarge
  have hexponent : isWritableExponent d.scale.natAbs = true :=
    isWritableExponent_of_scale (by omega)
  have hscale : (0 : Int) - d.scale.natAbs = d.scale := by omega
  rw [← integerDigits_eq, read?_of_exponent rfl readBase?_integerDigits
    (readExponent?_plus hexponent), hscale]
  rw [hscale, isWritableScale_iff]
  exact h

/-- With all digits spelled out. -/
theorem read?_plain {d : Decimal} (h : isWritableScale d.scale = true) (hzero : d.unscaled ≠ 0)
    (hplain : -trailingZeroLimit ≤ d.scale) : read? d.plainChars = some d.displayed := by
  unfold plainChars displayed
  rw [if_neg hzero, if_neg hzero, ← integerDigits_mul_pow hzero]
  by_cases hnegative : d.scale < 0
  · rw [if_pos (by omega), if_pos ⟨hplain, hnegative⟩]
    exact read?_of_base readBase?_integerDigits rfl
  · rw [if_neg (c := _ ∧ _) fun hboth => hnegative hboth.2]
    split
    · next hnone =>
        obtain ⟨unscaled, scale⟩ := d
        obtain rfl : scale = 0 := by
          simp only at hnone hnegative
          omega
        simpa using read?_of_base readBase?_integerDigits rfl
    · next hpositive =>
        have hread : readBase? _ = some ⟨d.unscaled, (d.scale.natAbs : Int)⟩ :=
          readBase?_pointed d.scale.natAbs
        have hscale : (d.scale.natAbs : Int) = d.scale := by omega
        rw [hscale] at hread
        exact read?_of_base hread h

/-- What is read back of a decimal is the decimal as it is displayed. -/
theorem read?_textChars {d : Decimal} (h : isWritableScale d.scale = true) :
    read? d.textChars = some d.displayed := by
  by_cases hzero : d.unscaled = 0
  · have htext : d.textChars = ['0'] := by
      simp [textChars, hzero, digits_zero, leadingZeroLimit, trailingZeroLimit, plainChars]
    rw [htext, displayed, if_pos hzero]
    rfl
  simp only [textChars, if_neg hzero]
  split
  · next hsmall =>
      have hkeeps : d.KeepsScale := by
        rw [KeepsScale, if_neg hzero]
        exact .inr (by unfold leadingZeroLimit at hsmall; omega)
      rw [displayed_eq_self_iff.mpr hkeeps]
      exact read?_scientific h hsmall
  · split
    · next hlarge =>
        have hkeeps : d.KeepsScale := by
          rw [KeepsScale, if_neg hzero]
          exact .inl (by omega)
        rw [displayed_eq_self_iff.mpr hkeeps]
        exact read?_large h hlarge
    · next hplain => exact read?_plain h hzero (by omega)

/-- The notation of a decimal is that of the decimal that is displayed. -/
theorem textChars_displayed (d : Decimal) : d.displayed.textChars = d.textChars := by
  by_cases hzero : d.unscaled = 0
  · rw [displayed, if_pos hzero]
    simp [textChars, hzero]
  unfold displayed
  rw [if_neg hzero]
  split
  · next hzeros =>
      have hscaled : d.unscaled * 10 ^ d.scale.natAbs ≠ 0 :=
        Int.mul_ne_zero hzero (Int.pow_ne_zero (by decide))
      -- On both sides the digits are spelled out: neither notation with an exponent applies.
      have hnone : ¬ leadingZeroLimit < (0 : Int) -
          (digits (d.unscaled * 10 ^ d.scale.natAbs).natAbs).length := by
        unfold leadingZeroLimit
        omega
      have hsmall : ¬ leadingZeroLimit < d.scale - (digits d.unscaled.natAbs).length := by
        unfold leadingZeroLimit
        omega
      have hlarge : ¬ trailingZeroLimit < -d.scale := by omega
      simp only [textChars, if_neg hzero, if_neg hscaled, if_neg hnone, if_neg hsmall,
        if_neg hlarge]
      rw [if_neg (by decide)]
      simp only [plainChars, if_neg hzero, if_neg hscaled, if_pos (Int.le_refl 0),
        if_pos (Int.le_of_lt hzeros.2), integerDigits_mul_pow hzero]
      simp
  · rfl

end TinyScript.Decimal
