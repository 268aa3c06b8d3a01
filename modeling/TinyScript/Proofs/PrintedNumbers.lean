import TinyScript.Proofs.Parse.Completeness
import TinyScript.Proofs.Source.Words
import TinyScript.Run.Value

/-!
# Printed numbers read back

What a program prints of a number can be put into a program again. The text is one word whose kind
its characters tell, and read as an expression it is a literal (`ReadAs.of_rewritten`). A decimal
with places behind the point comes back as the same decimal, scale included. One without such places
is printed like an integer, and comes back as the integer of the same value. All this is
`printed_numbers_read_back`.

Plain notation shows the places of the scale and no others, leaves out every zero in front that can
be left out, and has a sign for negative numbers only (`PlainForm`).
-/

namespace TinyScript

open Grammar Token

/-! ## Texts that are one literal -/

/-- A text that is one word of the given kind, and read as an expression is the given literal. -/
structure ReadAs (text : String) (kind : Token.Kind) (value : Literal) : Prop where
  split : Token.split text = [⟨kind, text, 0⟩]
  parsed : ∃ cursor, Parser.expression (Cursor.start (Token.split text)) =
    .ok (.literal value none) cursor ∧ cursor.rest = []

theorem unfollowed_nil : Unfollowed 0 [] := ⟨nofun, nofun, nofun⟩

/-- A literal is an expression of every level. -/
theorem isExpression_literal {token : Token} {value : Literal} (h : Denotes token value) :
    IsExpression [token] (.literal value none) := by
  have factors : Expresses [token] (.joined .multiplicative (.literal value none)) :=
    .operand (.literal h)
  have terms : Expresses [token] (.joined .additive (.literal value none)) := .operand factors
  have compared : Expresses [token] (.joined .comparison (.literal value none)) := .operand terms
  exact .operand compared

/-- A word that can be cut out of a text and means a literal is read as that literal. -/
theorem ReadAs.of_rewritten {word : String} {value : Literal}
    (h : Rewritten (fun token => Denotes token value) word) :
    ReadAs word (classify word.toList) value := by
  have hsplit := split_separable h.separable
  have hdenotes : Denotes ⟨classify word.toList, word, 0⟩ value := h.found ⟨rfl, rfl⟩
  refine ⟨hsplit, ?_⟩
  obtain ⟨cursor, hread, hrest, -⟩ :=
    Parser.takes_expression (isExpression_literal hdenotes) unfollowed_nil
      (Cursor.start (Token.split word)) (by rw [hsplit]; rfl) (by simp [AllClassified, Classified])
  exact ⟨cursor, hread, hrest⟩

/-! ## Plain notation -/

/-- How a decimal with places behind the point is written: which digits stand on either side. -/
structure PlainForm (d : Decimal) (whole fraction : List Char) : Prop where
  text : d.plain.toList = Decimal.signText d.unscaled ++ (whole ++ '.' :: fraction)
  digits : ∀ c ∈ whole ++ fraction, c.isDigit = true
  places : (fraction.length : Int) = d.scale
  nonempty : whole ≠ []
  /-- A zero in front is the only digit there. -/
  leading : ∀ {rest}, whole = '0' :: rest → rest = []

/-- Digits that are filled up to a length start with a zero only if there are no more of them. -/
theorem length_of_leading_zero {length n : Nat} {rest : List Char} (h : 0 < length)
    (hzero : Decimal.paddedDigits length n = '0' :: rest) : rest.length + 1 = length := by
  have hlength := congrArg List.length hzero
  rw [Decimal.paddedDigits, List.length_append, List.length_replicate, List.length_cons] at hlength
  by_cases hfilled : length - (Text.digits n).length = 0
  · rw [Decimal.paddedDigits, hfilled, List.replicate_zero, List.nil_append] at hzero
    obtain rfl := Text.eq_zero_of_digits_eq hzero
    rw [Text.digits_zero, List.length_singleton] at hlength hfilled
    omega
  · omega

/-- The places that the scale demands are there, and no more digits than needed. -/
theorem plainForm_of_places {d : Decimal} (h : 0 < d.scale) :
    ∃ whole fraction, PlainForm d whole fraction := by
  obtain ⟨whole, fraction, hpointed, hpadded, hplaces, hwhole⟩ :=
    Decimal.pointed_eq d.scale.natAbs d.unscaled.natAbs
  refine ⟨whole, fraction, ?_, ?_, by omega, hwhole, ?_⟩
  · rw [Decimal.plain, String.toList_ofList, Decimal.plainChars, if_neg (by omega), hpointed]
  · rw [hpadded]
    exact Decimal.isDigit_of_mem_paddedDigits
  · rintro rest rfl
    have hlength : (rest ++ fraction).length + 1 = d.scale.natAbs + 1 :=
      length_of_leading_zero (Nat.succ_pos _) hpadded.symm
    rw [List.length_append] at hlength
    exact List.length_eq_zero_iff.mp (by omega)

theorem PlainForm.isNumberChar {d : Decimal} {whole fraction : List Char}
    (h : PlainForm d whole fraction) : ∀ c ∈ d.plain.toList, isNumberChar c = true := by
  intro c hmem
  have hdigit : c ∈ whole ++ fraction → TinyScript.isNumberChar c = true := by
    intro hmem
    simp [TinyScript.isNumberChar, h.digits c hmem]
  rw [h.text] at hmem
  rcases List.mem_append.mp hmem with hsign | hmem
  · rw [Decimal.mem_signText hsign]
    decide
  rcases List.mem_append.mp hmem with hwhole | hmem
  · exact hdigit (List.mem_append_left _ hwhole)
  rcases List.mem_cons.mp hmem with rfl | hfraction
  · decide
  · exact hdigit (List.mem_append_right _ hfraction)

theorem PlainForm.classify {d : Decimal} {whole fraction : List Char}
    (h : PlainForm d whole fraction) : classify d.plain.toList = .decimal := by
  have hwhole := h.nonempty
  have hdigits := h.digits
  rw [h.text]
  cases whole with
  | nil => exact absurd rfl hwhole
  | cons first rest =>
      rw [List.cons_append, classify_signed (hdigits first List.mem_cons_self), numberKind,
        if_pos (by simp)]

theorem rewritten_places {d : Decimal} (hpositive : 0 < d.scale)
    (hscale : Decimal.isWritableScale d.scale = true) :
    Rewritten (fun token => Denotes token (.decimal d)) d.plain := by
  obtain ⟨whole, fraction, hform⟩ := plainForm_of_places hpositive
  have hread : Decimal.readBase? d.plain.toList = some d := by
    rw [Decimal.plain, String.toList_ofList, Decimal.plainChars, if_neg (by omega),
      Decimal.readBase?_pointed, Int.natAbs_of_nonneg (Int.le_of_lt hpositive)]
  refine ⟨separable_of_isPlain (isPlain_of_isNumberChar ?_ hform.isNumberChar),
    fun hfound => .decimal ?_ ?_⟩
  · rw [hform.text]
    simp
  · rw [hfound.kind, hform.classify]
  · rw [hfound.2]
    exact Decimal.read?_of_base hread hscale

/-! ## Integers -/

theorem word_integer {n : Int} : (Literal.integer n).word = toString n :=
  String.toList_injective (by rw [Text.toList_toString]; exact String.toList_ofList)

/-- Without places behind the point a decimal is an integer, and is written like it. -/
theorem exists_plain_eq {d : Decimal} (h : d.scale ≤ 0) :
    ∃ n : Int, (n : ℚ) = d.value ∧ d.plain = (Literal.integer n).word := by
  obtain ⟨unscaled, scale⟩ := d
  obtain ⟨places, rfl⟩ : ∃ places : Nat, scale = -places := ⟨scale.natAbs, by
    have : scale ≤ 0 := h
    omega⟩
  refine ⟨unscaled * 10 ^ places, by simp [Decimal.value], ?_⟩
  rw [Decimal.plain, Decimal.plainChars, if_pos h]
  split
  · next hzero =>
      simp only at hzero
      rw [hzero, zero_mul]
      rfl
  · next hne =>
      simp only at hne
      rw [Literal.word, Decimal.integerDigits_mul_pow hne, Int.natAbs_neg, Int.natAbs_natCast]

theorem readAs_integer (n : Int) : ReadAs (Literal.integer n).word .integer (.integer n) := by
  have hkind : classify (Literal.integer n).word.toList = .integer := by
    rw [Literal.word, String.toList_ofList, classify_integerDigits]
  rw [← hkind]
  exact .of_rewritten (rewritten_integer n)

/-! ## All printed numbers -/

theorem text_decimal (lists : Lists) (d : Decimal) : lists.text (.decimal d) = d.plain := by
  simp [Lists.text, Lists.textWithin, Lists.scalarText]

theorem text_integer (lists : Lists) (n : Int) :
    lists.text (.integer n) = (Literal.integer n).word := by
  rw [word_integer]
  simp [Lists.text, Lists.textWithin, Lists.scalarText]

/-- What is printed of a number is read back as that number: a decimal with places behind the point
as itself, and one without as the integer of its value. Scales are signed numbers of 64 bits, and
with more places than that no text is read. -/
theorem printed_numbers_read_back (lists : Lists) :
    (∀ d : Decimal, lists.text (.decimal d) = d.plain) ∧
    (∀ d : Decimal, 0 < d.scale → Decimal.isWritableScale d.scale = true →
      ReadAs d.plain .decimal (.decimal d) ∧ ∃ whole fraction, PlainForm d whole fraction) ∧
    (∀ d : Decimal, d.scale ≤ 0 →
      ∃ n : Int, (n : ℚ) = d.value ∧ ReadAs d.plain .integer (.integer n)) ∧
    ∀ n : Int, ReadAs (lists.text (.integer n)) .integer (.integer n) := by
  refine ⟨text_decimal lists, fun d hpositive hscale => ?_, fun d hscale => ?_, fun n => ?_⟩
  · obtain ⟨whole, fraction, hform⟩ := plainForm_of_places hpositive
    have hread := ReadAs.of_rewritten (rewritten_places hpositive hscale)
    rw [hform.classify] at hread
    exact ⟨hread, whole, fraction, hform⟩
  · obtain ⟨n, hvalue, hplain⟩ := exists_plain_eq hscale
    rw [hplain]
    exact ⟨n, hvalue, readAs_integer n⟩
  · rw [text_integer]
    exact readAs_integer n

/-- A sign in front of filled up zeros, a zero with places, and places left of the digits. -/
theorem printed_numbers_read_back_hundredths :
    (0 < (2 : Int) ∧ Decimal.isWritableScale 2 = true ∧ (-2 : Int) ≤ 0) ∧
    ReadAs "-0.05" .decimal (.decimal ⟨-5, 2⟩) ∧ ReadAs "0.00" .decimal (.decimal ⟨0, 2⟩) ∧
    ReadAs "1200" .integer (.integer 1200) := by
  obtain ⟨-, places, noPlaces, -⟩ := printed_numbers_read_back Lists.empty
  obtain ⟨n, hvalue, hread⟩ := noPlaces ⟨12, -2⟩ (by decide)
  have hn : n = 1200 := by
    have hcast : (n : ℚ) = 1200 := by
      rw [hvalue]
      norm_num [Decimal.value]
    exact_mod_cast hcast
  have negative : (⟨-5, 2⟩ : Decimal).plain = "-0.05" := by decide
  have zero : (⟨0, 2⟩ : Decimal).plain = "0.00" := by decide
  have large : (⟨12, -2⟩ : Decimal).plain = "1200" := by decide
  rw [large, hn] at hread
  refine ⟨by decide, ?_, ?_, hread⟩
  · rw [← negative]
    exact (places ⟨-5, 2⟩ (by decide) (by decide)).1
  · rw [← zero]
    exact (places ⟨0, 2⟩ (by decide) (by decide)).1

end TinyScript
