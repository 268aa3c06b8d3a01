import TinyScript.Proofs.Decimal.Displayed
import TinyScript.Proofs.Source.Splitting

/-!
# Written words mean what they were written for

For each kind of word in a program: it can be cut out of a text, and a word with its characters is
again that mark, that reserved word, that name, or denotes that literal. Marks and reserved words
are fixed, so this is computed for them; numbers and quoted words need an argument; names are taken
over from the text that was read.
-/

namespace TinyScript

open Grammar Token

/-! ## Words with given characters -/

/-- A word that has been found in a text, with its characters. -/
def IsWord (word : String) (token : Token) : Prop := token.Classified ∧ token.text = word

theorem IsWord.kind {word : String} {token : Token} (h : IsWord word token) :
    token.kind = classify word.toList := by
  rw [← h.2]
  exact h.1

/-- A word can be cut out of a text, and what is found there is of a kind. -/
structure Rewritten (kind : Token → Prop) (word : String) : Prop where
  separable : Separable word
  found : ∀ {token}, IsWord word token → kind token

/-- Whether a word is plain or a punctuation character. -/
def isFixed (word : List Char) : Bool :=
  isPlain word || punctuation.any fun c => word == [c]

theorem separable_of_isFixed {word : String} (h : isFixed word.toList = true) :
    Separable word := by
  rcases Bool.or_eq_true_iff.mp h with hplain | hmark
  · exact separable_of_isPlain hplain
  · obtain ⟨c, hc, hword⟩ := List.any_eq_true.mp hmark
    exact separable_of_punctuation (eq_of_beq hword) hc

/-- Whether a fixed word is of a kind. -/
def isFixedOf (kind : Token.Kind) (word : String) : Bool :=
  isFixed word.toList && classify word.toList = kind

theorem rewritten_mark {mark : String} (h : isFixedOf .operator mark = true) :
    Rewritten (Mark mark) mark := by
  obtain ⟨hfixed, hkind⟩ := Bool.and_eq_true_iff.mp h
  exact ⟨separable_of_isFixed hfixed, fun h => ⟨h.kind.trans (of_decide_eq_true hkind), h.2⟩⟩

theorem rewritten_reserved {word : String} (h : isFixedOf .identifier word = true) :
    Rewritten (Reserved word) word := by
  obtain ⟨hfixed, hkind⟩ := Bool.and_eq_true_iff.mp h
  refine ⟨separable_of_isFixed hfixed, fun h => ⟨h.kind.trans (of_decide_eq_true hkind), ?_⟩⟩
  rw [h.2]
  exact sameIgnoringCase_refl word

theorem rewritten_symbol (operator : Operator) :
    Rewritten (Mark operator.symbol) operator.symbol := by
  cases operator <;> exact rewritten_mark (by decide)

/-! ## Names -/

/-- A word of a text that has been split: its kind is told by its characters, and a name can be cut
out again. -/
structure Clean (token : Token) : Prop where
  classified : token.Classified
  separable : token.kind = .identifier → Separable token.text

theorem clean_of_mem_split {source : String} {token : Token} (h : token ∈ split source) :
    Clean token :=
  ⟨classified_split source token h, separable_of_mem_split h⟩

theorem rewritten_typeName {name : String} {token : Token} (h : Clean token)
    (htype : TypeName name token) : Rewritten (TypeName name) name := by
  obtain ⟨hkind, rfl⟩ := htype
  exact ⟨h.separable hkind, fun hword => ⟨by rw [hword.kind, ← h.classified, hkind], hword.2⟩⟩

theorem rewritten_name {name : String} {token : Token} (h : Clean token)
    (hname : Name name token) : Rewritten (Name name) name := by
  obtain ⟨hkind, htext, hfree⟩ := hname
  have htype := rewritten_typeName h ⟨hkind, htext⟩
  refine ⟨htype.separable, fun hword => ?_⟩
  obtain ⟨hkind', htext'⟩ := htype.found hword
  exact ⟨hkind', htext', hfree⟩

/-! ## Numbers -/

/-- A character of a written number. -/
def isNumberChar (c : Char) : Bool := c.isDigit || c == '-' || c == '.' || c == 'e'

theorem not_endsWord_of_isNumberChar {c : Char} (h : isNumberChar c = true) :
    endsWord c = false ∧ c ≠ '"' ∧ c ≠ '\'' := by
  have hmark : ∀ {mark : Char}, isNumberChar mark = false → c ≠ mark := by
    rintro mark hmark rfl
    rw [h] at hmark
    cases hmark
  have hblank : Text.isBlank c = false := by
    simp only [isNumberChar, Bool.or_eq_true, beq_iff_eq] at h
    rcases h with ((hdigit | rfl) | rfl) | rfl
    · simp only [Char.isDigit, Bool.and_eq_true, decide_eq_true_eq, ge_iff_le,
        UInt32.le_iff_toNat_le] at hdigit
      -- No blank has the code of a digit.
      have hlow : 48 ≤ c.toNat := hdigit.1
      have hhigh : c.toNat ≤ 57 := hdigit.2
      simp only [Text.isBlank, Text.blankCodes, List.contains_eq_mem, List.mem_cons,
        List.not_mem_nil, or_false, decide_eq_false_iff_not]
      omega
    all_goals decide
  refine ⟨?_, hmark (by decide), hmark (by decide)⟩
  have hpunctuation : punctuation.contains c = false := by
    simp only [punctuation, List.contains_eq_mem, List.mem_cons, List.not_mem_nil,
      decide_eq_false_iff_not, not_or]
    exact ⟨hmark (by decide), hmark (by decide), hmark (by decide), hmark (by decide),
      hmark (by decide), hmark (by decide), hmark (by decide), nofun⟩
  rw [endsWord, hblank, hpunctuation, Bool.or_self]

theorem isPlain_of_isNumberChar {text : List Char} (hne : text ≠ [])
    (h : ∀ c ∈ text, isNumberChar c = true) : isPlain text = true := by
  cases text with
  | nil => exact absurd rfl hne
  | cons first rest =>
      obtain ⟨hfirst, hrest⟩ := List.forall_mem_cons.mp h
      obtain ⟨hends, hstring, hcharacter⟩ := not_endsWord_of_isNumberChar hfirst
      simp only [isPlain, hends, Bool.not_false, Bool.true_and, Bool.and_eq_true, bne_iff_ne,
        List.all_eq_true]
      exact ⟨⟨hstring, hcharacter⟩, fun c hc => by
        rw [(not_endsWord_of_isNumberChar (hrest c hc)).1, Bool.not_false]⟩

theorem isNumberChar_of_mem_integerDigits {n : Int} {c : Char}
    (h : c ∈ Text.integerDigits n) : isNumberChar c = true := by
  rw [Decimal.integerDigits_eq] at h
  rcases List.mem_append.mp h with hsign | hdigit
  · rw [Decimal.mem_signText hsign]
    decide
  · simp [isNumberChar, Text.isDigit_of_mem_digits c hdigit]

theorem integerDigits_ne_nil {n : Int} : Text.integerDigits n ≠ [] := by
  rw [Decimal.integerDigits_eq]
  exact List.append_ne_nil_of_right_ne_nil _ Text.digits_ne_nil

/-- What starts with a digit, or with one behind a sign, is a number. -/
theorem classify_signed {first : Char} (h : first.isDigit = true) (n : Int) (rest : List Char) :
    classify (Decimal.signText n ++ first :: rest) =
      numberKind (Decimal.signText n ++ first :: rest) := by
  have hquote : first ≠ '\'' ∧ first ≠ '"' := by
    constructor <;> rintro rfl <;> exact absurd h (by decide)
  unfold Decimal.signText
  split
  · simp [classify, h]
  · simp [classify, h, hquote]

/-- What starts with the digits of an integer is a number. -/
theorem classify_integerDigits_append (n : Int) (behind : List Char) :
    classify (Text.integerDigits n ++ behind) =
      numberKind (Text.integerDigits n ++ behind) := by
  have hdigit := Text.isDigit_of_mem_digits (n := n.natAbs)
  rw [Decimal.integerDigits_eq, List.append_assoc]
  cases hdigits : Text.digits n.natAbs with
  | nil => exact absurd hdigits Text.digits_ne_nil
  | cons first rest =>
      exact classify_signed (hdigit first (by rw [hdigits]; exact List.mem_cons_self)) n _

theorem point_not_mem_integerDigits (n : Int) : '.' ∉ Text.integerDigits n := by
  rw [Decimal.integerDigits_eq]
  intro h
  rcases List.mem_append.mp h with hsign | hdigit
  · exact absurd (Decimal.mem_signText hsign) (by decide)
  · exact absurd (Text.isDigit_of_mem_digits _ hdigit) (by decide)

theorem classify_integerDigits (n : Int) : classify (Text.integerDigits n) = .integer := by
  have hkind := classify_integerDigits_append n []
  rw [List.append_nil] at hkind
  rw [hkind, numberKind, if_neg (by simpa using point_not_mem_integerDigits n)]

theorem rewritten_integer (n : Int) :
    Rewritten (fun token => Denotes token (.integer n)) (Literal.integer n).word := by
  have hword : (Literal.integer n).word.toList = Text.integerDigits n := String.toList_ofList
  refine ⟨separable_of_isPlain ?_, fun {token} h => .integer ?_ ?_⟩
  · rw [hword]
    exact isPlain_of_isNumberChar integerDigits_ne_nil
      fun c hc => isNumberChar_of_mem_integerDigits hc
  · rw [h.kind, hword, classify_integerDigits]
  · rw [h.2, hword]
    rw [Decimal.integerDigits_eq]
    exact Decimal.readInteger?_signed Text.digits_ne_nil Text.isDigit_of_mem_digits
      (Text.valueOf_digits _)

/-- A decimal is read back from its digits and its scale. -/
theorem Decimal.read?_word {d : Decimal} (h : isWritableScale d.scale = true) :
    read? (Text.integerDigits d.unscaled ++ '.' :: 'e' :: Text.integerDigits (-d.scale)) =
      some d := by
  have hscale := isWritableScale_iff.mp h
  have hexponent : isWritableExponent (-d.scale) = true :=
    isWritableExponent_of_scale (by omega)
  have hbase : readBase? (Text.integerDigits d.unscaled ++ ['.']) = some ⟨d.unscaled, 0⟩ := by
    rw [integerDigits_eq, List.append_assoc]
    refine readBase?_point Text.digits_ne_nil ?_ ?_
    · rw [List.append_nil]
      exact Text.isDigit_of_mem_digits
    · rw [List.append_nil]
      exact Text.valueOf_digits _
  -- No digit stands behind the point, so the scale comes from the exponent alone.
  have hback : (0 : Int) - -d.scale = d.scale := by omega
  have hmark : isExponentMark 'e' = true := by decide
  have hread := read?_of_exponent hmark hbase (readExponent?_integerDigits hexponent)
    (by rw [hback]; exact h)
  rwa [hback, List.append_assoc] at hread

theorem rewritten_decimal {d : Decimal} (h : Decimal.isWritableScale d.scale = true) :
    Rewritten (fun token => Denotes token (.decimal d)) (Literal.decimal d).word := by
  have hword : (Literal.decimal d).word.toList =
      Text.integerDigits d.unscaled ++ '.' :: 'e' :: Text.integerDigits (-d.scale) :=
    String.toList_ofList
  refine ⟨separable_of_isPlain ?_, fun {token} hfound => .decimal ?_ ?_⟩
  · rw [hword]
    refine isPlain_of_isNumberChar (by simp) fun c hc => ?_
    rcases List.mem_append.mp hc with hdigit | hrest
    · exact isNumberChar_of_mem_integerDigits hdigit
    · rcases List.mem_cons.mp hrest with rfl | hrest
      · decide
      · rcases List.mem_cons.mp hrest with rfl | hdigit
        · decide
        · exact isNumberChar_of_mem_integerDigits hdigit
  · rw [hfound.kind, hword, classify_integerDigits_append, numberKind, if_pos (by simp)]
  · rw [hfound.2, hword]
    exact Decimal.read?_word h

/-! ## Quoted words -/

theorem spells_escapeQuoted {quote : Char} (h : quote = '"' ∨ quote = '\'') (text : List Char) :
    Spells (escapeQuoted quote text) text := by
  induction text with
  | nil => exact .nothing
  | cons c text ih =>
      by_cases hescaped : c = quote ∨ c = '\\'
      · have happend : escapeQuoted quote (c :: text) = '\\' :: c :: escapeQuoted quote text := by
          simp [escapeQuoted, hescaped]
        rw [happend]
        refine .escaped ?_ ih
        rcases hescaped with rfl | rfl
        · rcases h with rfl | rfl <;> rfl
        · rfl
      · have happend : escapeQuoted quote (c :: text) = c :: escapeQuoted quote text := by
          simp [escapeQuoted, hescaped]
        rw [happend]
        exact .plain (fun hplain => hescaped (.inr hplain)) ih

theorem quotes_quotedWord {quote : Char} (h : quote = '"' ∨ quote = '\'') (text : List Char) :
    Quotes quote (quotedWord quote text).toList text :=
  ⟨escapeQuoted quote text, String.toList_ofList, spells_escapeQuoted h text⟩

theorem rewritten_character (c : Char) :
    Rewritten (fun token => Denotes token (.character c)) (Literal.character c).word := by
  refine ⟨separable_quotedWord (.inr rfl) [c], fun {token} h => .character ?_ ?_⟩
  · rw [h.kind, Literal.word, quotedWord, String.toList_ofList]
    simp [classify]
  · rw [h.2]
    exact quotes_quotedWord (.inr rfl) [c]

theorem rewritten_string (meant : List Char) :
    Rewritten (fun token => Denotes token (.string (String.ofList meant)))
      (Literal.string (String.ofList meant)).word := by
  refine ⟨separable_quotedWord (.inl rfl) _, fun {token} h => .string ?_ ?_⟩
  · rw [h.kind, Literal.word, quotedWord, String.toList_ofList]
    simp [classify]
  · rw [h.2, Literal.word, String.toList_ofList]
    exact quotes_quotedWord (.inl rfl) meant

/-- The value of a word is written again so that it can be read. -/
theorem rewritten_literal {token : Token} {value : Literal} (h : Denotes token value) :
    Rewritten (fun token => Denotes token value) value.word := by
  cases h with
  | nil =>
      have hword : Rewritten (Reserved "NIL") "NIL" := rewritten_reserved (by decide)
      exact ⟨hword.separable, fun h => .nil (hword.found h)⟩
  | true =>
      have hword : Rewritten (Reserved "TRUE") "TRUE" := rewritten_reserved (by decide)
      exact ⟨hword.separable, fun h => .true (hword.found h)⟩
  | false =>
      have hword : Rewritten (Reserved "FALSE") "FALSE" := rewritten_reserved (by decide)
      exact ⟨hword.separable, fun h => .false (hword.found h)⟩
  | integer => exact rewritten_integer _
  | decimal _ hread => exact rewritten_decimal (Decimal.isWritableScale_of_read? hread)
  | character => exact rewritten_character _
  | string => exact rewritten_string _

end TinyScript
