import Mathlib
import TinyScript.Proofs.Parse.Grammar
import TinyScript.Proofs.Sequencing
import TinyScript.Token.Split

/-!
# Words as readers test them

A reader tests the word at its cursor against a literal. Where every word has the kind that its
characters tell (`Token.Classified`), as the words of a text do, the test finds exactly the reserved
words and marks of the grammar, and a word decodes to a value exactly if it denotes it.
-/

namespace TinyScript

namespace Token

/-! ## The kind of a word -/

/-- The kind of a word is the one that its characters tell. -/
def Classified (token : Token) : Prop := token.kind = classify token.text.toList

instance (token : Token) : Decidable token.Classified :=
  inferInstanceAs (Decidable (token.kind = classify token.text.toList))

/-- Words that all have the kinds that their characters tell. -/
abbrev AllClassified (tokens : List Token) : Prop := ∀ token ∈ tokens, token.Classified

theorem AllClassified.append {front behind : List Token} :
    AllClassified (front ++ behind) ↔ AllClassified front ∧ AllClassified behind :=
  List.forall_mem_append

/-- The words of a text have the kinds that their characters tell. -/
theorem classified_split (source : String) : AllClassified (split source) := by
  intro token hmem
  obtain ⟨_, first, rest, -, -, rfl⟩ := exists_of_mem_splitFrom hmem
  rw [Classified, String.toList_ofList]

/-! ### Case and kind -/

/-- Only letters have another case. -/
theorem toLower_eq_or_isAlpha (c : Char) :
    c.toLower = c ∨ c.isAlpha = true ∧ c.toLower.isAlpha = true := by
  by_cases upper : c.isUpper = true
  · have letter : c.isAlpha = true := by rw [Char.isAlpha, upper, Bool.true_or]
    exact .inr ⟨letter, by rw [Char.isAlpha_toLower_eq_isAlpha, letter]⟩
  · exact .inl (Char.toLower_eq_of_not_isUpper upper)

theorem not_isDigit_of_isAlpha {c : Char} (letter : c.isAlpha = true) : c.isDigit = false := by
  simp [Char.isAlpha, Char.isUpper, Char.isLower, Char.isDigit, UInt32.le_iff_toNat_le] at *
  omega

/-- What starts with an ASCII letter is an identifier. -/
theorem classify_of_isAlpha {c : Char} {rest : List Char} (letter : c.isAlpha = true) :
    classify (c :: rest) = .identifier := by
  have notMark : ∀ mark : Char, mark.isAlpha = false → c ≠ mark := by
    rintro mark hmark rfl
    rw [letter] at hmark
    cases hmark
  have alphabetic := Text.isAlphabetic_of_isAlpha letter
  simp [classify, notMark '\'' rfl, notMark '"' rfl, notMark '-' rfl, notMark '+' rfl,
    not_isDigit_of_isAlpha letter, alphabetic]

theorem isDigit_toLower (c : Char) : c.toLower.isDigit = c.isDigit := by
  rcases toLower_eq_or_isAlpha c with same | ⟨letter, lowered⟩
  · rw [same]
  · rw [not_isDigit_of_isAlpha letter, not_isDigit_of_isAlpha lowered]

theorem contains_map_toLower {mark : Char} (hmark : mark.isAlpha = false) (text : List Char) :
    (text.map Char.toLower).contains mark = text.contains mark := by
  induction text with
  | nil => rfl
  | cons c rest ih =>
      rw [List.map_cons, List.contains_cons, List.contains_cons, ih]
      rcases toLower_eq_or_isAlpha c with same | ⟨letter, lowered⟩
      · rw [same]
      · have other : ∀ d : Char, d.isAlpha = true → (mark == d) = false := by
          rintro d hd
          refine beq_false_of_ne ?_
          rintro rfl
          rw [hd] at hmark
          cases hmark
        rw [other c letter, other c.toLower lowered]

/-- The case of letters is no matter of the kind. -/
theorem classify_map_toLower (text : List Char) :
    classify (text.map Char.toLower) = classify text := by
  cases text with
  | nil => rfl
  | cons c rest =>
      rw [List.map_cons]
      rcases toLower_eq_or_isAlpha c with same | ⟨letter, lowered⟩
      · have digit : (rest.map Char.toLower).head?.any Char.isDigit =
            rest.head?.any Char.isDigit := by
          cases rest with
          | nil => rfl
          | cons d rest => exact isDigit_toLower d
        have point : (rest.map Char.toLower).contains '.' = rest.contains '.' :=
          contains_map_toLower rfl rest
        rw [same]
        simp only [classify, numberKind, List.contains_cons, point, digit]
      · rw [classify_of_isAlpha letter, classify_of_isAlpha lowered]

theorem classify_of_sameIgnoringCase {left right : String}
    (same : sameIgnoringCase left right = true) :
    classify left.toList = classify right.toList := by
  rw [← classify_map_toLower left.toList, ← classify_map_toLower right.toList,
    eq_of_beq same]

end Token

/-! ## Tests -/

section Tests

open Grammar

variable {token : Token}

/-- Where a literal is no identifier, the test finds marks. -/
theorem Token.Classified.isLiteral_mark (h : token.Classified) {mark : String}
    (hmark : Token.classify mark.toList = .operator) :
    token.isLiteral mark = true ↔ Mark mark token := by
  unfold Token.isLiteral Mark
  split
  · next hkind =>
      constructor
      · intro same
        rw [h, Token.classify_of_sameIgnoringCase same, hmark] at hkind
        cases hkind
      · rintro ⟨hkind', -⟩
        rw [hkind] at hkind'
        cases hkind'
  · constructor
    · intro same
      have same := eq_of_beq same
      refine ⟨?_, same⟩
      rw [h, same, hmark]
    · rintro ⟨-, rfl⟩
      exact beq_self_eq_true _

/-- Where a literal is an identifier, the test finds that reserved word. -/
theorem Token.Classified.isLiteral_reserved (h : token.Classified) {word : String}
    (hword : Token.classify word.toList = .identifier) :
    token.isLiteral word = true ↔ Reserved word token := by
  unfold Token.isLiteral Reserved
  split
  · next hkind => exact ⟨fun same => ⟨hkind, same⟩, fun same => same.2⟩
  · next hkind =>
      refine ⟨fun same => absurd ?_ hkind, fun same => absurd same.1 hkind⟩
      rw [h, eq_of_beq same, hword]

theorem isName_iff : token.isName = true ↔ Name token.text token := by
  simp [Token.isName, Name, Token.isReserved]

end Tests

/-! ## Literals -/

namespace Grammar

theorem resolveEscapes_eq_ok {inside meant : List Char} :
    Text.resolveEscapes inside = .ok meant ↔ Spells inside meant := by
  constructor
  · intro resolved
    fun_induction Text.resolveEscapes inside generalizing meant with
    | case1 =>
        cases resolved
        exact .nothing
    | case2 => cases resolved
    | case3 letter rest hvalue => cases resolved
    | case4 letter rest c hvalue ih =>
        obtain ⟨front, hfront, rfl⟩ := Except.map_eq_ok.mp resolved
        exact .escaped hvalue (ih hfront)
    | case5 c rest notDangling notEscape ih =>
        obtain ⟨front, hfront, rfl⟩ := Except.map_eq_ok.mp resolved
        refine .plain ?_ (ih hfront)
        rintro rfl
        cases rest with
        | nil => exact notDangling rfl rfl
        | cons letter rest => exact notEscape letter rest rfl rfl
  · intro spelled
    induction spelled with
    | nothing => rfl
    | plain hplain _ ih =>
        rw [Text.resolveEscapes, ih]
        · rfl
        · rintro rfl
          exact absurd rfl hplain
        · rintro letter rest rfl
          exact absurd rfl hplain
    | escaped hvalue _ ih =>
        rw [Text.resolveEscapes, hvalue, ih]
        rfl

theorem stripQuotes?_eq_some {quote : Char} {literal inside : List Char} :
    Text.stripQuotes? quote literal = some inside ↔ literal = quote :: (inside ++ [quote]) := by
  cases literal with
  | nil => simp [Text.stripQuotes?]
  | cons first rest =>
      simp only [Text.stripQuotes?]
      constructor
      · intro stripped
        split at stripped
        · next quoted =>
            obtain ⟨rfl, behind⟩ := quoted
            obtain ⟨front, rfl⟩ := List.getLast?_eq_some_iff.mp behind
            cases stripped
            rw [List.dropLast_concat]
        · cases stripped
      · intro quoted
        cases quoted
        simp

theorem unquote_eq_ok {quote : Char} {literal meant : List Char} :
    Text.unquote quote literal = .ok meant ↔ Quotes quote literal meant := by
  unfold Text.unquote Quotes
  constructor
  · intro unquoted
    split at unquoted
    · cases unquoted
    · next inside hinside =>
        exact ⟨inside, stripQuotes?_eq_some.mp hinside, resolveEscapes_eq_ok.mp unquoted⟩
  · rintro ⟨inside, hinside, spelled⟩
    rw [stripQuotes?_eq_some.mpr hinside]
    exact resolveEscapes_eq_ok.mpr spelled

theorem readCharacter_eq_ok {literal : List Char} {c : Char} :
    Text.readCharacter literal = .ok c ↔ Quotes '\'' literal [c] := by
  rw [← unquote_eq_ok]
  unfold Text.readCharacter
  split
  · next fault hfault => simp [hfault]
  · next d hd => simp [hd]
  · next meant hmany hmeant =>
      simp only [reduceCtorEq, false_iff]
      intro single
      rw [hmeant] at single
      cases single
      exact hmany c rfl

/-- Where a word is no identifier, it decodes exactly to what it denotes. -/
theorem literalOf_eq_ok {token : Token} {value : Literal} (hkind : token.kind ≠ .identifier) :
    Parser.literalOf token = .ok value ↔ Denotes token value := by
  constructor
  · intro decoded
    simp only [Parser.literalOf] at decoded
    split at decoded
    · next kind =>
        split at decoded
        · next n read =>
            cases decoded
            exact .integer kind read
        · cases decoded
    · next kind =>
        split at decoded
        · next d read =>
            cases decoded
            exact .decimal kind read
        · cases decoded
    · next kind =>
        obtain ⟨c, read, rfl⟩ := Except.map_eq_ok.mp (Except.mapError_eq_ok.mp decoded)
        exact .character kind (readCharacter_eq_ok.mp read)
    · next kind =>
        obtain ⟨text, read, rfl⟩ := Except.map_eq_ok.mp (Except.mapError_eq_ok.mp decoded)
        rw [Text.readString] at read
        obtain ⟨meant, unquoted, rfl⟩ := Except.map_eq_ok.mp read
        exact .string kind (unquote_eq_ok.mp unquoted)
    · cases decoded
    · cases decoded
  · intro denoted
    unfold Parser.literalOf
    cases denoted with
    | nil word => exact absurd word.1 hkind
    | true word => exact absurd word.1 hkind
    | false word => exact absurd word.1 hkind
    | integer kind read => simp only [kind, read]
    | decimal kind read => simp only [kind, read]
    | character kind quotes =>
        simp only [kind, readCharacter_eq_ok.mpr quotes]
        rfl
    | string kind quotes =>
        simp only [kind, Text.readString, unquote_eq_ok.mpr quotes]
        rfl

/-! ## Operators -/

theorem symbol_of_ofSymbol? {operator : Operator} {text : String}
    (found : Operator.ofSymbol? text = some operator) : operator.symbol = text := by
  unfold Operator.ofSymbol? at found
  have same := List.find?_some found
  exact eq_of_beq same

theorem operator?_eq_some {level : Operator.Level} {operator : Operator} {token : Token} :
    level.operator? token = some operator ↔
      operator ∈ level.operators ∧ Mark operator.symbol token := by
  unfold Operator.Level.operator? Mark
  split
  · next kind =>
      rw [Option.filter_eq_some_iff, List.contains_iff_mem, and_comm]
      refine and_congr_right fun _ => ⟨fun found => ⟨kind, ?_⟩, fun mark => ?_⟩
      · exact (symbol_of_ofSymbol? found).symm
      · rw [mark.2, Operator.ofSymbol?_symbol]
  · next kind => simp [kind]

end Grammar

end TinyScript
