import TinyScript.Proofs.Parse.Words

/-!
# The language of quoted literals

Between its quotes a literal is a sequence of pieces: characters other than the backslash, which
mean themselves, and the seven escapes. Decoding accepts exactly the sequences of pieces between two
quotes, and gives the meanings of the pieces one behind the other (`decodes_exactly_pieces`). So a
text in which every character that has an escape is written as that escape decodes to itself.
-/

namespace TinyScript.Text

open Grammar

/-! ## Escapes -/

/-- The escapes. -/
inductive Escape where
  | backspace
  | lineFeed
  | carriageReturn
  | tab
  | apostrophe
  | quotationMark
  | backslash
deriving DecidableEq, Repr

namespace Escape

/-- Every escape. -/
def all : List Escape :=
  [backspace, lineFeed, carriageReturn, tab, apostrophe, quotationMark, backslash]

/-- The letter that an escape has behind its backslash. -/
def letter : Escape → Char
  | backspace => 'b'
  | lineFeed => 'n'
  | carriageReturn => 'r'
  | tab => 't'
  | apostrophe => '\''
  | quotationMark => '"'
  | backslash => '\\'

/-- The character that an escape means. -/
def meaning : Escape → Char
  | backspace => '\x08'
  | lineFeed => '\n'
  | carriageReturn => '\r'
  | tab => '\t'
  | apostrophe => '\''
  | quotationMark => '"'
  | backslash => '\\'

/-- The escape that means a character. -/
def of? (c : Char) : Option Escape := all.find? fun escape => escape.meaning = c

theorem meaning_of_of? {c : Char} {escape : Escape} (h : of? c = some escape) :
    escape.meaning = c := by
  simpa using List.find?_some h

/-- The backslash has an escape. -/
theorem ne_backslash_of_of? {c : Char} (h : of? c = none) : c ≠ '\\' := by
  rintro rfl
  simp [of?, all, meaning] at h

theorem escapeValue?_letter (escape : Escape) :
    escapeValue? escape.letter = some escape.meaning := by
  cases escape <;> rfl

/-- A letter has a value behind a backslash only as the letter of an escape. -/
theorem exists_of_escapeValue? {letter c : Char} (h : escapeValue? letter = some c) :
    ∃ escape : Escape, escape.letter = letter ∧ escape.meaning = c := by
  unfold escapeValue? at h
  split_ifs at h with hb hn hr ht ha hq hs <;> cases h
  · exact ⟨backspace, hb.symm, rfl⟩
  · exact ⟨lineFeed, hn.symm, rfl⟩
  · exact ⟨carriageReturn, hr.symm, rfl⟩
  · exact ⟨tab, ht.symm, rfl⟩
  · exact ⟨apostrophe, ha.symm, rfl⟩
  · exact ⟨quotationMark, hq.symm, rfl⟩
  · exact ⟨backslash, hs.symm, rfl⟩

end Escape

/-- Writes every character that has an escape as that escape. -/
def escaped (text : List Char) : List Char :=
  text.flatMap fun c =>
    match Escape.of? c with
    | some escape => ['\\', escape.letter]
    | none => [c]

theorem spells_escaped (text : List Char) : Spells (escaped text) text := by
  induction text with
  | nil => exact .nothing
  | cons c text ih =>
      unfold escaped at ih ⊢
      rw [List.flatMap_cons]
      cases hescape : Escape.of? c with
      | none => exact .plain (Escape.ne_backslash_of_of? hescape) ih
      | some escape =>
          refine .escaped ?_ ih
          rw [escape.escapeValue?_letter, Escape.meaning_of_of? hescape]

/-! ## Pieces -/

/-- What can stand between quotes and mean one character. -/
inductive Piece where
  | plain (c : Char) (hplain : c ≠ '\\')
  | ofEscape (escape : Escape)

namespace Piece

/-- A piece as it is written. -/
def text : Piece → List Char
  | plain c _ => [c]
  | ofEscape escape => ['\\', escape.letter]

/-- The character that a piece means. -/
def meaning : Piece → Char
  | plain c _ => c
  | ofEscape escape => escape.meaning

end Piece

/-- What stands between quotes is written in pieces, of which each means one character. -/
theorem spells_iff_pieces {inside meant : List Char} :
    Spells inside meant ↔
      ∃ pieces : List Piece, inside = pieces.flatMap Piece.text ∧
        meant = pieces.map Piece.meaning := by
  constructor
  · intro h
    induction h with
    | nothing => exact ⟨[], rfl, rfl⟩
    | plain hplain _ ih =>
        obtain ⟨pieces, rfl, rfl⟩ := ih
        exact ⟨.plain _ hplain :: pieces, rfl, rfl⟩
    | escaped hvalue _ ih =>
        obtain ⟨pieces, rfl, rfl⟩ := ih
        obtain ⟨escape, rfl, rfl⟩ := Escape.exists_of_escapeValue? hvalue
        exact ⟨.ofEscape escape :: pieces, rfl, rfl⟩
  · rintro ⟨pieces, rfl, rfl⟩
    induction pieces with
    | nil => exact .nothing
    | cons piece pieces ih =>
        cases piece with
        | plain c hplain => exact .plain hplain ih
        | ofEscape escape => exact .escaped escape.escapeValue?_letter ih

/-! ## Literals -/

/-- Characters between quotes. -/
def enclosed (quote : Char) (inside : List Char) : List Char := quote :: (inside ++ [quote])

/-- A literal has its two quotes and nothing but pieces between them. -/
structure IsMadeOf (quote : Char) (literal : List Char) (pieces : List Piece) : Prop where
  long : 2 ≤ literal.length
  starts : literal.head? = some quote
  ends : literal.getLast? = some quote
  between : literal.tail.dropLast = pieces.flatMap Piece.text

theorem isMadeOf_iff {quote : Char} {literal : List Char} {pieces : List Piece} :
    IsMadeOf quote literal pieces ↔ literal = enclosed quote (pieces.flatMap Piece.text) := by
  constructor
  · rintro ⟨hlong, hstarts, hends, hbetween⟩
    obtain ⟨rest, rfl⟩ := List.head?_eq_some_iff.mp hstarts
    have hrest : rest ≠ [] := by
      rintro rfl
      simp at hlong
    rw [List.getLast?_cons_of_ne_nil hrest] at hends
    obtain ⟨inside, rfl⟩ := List.getLast?_eq_some_iff.mp hends
    rw [List.tail_cons, List.dropLast_concat] at hbetween
    rw [enclosed, hbetween]
  · rintro rfl
    unfold enclosed
    exact ⟨by simp, rfl, by rw [← List.cons_append, List.getLast?_concat], by simp⟩

theorem quotes_iff_isMadeOf {quote : Char} {literal meant : List Char} :
    Quotes quote literal meant ↔
      ∃ pieces, IsMadeOf quote literal pieces ∧ pieces.map Piece.meaning = meant := by
  constructor
  · rintro ⟨inside, hliteral, hspells⟩
    obtain ⟨pieces, rfl, rfl⟩ := spells_iff_pieces.mp hspells
    exact ⟨pieces, isMadeOf_iff.mpr hliteral, rfl⟩
  · rintro ⟨pieces, hmade, rfl⟩
    exact ⟨_, isMadeOf_iff.mp hmade, spells_iff_pieces.mpr ⟨pieces, rfl, rfl⟩⟩

theorem readString_eq_ok {literal : List Char} {s : String} :
    readString literal = .ok s ↔ ∃ meant, Quotes '"' literal meant ∧ String.ofList meant = s := by
  simp only [readString, Except.map_eq_ok, unquote_eq_ok]

theorem quotes_enclosed_escaped (quote : Char) (text : List Char) :
    Quotes quote (enclosed quote (escaped text)) text :=
  ⟨escaped text, rfl, spells_escaped text⟩

/-- Literals of strings and characters decode to what has been escaped between their quotes. A
literal decodes exactly if it has its two quotes and nothing but pieces between them, and then it
means what the pieces mean, one behind the other; that of a character has one piece. -/
theorem decodes_exactly_pieces :
    (∀ s : String, readString (enclosed '"' (escaped s.toList)) = .ok s) ∧
      (∀ c : Char, readCharacter (enclosed '\'' (escaped [c])) = .ok c) ∧
      (∀ literal meant, readString literal = .ok meant ↔
        ∃ pieces, IsMadeOf '"' literal pieces ∧
          String.ofList (pieces.map Piece.meaning) = meant) ∧
      ∀ literal c, readCharacter literal = .ok c ↔
        ∃ pieces, IsMadeOf '\'' literal pieces ∧ pieces.map Piece.meaning = [c] := by
  refine ⟨fun s => ?_, fun c => ?_, fun literal meant => ?_, fun literal c => ?_⟩
  · exact readString_eq_ok.mpr ⟨_, quotes_enclosed_escaped '"' s.toList, String.ofList_toList⟩
  · exact readCharacter_eq_ok.mpr (quotes_enclosed_escaped '\'' [c])
  · rw [readString_eq_ok]
    constructor
    · rintro ⟨_, hquotes, rfl⟩
      obtain ⟨pieces, hmade, rfl⟩ := quotes_iff_isMadeOf.mp hquotes
      exact ⟨pieces, hmade, rfl⟩
    · rintro ⟨pieces, hmade, rfl⟩
      exact ⟨_, quotes_iff_isMadeOf.mpr ⟨pieces, hmade, rfl⟩, rfl⟩
  · rw [readCharacter_eq_ok, quotes_iff_isMadeOf]

/-- A quote alone is not both the first and the last one of a literal. -/
example : readString ['"'] = .error .unterminated := by decide

end TinyScript.Text
