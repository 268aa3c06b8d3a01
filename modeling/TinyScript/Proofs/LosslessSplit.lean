import TinyScript.Proofs.Source.Splitting

/-!
# Splitting loses nothing

The words of a text lie in it one behind the other, each with its own bytes at its own offset, and
between them there is nothing but blanks. `Layout` says so in characters, of the part of a text that
has been cut up; it holds of a blank, of a word that has been cut off and of what is put together
from such parts (`Layout.append`), and so of the whole text in the end. `Lossless` is what it comes
to in bytes.

The words are found in turns, each of which takes a character at least, so that there are no more
turns than characters (`Scan.turns_end`). Both together are `split_ends_lossless`.
-/

namespace TinyScript.Token

/-! ## Offsets -/

theorem byteSize_pos {text : List Char} (h : text ≠ []) : 0 < byteSize text := by
  cases text with
  | nil => exact absurd rfl h
  | cons c text => exact Nat.add_pos_left c.utf8Size_pos _

/-- The byte at an offset belongs to a word. -/
def Covers (token : Token) (place : Nat) : Prop := token.offset ≤ place ∧ place < token.stop

/-- A word in quotes. -/
def IsQuoted (token : Token) : Prop := token.kind = .string ∨ token.kind = .character

/-- A word further behind. -/
def moved (distance : Nat) (token : Token) : Token :=
  { token with offset := distance + token.offset }

theorem stop_moved (distance : Nat) (token : Token) :
    (token.moved distance).stop = distance + token.stop := Nat.add_assoc ..

theorem Covers.moved {token : Token} {place : Nat} (h : token.Covers place) (distance : Nat) :
    (token.moved distance).Covers (distance + place) :=
  ⟨Nat.add_le_add_left h.1 distance,
    (stop_moved distance token).symm ▸ Nat.add_lt_add_left h.2 distance⟩

/-! ## Words in a text -/

/-- How the words of a text lie in it. -/
structure Layout (text : List Char) (tokens : List Token) : Prop where
  placed : ∀ token ∈ tokens, ∃ front word behind, text = front ++ (word ++ behind) ∧ word ≠ [] ∧
    token.text = String.ofList word ∧ token.offset = byteSize front
  ordered : tokens.Pairwise (·.stop ≤ ·.offset)
  covered : ∀ front c behind, text = front ++ c :: behind → Text.isBlank c = false →
    ∃ token ∈ tokens, token.Covers (byteSize front)
  marks : ∀ front c behind, text = front ++ c :: behind → c ∈ punctuation →
    (∃ token ∈ tokens, token.IsQuoted ∧ token.Covers (byteSize front)) ∨
      ⟨.operator, String.ofList [c], byteSize front⟩ ∈ tokens

namespace Layout

variable {text more : List Char} {tokens tokens' : List Token}

theorem stop_le (h : Layout text tokens) {token : Token} (hmem : token ∈ tokens) :
    token.stop ≤ byteSize text := by
  obtain ⟨front, word, behind, rfl, -, htext, hoffset⟩ := h.placed token hmem
  rw [stop, htext, hoffset, ← byteSize_eq, byteSize_append, byteSize_append]
  omega

/-- Two texts that have been cut up are one such text. -/
theorem append (h : Layout text tokens) (h' : Layout more tokens') :
    Layout (text ++ more) (tokens ++ tokens'.map (moved (byteSize text))) where
  placed token hmem := by
    rcases List.mem_append.mp hmem with hmem | hmem
    · obtain ⟨front, word, behind, rfl, hword⟩ := h.placed token hmem
      exact ⟨front, word, behind ++ more, by simp, hword⟩
    · obtain ⟨token, hmore, rfl⟩ := List.mem_map.mp hmem
      obtain ⟨front, word, behind, rfl, hne, htext, hoffset⟩ := h'.placed token hmore
      refine ⟨text ++ front, word, behind, by simp, hne, htext, ?_⟩
      rw [byteSize_append, ← hoffset]
      rfl
  ordered := by
    refine List.pairwise_append.mpr ⟨h.ordered, ?_, ?_⟩
    · refine List.pairwise_map.mpr (h'.ordered.imp fun {first second} hle => ?_)
      rw [stop_moved]
      exact Nat.add_le_add_left hle _
    · intro first hfirst second hsecond
      obtain ⟨second, -, rfl⟩ := List.mem_map.mp hsecond
      exact Nat.le_add_right_of_le (h.stop_le hfirst)
  covered front c behind hsplit hc := by
    rcases append_eq_append_cons hsplit with ⟨behind', htext⟩ | ⟨front', rfl, hmore⟩
    · obtain ⟨token, hmem, hcovers⟩ := h.covered front c behind' htext hc
      exact ⟨token, List.mem_append_left _ hmem, hcovers⟩
    · obtain ⟨token, hmem, hcovers⟩ := h'.covered front' c behind hmore hc
      rw [byteSize_append]
      exact ⟨_, List.mem_append_right _ (List.mem_map_of_mem hmem), hcovers.moved _⟩
  marks front c behind hsplit hc := by
    rcases append_eq_append_cons hsplit with ⟨behind', htext⟩ | ⟨front', rfl, hmore⟩
    · refine (h.marks front c behind' htext hc).imp ?_ (List.mem_append_left _)
      rintro ⟨token, hmem, hcovers⟩
      exact ⟨token, List.mem_append_left _ hmem, hcovers⟩
    · rw [byteSize_append]
      rcases h'.marks front' c behind hmore hc with ⟨token, hmem, hquoted, hcovers⟩ | hmem
      · exact .inl ⟨_, List.mem_append_right _ (List.mem_map_of_mem hmem), hquoted,
          hcovers.moved _⟩
      · exact .inr (List.mem_append_right _ (List.mem_map_of_mem hmem))

theorem empty : Layout [] [] where
  placed := nofun
  ordered := .nil
  covered _ _ _ h := absurd h (by simp)
  marks _ _ _ h := absurd h (by simp)

/-- A blank has no words. -/
theorem blank {c : Char} (hblank : Text.isBlank c = true) : Layout [c] [] := by
  have hchar : ∀ front d behind, [c] = front ++ d :: behind → Text.isBlank d = true := by
    intro front d behind hsplit
    have hmem : d ∈ [c] := hsplit ▸ List.mem_append_right _ List.mem_cons_self
    rwa [List.mem_singleton.mp hmem]
  exact {
    placed := nofun
    ordered := .nil
    covered := fun front d behind hsplit hd =>
      absurd (hchar front d behind hsplit) (Bool.eq_false_iff.mp hd)
    marks := fun front d behind hsplit hd =>
      absurd (hchar front d behind hsplit) (Bool.eq_false_iff.mp (not_isBlank_of_punctuation hd)) }

/-- Behind the first character of a word there is punctuation only in quotes. -/
theorem quote_of_mem_cutWord {first c : Char} {rest : List Char} (hmem : c ∈ (cutWord first rest).1)
    (hmark : c ∈ punctuation) : first = '"' ∨ first = '\'' := by
  by_contra hquote
  rw [cutWord, if_neg hquote] at hmem
  split at hmem
  · cases hmem
  · have hends := List.mem_takeWhile_imp hmem
    simp [endsWord, hmark] at hends

theorem isQuoted_of_quote {first : Char} (h : first = '"' ∨ first = '\'') (rest : List Char)
    (text : String) (offset : Nat) : IsQuoted ⟨classify (first :: rest), text, offset⟩ := by
  rcases h with rfl | rfl
  · exact .inl rfl
  · exact .inr rfl

/-- A word that is cut off takes up what has been cut off. -/
theorem word (first : Char) (rest : List Char) :
    Layout (first :: (cutWord first rest).1)
      [⟨classify (first :: (cutWord first rest).1), String.ofList (first :: (cutWord first rest).1),
        0⟩] := by
  have hcovers : ∀ front c behind, first :: (cutWord first rest).1 = front ++ c :: behind →
      Covers ⟨classify (first :: (cutWord first rest).1),
        String.ofList (first :: (cutWord first rest).1), 0⟩ (byteSize front) := by
    intro front c behind hsplit
    refine ⟨Nat.zero_le _, ?_⟩
    rw [stop_mk, hsplit, byteSize_append]
    have hpos := byteSize_pos (List.cons_ne_nil c behind)
    omega
  refine { placed := ?_, ordered := List.pairwise_singleton _ _, covered := ?_, marks := ?_ }
  · intro token hmem
    obtain rfl := List.mem_singleton.mp hmem
    exact ⟨[], _, [], by simp, List.cons_ne_nil _ _, rfl, rfl⟩
  · intro front c behind hsplit _
    exact ⟨_, List.mem_singleton_self _, hcovers front c behind hsplit⟩
  · intro front c behind hsplit hmark
    cases front with
    | nil =>
        -- A word that starts with a punctuation character is that character.
        obtain ⟨rfl, -⟩ := List.cons_eq_cons.mp hsplit
        refine .inr (List.mem_singleton.mpr ?_)
        rw [cutWord_punctuation hmark, classify_punctuation hmark]
        rfl
    | cons d front =>
        obtain ⟨rfl, hrest⟩ := List.cons_eq_cons.mp hsplit
        have hmem : c ∈ (cutWord first rest).1 := by
          rw [hrest]
          exact List.mem_append_right _ List.mem_cons_self
        have hquote := quote_of_mem_cutWord hmem hmark
        exact .inl ⟨_, List.mem_singleton_self _, isQuoted_of_quote hquote _ _ _,
          hcovers _ c behind hsplit⟩

end Layout

/-- The words of a text are laid out behind those of what stands before it. -/
theorem layout_splitFrom {front : List Char} {tokens : List Token} (h : Layout front tokens)
    (text : List Char) :
    Layout (front ++ text) (tokens ++ splitFrom (byteSize front) text) := by
  generalize hoffset : byteSize front = offset
  induction offset, text using splitFrom.induct generalizing front tokens
  case case1 offset => simpa [splitFrom] using h
  case case2 offset c rest hblank ih =>
    have hnext : Layout (front ++ [c]) tokens := by
      simpa using h.append (.blank hblank)
    have hsize : byteSize (front ++ [c]) = offset + c.utf8Size := by
      rw [byteSize_append, hoffset]
      rfl
    rw [splitFrom, if_pos hblank, List.append_cons]
    exact ih hnext hsize
  case case3 offset c rest hblank word ih =>
    have hnext : Layout (front ++ word)
        (tokens ++ [⟨classify word, String.ofList word, offset⟩]) := by
      rw [← hoffset]
      exact h.append (.word c rest)
    have hsize : byteSize (front ++ word) = offset + byteSize word := by
      rw [byteSize_append, hoffset]
    have hwhole : front ++ c :: rest = front ++ word ++ (cutWord c rest).2 := by
      rw [List.append_assoc, List.cons_append, cutWord_append]
    rw [splitFrom, if_neg hblank, hwhole, List.append_cons tokens]
    exact ih hnext hsize

theorem layout_split (source : String) : Layout source.toList (split source) :=
  layout_splitFrom .empty source.toList

/-! ## The same in bytes -/

/-- A character stands at a byte offset of a text. -/
def StandsAt (source : String) (place : Nat) (c : Char) : Prop :=
  ∃ front behind, source = front ++ (String.singleton c ++ behind) ∧ place = front.utf8ByteSize

/-- Nothing of a text is lost: its words are its bytes from their offsets to their ends, which lie
between characters and in order. A character outside all words is a blank, any other is in exactly
one word, and a punctuation character is a word by itself if it is not in a quoted one. -/
structure Lossless (source : String) (tokens : List Token) : Prop where
  nonempty : ∀ token ∈ tokens, token.text ≠ ""
  bytes : ∀ token ∈ tokens,
    source.toByteArray.extract token.offset token.stop = token.text.toByteArray
  boundaries : ∀ token ∈ tokens,
    String.Pos.Raw.IsValid source ⟨token.offset⟩ ∧ String.Pos.Raw.IsValid source ⟨token.stop⟩
  ordered : tokens.Pairwise (·.stop ≤ ·.offset)
  blankOutside : ∀ place c, StandsAt source place c → (∀ token ∈ tokens, ¬ token.Covers place) →
    Text.isBlank c = true
  once : ∀ place c, StandsAt source place c → Text.isBlank c = false →
    ∃! token, token ∈ tokens ∧ token.Covers place
  marks : ∀ place c, StandsAt source place c → c ∈ punctuation →
    (∃ token ∈ tokens, token.IsQuoted ∧ token.Covers place) ∨
      ⟨.operator, String.singleton c, place⟩ ∈ tokens

theorem StandsAt.toList {source : String} {place : Nat} {c : Char} (h : StandsAt source place c) :
    ∃ front behind, source.toList = front ++ c :: behind ∧ place = byteSize front := by
  obtain ⟨front, behind, rfl, rfl⟩ := h
  refine ⟨front.toList, behind.toList, by simp, ?_⟩
  rw [byteSize_eq, String.ofList_toList]

/-- Words that lie one behind the other have no byte in common. -/
theorem eq_of_covers {tokens : List Token} (hordered : tokens.Pairwise (·.stop ≤ ·.offset))
    {first second : Token} (hfirst : first ∈ tokens) (hsecond : second ∈ tokens) {place : Nat}
    (h : first.Covers place) (h' : second.Covers place) : first = second := by
  obtain ⟨hstart, hstop⟩ := h
  obtain ⟨hstart', hstop'⟩ := h'
  induction hordered with
  | nil => cases hfirst
  | cons hhead _ ih =>
      rcases List.mem_cons.mp hfirst with rfl | hfirst <;>
        rcases List.mem_cons.mp hsecond with rfl | hsecond
      · rfl
      · have := hhead second hsecond
        omega
      · have := hhead _ ‹_›
        omega
      · exact ih hfirst hsecond

namespace Layout

variable {source : String} {tokens : List Token}

/-- A word splits the text that it lies in. -/
theorem eq_append (h : Layout source.toList tokens) {token : Token} (hmem : token ∈ tokens) :
    ∃ front behind, source = front ++ (token.text ++ behind) ∧
      token.offset = front.utf8ByteSize ∧ token.text ≠ "" := by
  obtain ⟨front, word, behind, hsource, hne, htext, hoffset⟩ := h.placed token hmem
  refine ⟨String.ofList front, String.ofList behind, ?_, ?_, ?_⟩
  · rw [htext, ← String.ofList_append, ← String.ofList_append, ← hsource, String.ofList_toList]
  · rw [hoffset, byteSize_eq]
  · rw [htext]
    simpa using hne

theorem lossless (h : Layout source.toList tokens) : Lossless source tokens where
  nonempty token hmem := by
    obtain ⟨_, _, -, -, hne⟩ := h.eq_append hmem
    exact hne
  bytes token hmem := by
    obtain ⟨front, behind, rfl, hoffset, -⟩ := h.eq_append hmem
    have hbehind : (front ++ (token.text ++ behind)).toByteArray.extract
        (front.toByteArray.size + 0) (front.toByteArray.size + token.text.toByteArray.size) =
          (token.text.toByteArray ++ behind.toByteArray).extract 0 token.text.toByteArray.size :=
      ByteArray.extract_append_size_add
    rw [stop, hoffset]
    exact hbehind.trans (ByteArray.extract_append_eq_left rfl)
  boundaries token hmem := by
    obtain ⟨front, behind, hsource, hoffset, -⟩ := h.eq_append hmem
    constructor
    · exact String.Pos.Raw.isValid_iff_exists_append.mpr
        ⟨front, token.text ++ behind, hsource, by rw [hoffset]; rfl⟩
    · refine String.Pos.Raw.isValid_iff_exists_append.mpr
        ⟨front ++ token.text, behind, by rw [hsource, String.append_assoc], ?_⟩
      rw [stop, hoffset, ← String.utf8ByteSize_append]
      rfl
  ordered := h.ordered
  blankOutside place c hstands hout := by
    obtain ⟨front, behind, hsource, rfl⟩ := hstands.toList
    by_contra hblank
    obtain ⟨token, hmem, hcovers⟩ := h.covered front c behind hsource (Bool.eq_false_iff.mpr hblank)
    exact hout token hmem hcovers
  once place c hstands hblank := by
    obtain ⟨front, behind, hsource, rfl⟩ := hstands.toList
    obtain ⟨token, hmem, hcovers⟩ := h.covered front c behind hsource hblank
    refine ⟨token, ⟨hmem, hcovers⟩, ?_⟩
    rintro other ⟨hother, hcovers'⟩
    exact eq_of_covers h.ordered hother hmem hcovers' hcovers
  marks place c hstands hmark := by
    obtain ⟨front, behind, hsource, rfl⟩ := hstands.toList
    rw [String.singleton_eq_ofList]
    exact h.marks front c behind hsource hmark

end Layout

/-! ## Turns -/

/-- How far the search for words has come: the offset there, the characters that are left, and the
words that have been found. -/
structure Scan where
  offset : Nat
  rest : List Char
  found : List Token

namespace Scan

/-- The start of a text. -/
def start (source : String) : Scan := ⟨0, source.toList, []⟩

/-- One turn passes over a blank or takes a word. At the end of the text nothing happens. -/
def turn (scan : Scan) : Scan :=
  match scan.rest with
  | [] => scan
  | c :: rest =>
    if Text.isBlank c then ⟨scan.offset + c.utf8Size, rest, scan.found⟩
    else
      let word := c :: (cutWord c rest).1
      ⟨scan.offset + byteSize word, (cutWord c rest).2,
        scan.found ++ [⟨classify word, String.ofList word, scan.offset⟩]⟩

/-- The words that have been found and those that are still to be found. -/
def words (scan : Scan) : List Token := scan.found ++ splitFrom scan.offset scan.rest

/-- The offset of the end of the text. -/
def stop (scan : Scan) : Nat := scan.offset + byteSize scan.rest

variable {scan : Scan}

theorem length_turn_lt (h : scan.rest ≠ []) : scan.turn.rest.length < scan.rest.length := by
  obtain ⟨c, rest, hrest⟩ := List.exists_cons_of_ne_nil h
  rw [turn, hrest]
  dsimp only
  split
  · simp
  · exact Nat.lt_succ_of_le (length_cutWord_le c rest)

theorem words_turn (scan : Scan) : scan.turn.words = scan.words := by
  unfold turn
  split
  · rfl
  · next c rest hrest =>
      split
      · next hblank => rw [words, words, hrest, splitFrom, if_pos hblank]
      · next hblank => simp [words, hrest, splitFrom, hblank]

theorem stop_turn (scan : Scan) : scan.turn.stop = scan.stop := by
  unfold turn
  split
  · rfl
  · next c rest hrest =>
      split
      · simp [stop, hrest, byteSize, Nat.add_assoc]
      · rw [stop, stop, hrest, Nat.add_assoc, ← byteSize_append, List.cons_append, cutWord_append]

/-- Every turn takes a character at least, so the search comes to its end. -/
theorem turns_end (scan : Scan) :
    ∃ turns ≤ scan.rest.length, turn^[turns] scan = ⟨scan.stop, [], scan.words⟩ := by
  induction hlength : scan.rest.length using Nat.strong_induction_on generalizing scan with
  | h length ih =>
      by_cases hrest : scan.rest = []
      · refine ⟨0, Nat.zero_le _, ?_⟩
        obtain ⟨offset, rest, found⟩ := scan
        obtain rfl : rest = [] := hrest
        simp [stop, words, byteSize, splitFrom]
      · have hlt := length_turn_lt hrest
        obtain ⟨turns, hturns, hend⟩ := ih _ (hlength ▸ hlt) scan.turn rfl
        refine ⟨turns + 1, by omega, ?_⟩
        rw [Function.iterate_succ_apply, hend, words_turn, stop_turn]

end Scan

/-- Splitting comes to its end on every text, in no more turns than the text has characters, and
loses nothing of it. -/
theorem split_ends_lossless (source : String) :
    Lossless source (split source) ∧ ∃ turns ≤ source.length,
      Scan.turn^[turns] (.start source) = ⟨source.utf8ByteSize, [], split source⟩ := by
  refine ⟨(layout_split source).lossless, ?_⟩
  obtain ⟨turns, hturns, hend⟩ := (Scan.start source).turns_end
  refine ⟨turns, source.length_toList ▸ hturns, hend.trans ?_⟩
  simp [Scan.stop, Scan.words, Scan.start, byteSize_eq, split]

/-- Quotes within a word, characters of several bytes, and a backslash at the end of an open
quote. -/
example : split "é\"x\" (\"é\\" =
    [⟨.identifier, "é\"x\"", 0⟩, ⟨.operator, "(", 6⟩, ⟨.string, "\"é\\", 7⟩] := by
  decide +kernel

end TinyScript.Token
