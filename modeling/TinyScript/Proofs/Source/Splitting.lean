import TinyScript.Proofs.Parse.Words
import TinyScript.Proofs.Source.Rendering

/-!
# Words that are found again

A word is `Separable` if cutting takes exactly it from a text that starts with it and goes on with a
blank or ends behind it. Splitting a text that is made of such words, with blanks between them,
gives these words (`texts_split_joined`). Separable are the words without blanks and punctuation in
them, the punctuation characters, quoted words, and all names of a text that has been split.
-/

namespace TinyScript.Token

/-- A character of a text and some more is one of the text or one of the rest. -/
theorem append_eq_append_cons {text more front behind : List Char} {c : Char}
    (h : text ++ more = front ++ c :: behind) :
    (∃ behind', text = front ++ c :: behind') ∨
      ∃ front', front = text ++ front' ∧ more = front' ++ c :: behind := by
  rcases List.append_eq_append_iff.mp h with ⟨front', rfl, hmore⟩ | ⟨behind', rfl, hmore⟩
  · exact .inr ⟨front', rfl, hmore⟩
  · cases behind' with
    | nil => exact .inr ⟨[], by simp, by simpa using hmore.symm⟩
    | cons d behind' =>
        obtain ⟨rfl, -⟩ := List.cons_eq_cons.mp hmore
        exact .inl ⟨behind', rfl⟩

theorem byteSize_eq (text : List Char) : byteSize text = (String.ofList text).utf8ByteSize := by
  induction text with
  | nil => rfl
  | cons c text ih =>
      rw [byteSize, ih, ← List.singleton_append, String.ofList_append, String.utf8ByteSize_append]
      simp

theorem stop_mk (kind : Kind) (word : List Char) (offset : Nat) :
    stop ⟨kind, String.ofList word, offset⟩ = offset + byteSize word := by
  rw [stop, byteSize_eq]

/-- A text that is at its end or goes on with a blank. -/
def AtGap (text : List Char) : Prop := ∀ c ∈ text.head?, Text.isBlank c = true

theorem atGap_nil : AtGap [] := nofun

theorem atGap_blanks {blanks : List Char} (hne : blanks ≠ [])
    (h : blanks.all Text.isBlank = true) (text : List Char) : AtGap (blanks ++ text) := by
  intro c hc
  obtain ⟨blank, blanks, rfl⟩ := List.exists_cons_of_ne_nil hne
  cases hc
  exact List.all_eq_true.mp h _ List.mem_cons_self

/-- A word that is cut off whole wherever there is a gap behind it. -/
def Separable (word : String) : Prop :=
  ∃ first rest, word.toList = first :: rest ∧ Text.isBlank first = false ∧
    ∀ behind, AtGap behind → cutWord first (rest ++ behind) = (rest, behind)

/-! ## Separable words -/

/-- Whether a word starts like an unquoted one and has no end of a word in it. -/
def isPlain : List Char → Bool
  | [] => false
  | first :: rest =>
    !endsWord first && first != '"' && first != '\'' && rest.all (!endsWord ·)

theorem separable_of_isPlain {word : String} (h : isPlain word.toList = true) :
    Separable word := by
  unfold isPlain at h
  split at h
  · cases h
  · next first rest hword =>
      simp only [Bool.and_eq_true, bne_iff_ne, ne_eq, Bool.not_eq_true', endsWord,
        Bool.or_eq_false_iff] at h
      obtain ⟨⟨⟨⟨hblank, hmark⟩, hstring⟩, hcharacter⟩, hrest⟩ := h
      refine ⟨first, rest, hword, hblank, fun behind hgap => ?_⟩
      -- The gap ends the word where it ends, so nothing is taken of what is behind.
      have hbehind : behind.takeWhile (!endsWord ·) = [] ∧
          behind.dropWhile (!endsWord ·) = behind := by
        cases behind with
        | nil => exact ⟨rfl, rfl⟩
        | cons c behind =>
            have hc : endsWord c = true := by simp [endsWord, hgap c rfl]
            simp [hc]
      have hall : ∀ c ∈ rest, (!endsWord c) = true := by
        intro c hc
        simpa [endsWord] using List.all_eq_true.mp hrest c hc
      rw [cutWord, if_neg (not_or.mpr ⟨hstring, hcharacter⟩), if_neg (Bool.eq_false_iff.mp hmark),
        List.takeWhile_append_of_pos hall, List.dropWhile_append_of_pos hall, hbehind.1, hbehind.2,
        List.append_nil]

section Punctuation

variable {c : Char} (h : c ∈ punctuation)

include h

theorem not_isBlank_of_punctuation : Text.isBlank c = false := by
  have hall : punctuation.all (!Text.isBlank ·) = true := by decide
  simpa using List.all_eq_true.mp hall c h

theorem classify_punctuation : classify [c] = .operator := by
  have hall : punctuation.all (fun c => classify [c] == .operator) = true := by decide
  exact eq_of_beq (List.all_eq_true.mp hall c h)

/-- Nothing behind a punctuation character belongs to the word that it is. -/
theorem cutWord_punctuation (rest : List Char) : cutWord c rest = ([], rest) := by
  have hquote : ¬ (c = '"' ∨ c = '\'') := by
    rintro (rfl | rfl) <;> exact absurd h (by decide)
  rw [cutWord, if_neg hquote, if_pos (List.contains_iff_mem.mpr h)]

end Punctuation

theorem separable_of_punctuation {word : String} {c : Char} (hword : word.toList = [c])
    (h : c ∈ punctuation) : Separable word := by
  refine ⟨c, [], hword, not_isBlank_of_punctuation h, fun behind _ => ?_⟩
  rw [cutWord_punctuation h, List.nil_append]

/-- The closing quote is the first that stands alone. -/
theorem cutQuoted_escapeQuoted {quote : Char} (hquote : quote ≠ '\\') (text behind : List Char) :
    cutQuoted quote (escapeQuoted quote text ++ quote :: behind) =
      (escapeQuoted quote text ++ [quote], behind) := by
  induction text with
  | nil =>
      show cutQuoted quote (quote :: behind) = ([quote], behind)
      rw [cutQuoted, if_pos rfl]
      rintro _ _ rfl
      exact absurd rfl hquote
  | cons c text ih =>
      by_cases hescaped : c = quote ∨ c = '\\'
      · have happend : escapeQuoted quote (c :: text) = '\\' :: c :: escapeQuoted quote text := by
          simp [escapeQuoted, hescaped]
        rw [happend, List.cons_append, List.cons_append, cutQuoted, ih]
        rfl
      · have happend : escapeQuoted quote (c :: text) = c :: escapeQuoted quote text := by
          simp [escapeQuoted, hescaped]
        obtain ⟨hother, hplain⟩ := not_or.mp hescaped
        rw [happend, List.cons_append, cutQuoted, if_neg hother, ih]
        · rfl
        · rintro _ _ rfl
          exact absurd rfl hplain

theorem separable_quotedWord {quote : Char} (h : quote = '"' ∨ quote = '\'') (text : List Char) :
    Separable (quotedWord quote text) := by
  have hplain : quote ≠ '\\' := by
    rcases h with rfl | rfl <;> decide
  refine ⟨quote, escapeQuoted quote text ++ [quote], String.toList_ofList, ?_, ?_⟩
  · rcases h with rfl | rfl <;> decide
  · intro behind _
    rw [cutWord, if_pos h, List.append_assoc]
    exact cutQuoted_escapeQuoted hplain text behind

/-- An identifier does not start with a quote. -/
theorem not_quote_of_identifier {first : Char} {rest : List Char}
    (h : classify (first :: rest) = .identifier) : ¬ (first = '"' ∨ first = '\'') := by
  rintro (rfl | rfl) <;> simp [classify] at h

/-- A word without a quote in front was cut off up to the first end of a word, so it has none in
it. -/
theorem separable_of_not_quote {first : Char} {rest : List Char}
    (hblank : Text.isBlank first = false) (hquote : ¬ (first = '"' ∨ first = '\'')) :
    Separable (String.ofList (first :: (cutWord first rest).1)) := by
  by_cases hmark : first ∈ punctuation
  · refine separable_of_punctuation ?_ hmark
    rw [cutWord_punctuation hmark, String.toList_ofList]
  · have hcut : (cutWord first rest).1 = rest.takeWhile (!endsWord ·) := by
      rw [cutWord, if_neg hquote, if_neg (by simpa using hmark)]
    have hends : endsWord first = false := by simp [endsWord, hblank, hmark]
    obtain ⟨hstring, hcharacter⟩ := not_or.mp hquote
    apply separable_of_isPlain
    rw [String.toList_ofList, hcut]
    simp only [isPlain, hends, Bool.not_false, Bool.true_and, Bool.and_eq_true, bne_iff_ne,
      List.all_eq_true]
    exact ⟨⟨hstring, hcharacter⟩, fun d => @List.mem_takeWhile_imp _ (!endsWord ·) rest d⟩

/-- A name of a text can be cut out of another text. -/
theorem separable_of_mem_split {source : String} {token : Token} (hmem : token ∈ split source)
    (hkind : token.kind = .identifier) : Separable token.text := by
  obtain ⟨_, first, rest, -, hblank, rfl⟩ := exists_of_mem_splitFrom hmem
  exact separable_of_not_quote hblank (not_quote_of_identifier hkind)

/-! ## Splitting what has been joined -/

theorem splitFrom_blanks {blanks : List Char} (h : blanks.all Text.isBlank = true) (offset : Nat)
    (text : List Char) :
    ∃ offset', splitFrom offset (blanks ++ text) = splitFrom offset' text := by
  induction blanks generalizing offset with
  | nil => exact ⟨offset, rfl⟩
  | cons blank blanks ih =>
      obtain ⟨hblank, hblanks⟩ := (Bool.and_eq_true ..).mp (List.all_cons ▸ h)
      obtain ⟨offset', hsplit⟩ := ih hblanks (offset + blank.utf8Size)
      rw [List.cons_append, splitFrom, if_pos hblank]
      exact ⟨offset', hsplit⟩

/-- A word that is cut off whole is the first of those that are found. -/
theorem splitFrom_word {first : Char} {rest behind : List Char}
    (hblank : Text.isBlank first = false) (hcut : cutWord first (rest ++ behind) = (rest, behind))
    (offset : Nat) : ∃ offset', splitFrom offset (first :: (rest ++ behind)) =
      ⟨classify (first :: rest), String.ofList (first :: rest), offset⟩ ::
        splitFrom offset' behind := by
  rw [splitFrom, if_neg (Bool.eq_false_iff.mp hblank), hcut]
  exact ⟨_, rfl⟩

theorem splitFrom_separable {word : String} (h : Separable word) (offset : Nat)
    {behind : List Char} (hgap : AtGap behind) :
    ∃ offset', splitFrom offset (word.toList ++ behind) =
      ⟨classify word.toList, word, offset⟩ :: splitFrom offset' behind := by
  obtain ⟨first, rest, hword, hblank, hcut⟩ := h
  obtain ⟨offset', hsplit⟩ := splitFrom_word hblank (hcut behind hgap) offset
  rw [← List.cons_append, ← hword, String.ofList_toList] at hsplit
  exact ⟨offset', hsplit⟩

/-- A separable word is the only word of its text. -/
theorem split_separable {word : String} (h : Separable word) :
    split word = [⟨classify word.toList, word, 0⟩] := by
  obtain ⟨offset', hsplit⟩ := splitFrom_separable h 0 atGap_nil
  rw [List.append_nil, splitFrom] at hsplit
  exact hsplit

theorem texts_splitFrom_joined {words : List String} (h : ∀ word ∈ words, Separable word) :
    ∀ offset, (splitFrom offset ([' '].intercalate (words.map String.toList))).map Token.text =
      words := by
  induction words with
  | nil =>
      intro offset
      simp [splitFrom]
  | cons word words ih =>
      intro offset
      obtain ⟨hword, hwords⟩ := List.forall_mem_cons.mp h
      cases words with
      | nil =>
          obtain ⟨offset', hsplit⟩ := splitFrom_separable hword offset atGap_nil
          rw [List.append_nil] at hsplit
          simp [hsplit, splitFrom]
      | cons next words =>
          have hgap : [' '].all Text.isBlank = true := by decide
          obtain ⟨offset', hsplit⟩ := splitFrom_separable hword offset
            (atGap_blanks (by simp) hgap ([' '].intercalate ((next :: words).map String.toList)))
          obtain ⟨offset'', hblank⟩ := splitFrom_blanks hgap offset'
            ([' '].intercalate ((next :: words).map String.toList))
          rw [List.map_cons, List.map_cons, List.intercalate_cons_cons, List.append_assoc,
            ← List.map_cons, hsplit, hblank, List.map_cons, ih hwords]

/-- Separable words that are joined by blanks are the words of the text. -/
theorem texts_split_joined {words : List String} (h : ∀ word ∈ words, Separable word) :
    (split (String.ofList ([' '].intercalate (words.map String.toList)))).map Token.text =
      words := by
  rw [split, String.toList_ofList]
  exact texts_splitFrom_joined h 0

end TinyScript.Token
