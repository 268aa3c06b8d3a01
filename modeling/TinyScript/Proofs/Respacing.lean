import TinyScript.Proofs.Parse.Offsets
import TinyScript.Proofs.Source.Splitting

/-!
# Other blanks between the same words

The words of a text may be written again with other blanks between them, and with blanks where two
of them stood together. Each word is cut off again then: a blank ends it wherever the next word did,
and an open quote, which no blank ends, is in the last word. So splitting finds the same words, and
reading makes the same of them (`respaced_reads_alike`).
-/

namespace TinyScript.Token

/-! ## Words that are cut off again -/

/-- What has been cut off behind an opening quote is cut off again, before anything if something was
left behind it, since then it is closed. -/
theorem cutQuoted_again {quote : Char} (hquote : quote ≠ '\\') {text behind : List Char}
    (h : behind = [] ∨ (cutQuoted quote text).2 ≠ []) :
    cutQuoted quote ((cutQuoted quote text).1 ++ behind) = ((cutQuoted quote text).1, behind) := by
  fun_induction cutQuoted quote text with
  | case1 =>
      obtain rfl := h.resolve_right (not_not_intro rfl)
      rfl
  | case2 letter rest inside after hcut ih =>
      rw [hcut] at ih
      show cutQuoted quote ('\\' :: letter :: (inside ++ behind)) = _
      rw [cutQuoted, ih h]
  | case3 rest notPair =>
      show cutQuoted quote (quote :: behind) = _
      rw [cutQuoted, if_pos rfl]
      rintro _ _ rfl
      exact absurd rfl hquote
  | case4 c rest notPair hother inside after hcut ih =>
      rw [hcut] at ih
      show cutQuoted quote (c :: (inside ++ behind)) = _
      rw [cutQuoted, if_neg hother, ih h]
      -- A backslash here is the last character of the text, so nothing stands behind it.
      rintro letter behind' rfl hbehind
      cases rest with
      | nil =>
          cases hcut
          obtain rfl := h.resolve_right (not_not_intro rfl)
          cases hbehind
      | cons letter rest => exact notPair letter rest rfl rfl

/-- A word is cut off again before a gap if it was not the last of its text, and at the end of a
text in any case. -/
theorem cutWord_again {first : Char} {rest behind : List Char}
    (hblank : Text.isBlank first = false)
    (h : behind = [] ∨ AtGap behind ∧ (cutWord first rest).2 ≠ []) :
    cutWord first ((cutWord first rest).1 ++ behind) = ((cutWord first rest).1, behind) := by
  by_cases hquote : first = '"' ∨ first = '\''
  · have hplain : first ≠ '\\' := by
      rcases hquote with rfl | rfl <;> decide
    rw [cutWord, cutWord, if_pos hquote, if_pos hquote]
    rw [cutWord, if_pos hquote] at h
    exact cutQuoted_again hplain (h.imp id And.right)
  · have hgap : AtGap behind := by
      rcases h with rfl | ⟨hgap, -⟩
      · exact atGap_nil
      · exact hgap
    -- Such a word has no end of a word in it, so any gap ends it.
    obtain ⟨first', rest', hword, -, hcut⟩ := separable_of_not_quote hblank hquote
    rw [String.toList_ofList] at hword
    obtain ⟨rfl, rfl⟩ := List.cons_eq_cons.mp hword
    exact hcut behind hgap

/-! ## Texts of given words -/

/-- What parts two words: a blank or more. -/
structure Gap where
  text : String
  nonempty : text ≠ ""
  blank : text.toList.all Text.isBlank = true

/-- Words with gaps between them. -/
def joined (gap : Nat → Gap) : List String → String
  | [] => ""
  | [word] => word
  | word :: next :: words =>
    word ++ ((gap 0).text ++ joined (fun place => gap (place + 1)) (next :: words))

/-- The blanks of a text: some or none in front of its first word, and a gap between any two. -/
structure Spacing where
  front : String
  blank : front.toList.all Text.isBlank = true
  gap : Nat → Gap

/-- The text that has given words and given blanks. -/
def Spacing.text (spacing : Spacing) (words : List String) : String :=
  spacing.front ++ joined spacing.gap words

/-- A word is found again in front of others that are. -/
theorem splitFrom_joined_cons {first : Char} {rest : List Char} {tokens : List Token}
    (hblank : Text.isBlank first = false) (hlast : tokens ≠ [] → (cutWord first rest).2 ≠ [])
    (hagain : ∀ gap offset, List.Forall₂ Alike
      (splitFrom offset (joined gap (tokens.map Token.text)).toList) tokens)
    (gap : Nat → Gap) (offset place : Nat) :
    List.Forall₂ Alike
      (splitFrom offset (joined gap (String.ofList (first :: (cutWord first rest).1) ::
        tokens.map Token.text)).toList)
      (⟨classify (first :: (cutWord first rest).1),
        String.ofList (first :: (cutWord first rest).1), place⟩ :: tokens) := by
  cases tokens with
  | nil =>
      -- The last word runs to the end of the text, as it did, whether or not a quote is open.
      obtain ⟨offset', hsplit⟩ := splitFrom_word hblank (cutWord_again hblank (.inl rfl)) offset
      rw [List.append_nil, splitFrom] at hsplit
      rw [List.map_nil, joined, String.toList_ofList, hsplit]
      exact .cons ⟨rfl, rfl⟩ .nil
  | cons token tokens =>
      have hne : (gap 0).text.toList ≠ [] := by simpa using (gap 0).nonempty
      have hgap := atGap_blanks hne (gap 0).blank
        (joined (fun place => gap (place + 1)) ((token :: tokens).map Token.text)).toList
      have hcut := cutWord_again hblank (.inr ⟨hgap, hlast (List.cons_ne_nil _ _)⟩)
      obtain ⟨offset', hsplit⟩ := splitFrom_word hblank hcut offset
      obtain ⟨behind, hskip⟩ := splitFrom_blanks (gap 0).blank offset'
        (joined (fun place => gap (place + 1)) ((token :: tokens).map Token.text)).toList
      rw [List.map_cons, joined, String.toList_append, String.toList_append, String.toList_ofList,
        ← List.map_cons, List.cons_append, hsplit, hskip]
      exact .cons ⟨rfl, rfl⟩ (hagain _ behind)

/-- Words that are joined anew are found again. -/
theorem splitFrom_joined (offset : Nat) (text : List Char) (gap : Nat → Gap) (offset' : Nat) :
    List.Forall₂ Alike
      (splitFrom offset' (joined gap ((splitFrom offset text).map Token.text)).toList)
      (splitFrom offset text) := by
  induction offset, text using splitFrom.induct generalizing gap offset'
  case case1 offset => simp [splitFrom, joined]
  case case2 offset c rest hblank ih =>
    rw [splitFrom, if_pos hblank]
    exact ih gap offset'
  case case3 offset c rest hblank word ih =>
    rw [splitFrom, if_neg hblank, List.map_cons]
    refine splitFrom_joined_cons (Bool.eq_false_iff.mpr hblank) (mt fun hrest => ?_) ih _ _ _
    rw [hrest, splitFrom]

/-- Another spacing of a text has the same words, of which the same tree is read or the same error
at the same word. -/
theorem respaced_reads_alike (source : String) (spacing : Spacing) :
    List.Forall₂ Alike (split (spacing.text ((split source).map Token.text))) (split source) ∧
      (Program.parse (split (spacing.text ((split source).map Token.text)))).mapError
          SyntaxError.atWord =
        (Program.parse (split source)).mapError SyntaxError.atWord := by
  have hwords : List.Forall₂ Alike (split (spacing.text ((split source).map Token.text)))
      (split source) := by
    obtain ⟨offset, hskip⟩ := splitFrom_blanks spacing.blank 0
      (joined spacing.gap ((split source).map Token.text)).toList
    rw [Spacing.text, split, String.toList_append, hskip]
    exact splitFrom_joined 0 source.toList spacing.gap offset
  exact ⟨hwords, parse_alike hwords⟩

/-- Quotes within a word, a word right behind a quote, and a quote that is left open. -/
theorem respaced_reads_alike_lines :
    List.Forall₂ Alike (split "\tsay\"hi\"\n (\n \"a \\\" b\"\n 'x'\n ,\n \"open ")
      (split "say\"hi\"(\"a \\\" b\"'x',\"open ") ∧
    (Program.parse (split "\tsay\"hi\"\n (\n \"a \\\" b\"\n 'x'\n ,\n \"open ")).mapError
        SyntaxError.atWord =
      (Program.parse (split "say\"hi\"(\"a \\\" b\"'x',\"open ")).mapError
        SyntaxError.atWord := by
  let line : Gap := ⟨"\n ", by decide, by decide +kernel⟩
  let lines : Spacing := ⟨"\t", by decide +kernel, fun _ => line⟩
  have htext : lines.text ((split "say\"hi\"(\"a \\\" b\"'x',\"open ").map Token.text) =
      "\tsay\"hi\"\n (\n \"a \\\" b\"\n 'x'\n ,\n \"open " := by decide +kernel
  rw [← htext]
  exact respaced_reads_alike _ lines

end TinyScript.Token
