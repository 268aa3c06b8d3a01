import TinyScript.Text.Blank
import TinyScript.Token

/-!
# Cutting text into words

Words are separated by blanks and by the punctuation characters, each of which is a word by
itself; every other operator has to stand between blanks. A quoted word runs from its quote to the
next one that no backslash precedes, blanks included, or to the end of the text.
-/

namespace TinyScript.Token

/-- The characters that are words by themselves wherever they stand outside quotes. -/
def punctuation : List Char := ['(', ')', '[', ']', ',', ';', ':']

/-- Whether a character ends an unquoted word. -/
def endsWord (c : Char) : Bool := Text.isBlank c || punctuation.contains c

/-- Cuts what follows an opening quote after the closing one. A backslash takes the character
behind it along, so an escaped quote closes nothing. -/
def cutQuoted (quote : Char) : List Char → List Char × List Char
  | [] => ([], [])
  | '\\' :: escaped :: rest =>
    let (inside, after) := cutQuoted quote rest
    ('\\' :: escaped :: inside, after)
  | c :: rest =>
    if c = quote then ([c], rest)
    else
      let (inside, after) := cutQuoted quote rest
      (c :: inside, after)

/-- Cuts what follows the first character of a word into the rest of that word and the text
behind it. -/
def cutWord (first : Char) (rest : List Char) : List Char × List Char :=
  if first = '"' ∨ first = '\'' then cutQuoted first rest
  else if punctuation.contains first then ([], rest)
  else (rest.takeWhile (!endsWord ·), rest.dropWhile (!endsWord ·))

theorem cutQuoted_append (quote : Char) (text : List Char) :
    (cutQuoted quote text).1 ++ (cutQuoted quote text).2 = text := by
  fun_induction cutQuoted quote text <;> simp_all

/-- Cutting a word loses no character. -/
theorem cutWord_append (first : Char) (rest : List Char) :
    (cutWord first rest).1 ++ (cutWord first rest).2 = rest := by
  unfold cutWord
  split
  · exact cutQuoted_append first rest
  · split <;> simp

theorem length_cutWord_le (first : Char) (rest : List Char) :
    (cutWord first rest).2.length ≤ rest.length := by
  have whole := congrArg List.length (cutWord_append first rest)
  rw [List.length_append] at whole
  omega

/-- The number of bytes that characters take. -/
def byteSize : List Char → Nat
  | [] => 0
  | c :: text => c.utf8Size + byteSize text

theorem byteSize_append (front behind : List Char) :
    byteSize (front ++ behind) = byteSize front + byteSize behind := by
  induction front with
  | nil => simp [byteSize]
  | cons c front ih => simp [byteSize, ih, Nat.add_assoc]

/-- The words of the text from a given offset on. -/
def splitFrom (offset : Nat) : List Char → List Token
  | [] => []
  | c :: rest =>
    if Text.isBlank c then splitFrom (offset + c.utf8Size) rest
    else
      let word := c :: (cutWord c rest).1
      { kind := classify word, text := String.ofList word, offset := offset } ::
        splitFrom (offset + byteSize word) (cutWord c rest).2
termination_by text => text.length
decreasing_by
  · simp
  · have := length_cutWord_le c rest
    simp only [List.length_cons]
    omega

/-- A word of a text is cut off where it starts in the text. -/
theorem exists_of_mem_splitFrom {token : Token} {offset : Nat} {text : List Char}
    (hmem : token ∈ splitFrom offset text) : ∃ front first rest,
      text = front ++ first :: rest ∧ Text.isBlank first = false ∧
        token = ⟨classify (first :: (cutWord first rest).1),
          String.ofList (first :: (cutWord first rest).1), offset + byteSize front⟩ := by
  induction offset, text using splitFrom.induct
  case case1 offset => simp [splitFrom] at hmem
  case case2 offset c rest hblank ih =>
    rw [splitFrom, if_pos hblank] at hmem
    obtain ⟨front, first, rest, rfl, hfirst, rfl⟩ := ih hmem
    exact ⟨c :: front, first, rest, rfl, hfirst, by simp [byteSize, Nat.add_assoc]⟩
  case case3 offset c rest hblank word ih =>
    rw [splitFrom, if_neg hblank] at hmem
    rcases List.mem_cons.mp hmem with rfl | hmem
    · exact ⟨[], c, rest, rfl, Bool.eq_false_iff.mpr hblank, rfl⟩
    · obtain ⟨front, first, rest', hrest, hfirst, rfl⟩ := ih hmem
      refine ⟨word ++ front, first, rest', ?_, hfirst, ?_⟩
      · rw [List.append_assoc, ← hrest, List.cons_append, cutWord_append]
      · rw [byteSize_append, Nat.add_assoc]

/-- The words of a text. -/
def split (source : String) : List Token := splitFrom 0 source.toList

end TinyScript.Token
