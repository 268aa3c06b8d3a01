import TinyScript.Proofs.Parse.Completion

/-!
# Syntax errors stand at the earliest word

A program that cannot be read is refused at the first word with which no program goes on: the words
before it start a program, and all words that agree up to it are refused with the same error
(`parse_error_earliest`). The first part is that what has been taken can be completed
(`Parser.Viable.program`), the second that nothing behind the word is looked at
(`Parser.Local.program`).
-/

namespace TinyScript

variable {tokens used rest behind : List Token}

theorem parse_of_ending {outcome : Except SyntaxError.Cause Program}
    (h : Parser.program (Cursor.start tokens) = ((Cursor.start tokens).past used).ending outcome) :
    Program.parse tokens = outcome.mapError ((Cursor.start tokens).past used).error := by
  unfold Program.parse Parser.run
  rw [h]
  cases outcome <;> rfl

/-- The place of an error depends on the number of words before it and the word at it. -/
theorem error_past (used rest behind : List Token) (token : Token) (cause : SyntaxError.Cause) :
    ((Cursor.start (used ++ token :: rest)).past used).error cause =
      ((Cursor.start (used ++ token :: behind)).past used).error cause := by
  have hplace : ∀ rest, ((Cursor.start (used ++ token :: rest)).past used).error cause =
      ⟨cause, used.length, token.offset⟩ := by
    intro rest
    have hsplit : (Cursor.start (used ++ token :: rest)).rest = used ++ token :: rest := rfl
    rw [Cursor.error, Cursor.offset, Cursor.index_past hsplit, Cursor.rest_past hsplit]
    simp [Cursor.start]
  rw [hplace, hplace]

/-- Words that cannot be read have been taken up to the place of the error, where nothing behind the
word there is looked at. -/
theorem parse_error_cases {error : SyntaxError} (h : Program.parse tokens = .error error) :
    ∃ used rest cause, tokens = used ++ rest ∧
      error = ((Cursor.start tokens).past used).error cause ∧
      Parser.Resumes Parser.program Parser.Nothing used rest (.error cause) ∧
      ∀ behind, behind.head? = rest.head? → Program.parse (used ++ behind) =
        .error (((Cursor.start (used ++ behind)).past used).error cause) := by
  have hshort : (Cursor.start tokens).remaining < tokens.length + 1 := Nat.lt_succ_self _
  obtain ⟨used, rest, outcome, hsplit, hran, _, hresumes⟩ :=
    Parser.Viable.program.resumable (Cursor.start tokens) hshort
  have hparse := parse_of_ending hran
  cases outcome with
  | ok program => exact absurd (hparse.symm.trans h) nofun
  | error cause =>
      refine ⟨used, rest, cause, hsplit, ?_, hresumes, fun behind hhead => ?_⟩
      · exact Except.error.inj (h.symm.trans hparse)
      -- Both descriptions of the reader are about the same run, so about the same words taken.
      obtain ⟨used', rest', outcome, hsplit', hran', _, hother⟩ :=
        (show Parser.Local false _ ((used ++ behind).length + 1) _ _ from Parser.Local.program)
          (Cursor.start tokens) hshort
      obtain ⟨rfl, rfl, rfl⟩ := Cursor.ending_past_inj hsplit hsplit' (hran.symm.trans hran')
      exact parse_of_ending
        (hother (Cursor.start (used ++ behind)) behind rfl (Nat.lt_succ_self _) hhead)

/-- There is a program that goes on from what has been taken, if only from the start. -/
theorem exists_parse_append {cause : SyntaxError.Cause}
    (h : Parser.Resumes Parser.program Parser.Nothing used rest (.error cause)) :
    ∃ continuation program, Program.parse (used ++ continuation) = .ok program := by
  have hparse : ∀ {words : List Token} {program : Program},
      Parser.program (Cursor.start words) = .ok program ((Cursor.start words).past words) →
        Program.parse words = .ok program := fun {words program} hran =>
    parse_of_ending (show _ = ((Cursor.start words).past words).ending (.ok program) from hran)
  cases used with
  | nil =>
      -- Nothing has been taken: any program will do.
      obtain ⟨program, words, _, hran⟩ :=
        (show Parser.Viable false 0 Parser.program _ _ from Parser.Viable.program).opens
      exact ⟨words, program, hparse (hran _ [] (List.append_nil words).symm rfl)⟩
  | cons token used =>
      obtain ⟨more, program, hmore⟩ := h (List.cons_ne_nil _ _)
      have hrest : (Cursor.start (token :: used ++ more)).rest = token :: used ++ (more ++ []) := by
        rw [List.append_nil]
        rfl
      exact ⟨more, program, hparse (hmore _ [] hrest rfl)⟩

/-- The words before an error start a program. If the error stands at a word, all words that agree
up to that one give the same error. -/
theorem parse_error_earliest {error : SyntaxError} (h : Program.parse tokens = .error error) :
    error.index ≤ tokens.length ∧
      (∃ continuation program,
        Program.parse (tokens.take error.index ++ continuation) = .ok program) ∧
      (error.index < tokens.length → ∀ other : List Token,
        other.take (error.index + 1) = tokens.take (error.index + 1) →
          Program.parse other = .error error) := by
  obtain ⟨used, rest, cause, rfl, herror, hresumes, hlocal⟩ := parse_error_cases h
  have hindex : error.index = used.length := by
    rw [herror]
    exact (Cursor.index_past rfl).trans (Nat.zero_add _)
  rw [hindex]
  refine ⟨by simp, ?_, fun hword other hagrees => ?_⟩
  · rw [List.take_left]
    exact exists_parse_append hresumes
  · cases rest with
    | nil => simp at hword
    | cons token rest =>
        have hother : other = used ++ token :: other.drop (used.length + 1) := by
          conv_lhs => rw [← List.take_append_drop (used.length + 1) other, hagrees]
          simp [List.take_append]
        rw [hother, hlocal (token :: other.drop (used.length + 1)) rfl, herror]
        exact congrArg Except.error (error_past ..)

/-- The words of a program with a comma before a closing parenthesis. -/
def trailingComma : List Token :=
  ["FUN", "f", "(", ")", "DO", "g", "(", "1", ",", ")", ";", "END"].map Token.plain

theorem parse_error_earliest_trailingComma :
    Program.parse trailingComma = .error ⟨.trailingComma ")", 9, 0⟩ ∧
      (∃ continuation program,
        Program.parse (trailingComma.take 9 ++ continuation) = .ok program) ∧
      ∀ other : List Token, other.take 10 = trailingComma.take 10 →
        Program.parse other = .error ⟨.trailingComma ")", 9, 0⟩ := by
  have hparse : Program.parse trailingComma = .error ⟨.trailingComma ")", 9, 0⟩ := by rfl
  obtain ⟨_, hviable, hsame⟩ := parse_error_earliest hparse
  exact ⟨hparse, hviable, hsame (by decide)⟩

end TinyScript
