import TinyScript.Proofs.Source.Splitting

/-!
# Where a quoted literal ends

Two readers look for the end of a quoted literal. Splitting goes from the opening quote to the
closing one and takes what is behind a backslash along; decoding takes a quote off either end and
only then pairs backslashes with what is behind them. Both find the same end, which is told without
either of them: a quote closes the literal if the run of backslashes before it is of even length
(`escapesNext`).

So the faults of decoding tell how the literal has been cut off (`decodes_as_cut`): it is
unterminated or has a dangling backslash only if the text ended inside it.
-/

namespace TinyScript.Token

open Grammar Text

/-! ## Runs of backslashes -/

/-- Whether what stands behind some characters is escaped: the run of backslashes at their end is of
odd length. -/
def escapesNext (front : List Char) : Bool :=
  (front.reverse.takeWhile (· == '\\')).length % 2 == 1

theorem escapesNext_nil : escapesNext [] = false := rfl

theorem escapesNext_concat (front : List Char) (c : Char) :
    escapesNext (front ++ [c]) = (c == '\\' && !escapesNext front) := by
  rw [escapesNext, escapesNext, List.reverse_append, List.reverse_singleton, List.singleton_append,
    List.takeWhile_cons]
  by_cases hbackslash : c = '\\'
  · subst hbackslash
    simp only [beq_self_eq_true, if_true, List.length_cons, Bool.true_and]
    generalize (front.reverse.takeWhile (· == '\\')).length = run
    rw [Bool.eq_iff_iff]
    simp
    omega
  · simp [hbackslash]

/-- Where nothing is left to be escaped, what is behind is as at the start. -/
theorem escapesNext_append {front : List Char} (hfront : escapesNext front = false)
    (behind : List Char) : escapesNext (front ++ behind) = escapesNext behind := by
  induction behind using List.reverseRecOn with
  | nil => rw [List.append_nil, hfront, escapesNext_nil]
  | append_singleton behind c ih =>
      rw [← List.append_assoc, escapesNext_concat, escapesNext_concat, ih]

theorem escapesNext_plain {c : Char} (h : c ≠ '\\') : escapesNext [c] = false := by
  simp [escapesNext, h]

theorem escapesNext_pair (letter : Char) : escapesNext ['\\', letter] = false := by
  by_cases hbackslash : letter = '\\'
  · subst hbackslash
    rfl
  · simp [escapesNext, hbackslash]

/-! ## Ends of literals -/

/-- No quote stands by itself in what is behind an opening quote. -/
def Unclosed (quote : Char) (inside : List Char) : Prop :=
  ∀ front behind, inside = front ++ quote :: behind → escapesNext front = true

/-- The first quote that stands by itself is the end of what is behind an opening quote. -/
structure ClosedBehind (quote : Char) (inside body : List Char) : Prop where
  closed : inside = body ++ [quote]
  alone : escapesNext body = false
  first : Unclosed quote body

/-- A backslash that is not escaped itself escapes a letter that it gives no meaning. -/
def HasFaultyEscape (letter : Char) (inside : List Char) : Prop :=
  ∃ front behind, inside = front ++ '\\' :: letter :: behind ∧ escapesNext front = false ∧
    escapeValue? letter = none

variable {quote letter c : Char} {inside body text front meant : List Char}

theorem unclosed_nil : Unclosed quote [] := fun _ _ h => absurd h (by simp)

theorem unclosed_singleton (h : c ≠ quote) : Unclosed quote [c] := by
  intro front behind hsplit
  have hmem : quote ∈ [c] := hsplit ▸ List.mem_append_right _ List.mem_cons_self
  exact absurd (List.mem_singleton.mp hmem).symm h

theorem unclosed_pair (hquote : quote ≠ '\\') (letter : Char) : Unclosed quote ['\\', letter] := by
  intro front behind hsplit
  match front with
  | [] => exact absurd (List.cons_eq_cons.mp hsplit).1.symm hquote
  | [d] =>
      obtain ⟨rfl, -⟩ := List.cons_eq_cons.mp hsplit
      rfl
  | d :: e :: front => exact absurd hsplit (by simp)

theorem Unclosed.append (h : Unclosed quote front) (hfront : escapesNext front = false)
    (h' : Unclosed quote text) : Unclosed quote (front ++ text) := by
  intro before after hsplit
  rcases append_eq_append_cons hsplit with ⟨after', hinside⟩ | ⟨before', rfl, hinside⟩
  · exact h before after' hinside
  · rw [escapesNext_append hfront]
    exact h' before' after hinside

theorem Unclosed.closedBehind (h : Unclosed quote front) (hfront : escapesNext front = false)
    (h' : ClosedBehind quote text body) : ClosedBehind quote (front ++ text) (front ++ body) where
  closed := by rw [h'.closed, List.append_assoc]
  alone := (escapesNext_append hfront body).trans h'.alone
  first := h.append hfront h'.first

theorem HasFaultyEscape.behind (h : HasFaultyEscape letter text)
    (hfront : escapesNext front = false) : HasFaultyEscape letter (front ++ text) := by
  obtain ⟨before, after, rfl, hbefore, hletter⟩ := h
  exact ⟨front ++ before, after, by simp, by rw [escapesNext_append hfront, hbefore], hletter⟩

theorem HasFaultyEscape.before (h : HasFaultyEscape letter text) (more : List Char) :
    HasFaultyEscape letter (text ++ more) := by
  obtain ⟨before, after, rfl, hbefore⟩ := h
  exact ⟨before, after ++ more, by simp, hbefore⟩

/-! ## Splitting -/

/-- What is cut off behind an opening quote ends with its closing quote, or with the text. -/
theorem cutQuoted_ends (hquote : quote ≠ '\\') (text : List Char) :
    (∃ body, ClosedBehind quote (cutQuoted quote text).1 body) ∨
      (cutQuoted quote text).2 = [] ∧ Unclosed quote (cutQuoted quote text).1 := by
  fun_induction cutQuoted quote text with
  | case1 => exact .inr ⟨rfl, unclosed_nil⟩
  | case2 letter rest inside after hcut ih =>
      rw [hcut] at ih
      have hpair := unclosed_pair hquote letter
      have hpaired := escapesNext_pair letter
      rcases ih with ⟨body, hclosed⟩ | ⟨hafter, hopen⟩
      · exact .inl ⟨_, hpair.closedBehind hpaired hclosed⟩
      · exact .inr ⟨hafter, hpair.append hpaired hopen⟩
  | case3 rest notPair => exact .inl ⟨[], rfl, rfl, unclosed_nil⟩
  | case4 c rest notPair hother inside after hcut ih =>
      rw [hcut] at ih
      have hsingle := unclosed_singleton hother
      by_cases hbackslash : c = '\\'
      · -- A backslash with nothing to escape is the last character of the text.
        subst hbackslash
        cases rest with
        | nil =>
            cases hcut
            exact .inr ⟨rfl, hsingle⟩
        | cons letter rest => exact (notPair letter rest rfl rfl).elim
      · have hplain := escapesNext_plain hbackslash
        rcases ih with ⟨body, hclosed⟩ | ⟨hafter, hopen⟩
        · exact .inl ⟨_, hsingle.closedBehind hplain hclosed⟩
        · exact .inr ⟨hafter, hsingle.append hplain hopen⟩

/-! ## Decoding -/

theorem escapesNext_of_spells (h : Spells text meant) : escapesNext text = false := by
  induction h with
  | nothing => rfl
  | plain hplain _ ih => exact (escapesNext_append (escapesNext_plain hplain) _).trans ih
  | escaped _ _ ih => exact (escapesNext_append (escapesNext_pair _) _).trans ih

/-- Escapes cannot be resolved if the last backslash has nothing to escape, or if one escapes a
letter that has no meaning. -/
theorem resolveEscapes_eq_error {fault : QuoteError} (h : resolveEscapes text = .error fault) :
    fault = .danglingBackslash ∧ escapesNext text = true ∨
      ∃ letter, fault = .invalidEscape letter ∧ HasFaultyEscape letter text := by
  fun_induction resolveEscapes text with
  | case1 => cases h
  | case2 =>
      cases h
      exact .inl ⟨rfl, rfl⟩
  | case3 letter rest hvalue =>
      cases h
      exact .inr ⟨letter, rfl, [], rest, rfl, rfl, hvalue⟩
  | case4 letter rest d hvalue ih =>
      have hpaired := escapesNext_pair letter
      rcases ih (Except.map_eq_error.mp h) with ⟨hfault, hrest⟩ | ⟨letter', hfault, hfaulty⟩
      · exact .inl ⟨hfault, (escapesNext_append hpaired rest).trans hrest⟩
      · exact .inr ⟨letter', hfault, hfaulty.behind hpaired⟩
  | case5 d rest notDangling notPair ih =>
      have hplain : escapesNext [d] = false := by
        refine escapesNext_plain ?_
        rintro rfl
        cases rest with
        | nil => exact notDangling rfl rfl
        | cons letter rest => exact notPair letter rest rfl rfl
      rcases ih (Except.map_eq_error.mp h) with ⟨hfault, hrest⟩ | ⟨letter', hfault, hfaulty⟩
      · exact .inl ⟨hfault, (escapesNext_append hplain rest).trans hrest⟩
      · exact .inr ⟨letter', hfault, hfaulty.behind hplain⟩

/-- A literal that is closed by its quote has only escapes to fail for. -/
theorem unquote_closed {fault : QuoteError} (hclosed : ClosedBehind quote inside body)
    (h : unquote quote (quote :: inside) = .error fault) :
    ∃ letter, fault = .invalidEscape letter ∧ HasFaultyEscape letter inside := by
  rw [unquote, stripQuotes?_eq_some.mpr (by rw [hclosed.closed])] at h
  rcases resolveEscapes_eq_error h with ⟨-, hescapes⟩ | ⟨letter, hfault, hfaulty⟩
  · exact absurd (hescapes.symm.trans hclosed.alone) (by decide)
  · exact ⟨letter, hfault, hclosed.closed ▸ hfaulty.before [quote]⟩

/-- The last quote of a literal that is not closed is escaped, so taking it off leaves its backslash
behind. -/
theorem unquote_unclosed (hopen : Unclosed quote inside) : ∃ fault,
    unquote quote (quote :: inside) = .error fault ∧
      (fault = .unterminated ∨ fault = .danglingBackslash ∨
        ∃ letter, fault = .invalidEscape letter ∧ HasFaultyEscape letter inside) := by
  cases hunquoted : unquote quote (quote :: inside) with
  | ok meant =>
      obtain ⟨body, hliteral, hspells⟩ := unquote_eq_ok.mp hunquoted
      have hescapes := hopen body [] (List.cons_eq_cons.mp hliteral).2
      exact absurd (hescapes.symm.trans (escapesNext_of_spells hspells)) (by decide)
  | error fault =>
      refine ⟨fault, rfl, ?_⟩
      unfold unquote at hunquoted
      split at hunquoted
      · cases hunquoted
        exact .inl rfl
      · next body hstripped =>
          have hinside : inside = body ++ [quote] :=
            (List.cons_eq_cons.mp (stripQuotes?_eq_some.mp hstripped)).2
          rcases resolveEscapes_eq_error hunquoted with ⟨hfault, -⟩ | ⟨letter, hfault, hfaulty⟩
          · exact .inr (.inl hfault)
          · exact .inr (.inr ⟨letter, hfault, hinside ▸ hfaulty.before [quote]⟩)

/-! ## Words of a text -/

/-- The quotes around the words of a kind. -/
def Kind.quote? : Kind → Option Char
  | .string => some '"'
  | .character => some '\''
  | _ => none

theorem quote?_classify {first : Char} {rest : List Char}
    (h : (classify (first :: rest)).quote? = some quote) :
    first = quote ∧ (first = '"' ∨ first = '\'') := by
  have number : ∀ word, (numberKind word).quote? = none := by
    intro word
    unfold numberKind
    split <;> rfl
  simp only [classify] at h
  split at h
  · next hquote => exact ⟨hquote.trans (Option.some.inj h), .inr hquote⟩
  split at h
  · next hquote => exact ⟨hquote.trans (Option.some.inj h), .inl hquote⟩
  split at h
  · cases (number _).symm.trans h
  split at h
  · cases (number _).symm.trans h
  split at h <;> cases h

theorem readCharacter_eq_error {literal : List Char} {fault : QuoteError} :
    readCharacter literal = .error fault ↔ unquote '\'' literal = .error fault ∨
      fault = .notOneCharacter ∧ ∃ meant, unquote '\'' literal = .ok meant ∧ meant.length ≠ 1 := by
  unfold readCharacter
  split
  · next fault' hunquoted => simp [hunquoted]
  · next c hunquoted => simp [hunquoted]
  · next meant hmany hunquoted =>
      have hlength : meant.length ≠ 1 := by
        intro hone
        obtain ⟨c, rfl⟩ := List.length_eq_one_iff.mp hone
        exact hmany c rfl
      simp [hunquoted, hlength, eq_comm]

/-- A word in quotes fails to decode for what is between its quotes, or because it is a character
and means none or several. -/
theorem literalOf_eq_error {token : Token} {cause : SyntaxError.Cause}
    (hkind : token.kind.quote? = some quote) :
    Parser.literalOf token = .error cause ↔
      ∃ fault, (unquote quote token.text.toList = .error fault ∨
        token.kind = .character ∧ fault = .notOneCharacter ∧
          ∃ meant, unquote quote token.text.toList = .ok meant ∧ meant.length ≠ 1) ∧
        SyntaxError.Cause.malformedQuoted token.text fault = cause := by
  unfold Parser.literalOf
  split
  · next h => simp [h, Kind.quote?] at hkind
  · next h => simp [h, Kind.quote?] at hkind
  · next h =>
      obtain rfl : '\'' = quote := by simpa [h, Kind.quote?] using hkind
      simp [Except.mapError_eq_error, Except.map_eq_error, readCharacter_eq_error, h]
  · next h =>
      obtain rfl : '"' = quote := by simpa [h, Kind.quote?] using hkind
      simp [Except.mapError_eq_error, readString, Except.map_eq_error, h]
  · next h => simp [h, Kind.quote?] at hkind
  · next h => simp [h, Kind.quote?] at hkind

/-- The word does not decode, for a given fault. -/
def FailsFor (token : Token) (fault : QuoteError) : Prop :=
  Parser.literalOf token = .error (.malformedQuoted token.text fault)

/-- The text ends inside a literal, before a quote that stands by itself. -/
def EndsInside (source : String) (token : Token) (quote : Char) (inside : List Char) : Prop :=
  token.stop = source.utf8ByteSize ∧ Unclosed quote inside

/-- How a word in quotes decodes, told from how it ends. -/
structure DecodesAsCut (source : String) (token : Token) (quote : Char) (inside : List Char) :
    Prop where
  literal : token.text.toList = quote :: inside
  /-- Either a quote closes the word or the text ends inside it. -/
  ends : ¬ EndsInside source token quote inside ↔ ∃ body, ClosedBehind quote inside body
  /-- Its end is what fails exactly if the text ends inside it, unless an escape before fails. -/
  agree : (∀ letter, HasFaultyEscape letter inside → ¬ token.FailsFor (.invalidEscape letter)) →
    (token.FailsFor .unterminated ∨ token.FailsFor .danglingBackslash ↔
      EndsInside source token quote inside)
  /-- A word that is closed fails for an escape or for the number of its characters only. -/
  closed : ∀ body, ClosedBehind quote inside body → ∀ cause, Parser.literalOf token = .error cause →
    (∃ letter, HasFaultyEscape letter inside ∧
      cause = .malformedQuoted token.text (.invalidEscape letter)) ∨
    (token.kind = .character ∧ cause = .malformedQuoted token.text .notOneCharacter ∧
      ∃ meant, Spells body meant ∧ meant.length ≠ 1)
  /-- An escape is the only other fault that a word can have that is not closed. -/
  unclosed : EndsInside source token quote inside →
    token.FailsFor .unterminated ∨ token.FailsFor .danglingBackslash ∨
      ∃ letter, HasFaultyEscape letter inside ∧ token.FailsFor (.invalidEscape letter)
  never : EndsInside source token quote inside → ∀ value, Parser.literalOf token ≠ .ok value

theorem failsFor_iff {token : Token} {fault : QuoteError} (hkind : token.kind.quote? = some quote) :
    token.FailsFor fault ↔ unquote quote token.text.toList = .error fault ∨
      token.kind = .character ∧ fault = .notOneCharacter ∧
        ∃ meant, unquote quote token.text.toList = .ok meant ∧ meant.length ≠ 1 := by
  simp [FailsFor, literalOf_eq_error hkind]

/-- What was cut off behind an opening quote is closed by a quote, or the text ends inside it. -/
theorem closedBehind_or_endsInside {source : String} {token : Token}
    (hmem : token ∈ split source) (hkind : token.kind.quote? = some quote) :
    ∃ inside, token.text.toList = quote :: inside ∧
      ((∃ body, ClosedBehind quote inside body) ∨ EndsInside source token quote inside) := by
  obtain ⟨front, first, rest, hsource, -, rfl⟩ := exists_of_mem_splitFrom hmem
  obtain ⟨rfl, hfirst⟩ := quote?_classify hkind
  have hplain : first ≠ '\\' := by
    rcases hfirst with rfl | rfl <;> decide
  have hcut : cutWord first rest = cutQuoted first rest := by
    rw [cutWord, if_pos hfirst]
  refine ⟨(cutWord first rest).1, String.toList_ofList, ?_⟩
  rw [hcut]
  rcases cutQuoted_ends hplain rest with hclosed | ⟨hafter, hopen⟩
  · exact .inl hclosed
  · -- Nothing is left behind the word.
    have hwhole := cutQuoted_append first rest
    rw [hafter, List.append_nil] at hwhole
    refine .inr ⟨?_, hopen⟩
    rw [hwhole, stop_mk, Nat.zero_add, ← byteSize_append, ← hsource, byteSize_eq,
      String.ofList_toList]

theorem ClosedBehind.not_unclosed (h : ClosedBehind quote inside body) : ¬ Unclosed quote inside :=
  fun hopen => absurd ((hopen body [] h.closed).symm.trans h.alone) (by decide)

section Word

variable {source : String} {token : Token} (hkind : token.kind.quote? = some quote)
  (hliteral : token.text.toList = quote :: inside)

include hkind hliteral

/-- A word that is closed by its quote has its escapes and its length to fail for. -/
theorem ClosedBehind.fails (hclosed : ClosedBehind quote inside body) {cause : SyntaxError.Cause}
    (h : Parser.literalOf token = .error cause) :
    (∃ letter, HasFaultyEscape letter inside ∧
      cause = .malformedQuoted token.text (.invalidEscape letter)) ∨
    (token.kind = .character ∧ cause = .malformedQuoted token.text .notOneCharacter ∧
      ∃ meant, Spells body meant ∧ meant.length ≠ 1) := by
  obtain ⟨fault, hfault, rfl⟩ := (literalOf_eq_error hkind).mp h
  rw [hliteral] at hfault
  rcases hfault with hunquoted | ⟨hcharacter, rfl, meant, hunquoted, hlength⟩
  · obtain ⟨letter, rfl, hfaulty⟩ := unquote_closed hclosed hunquoted
    exact .inl ⟨letter, hfaulty, rfl⟩
  · obtain ⟨body', hbody, hspells⟩ := unquote_eq_ok.mp hunquoted
    obtain rfl : body' = body :=
      List.append_cancel_right ((List.cons_eq_cons.mp hbody).2.symm.trans hclosed.closed)
    exact .inr ⟨hcharacter, rfl, meant, hspells, hlength⟩

/-- A word that is not closed fails, if not for an escape then for its end. -/
theorem Unclosed.fails (hopen : Unclosed quote inside) :
    token.FailsFor .unterminated ∨ token.FailsFor .danglingBackslash ∨
      ∃ letter, HasFaultyEscape letter inside ∧ token.FailsFor (.invalidEscape letter) := by
  obtain ⟨fault, hunquoted, hfault⟩ := unquote_unclosed hopen
  have hfails : token.FailsFor fault := by
    rw [← hliteral] at hunquoted
    exact (failsFor_iff hkind).mpr (.inl hunquoted)
  rcases hfault with rfl | rfl | ⟨letter, rfl, hfaulty⟩
  · exact .inl hfails
  · exact .inr (.inl hfails)
  · exact .inr (.inr ⟨letter, hfaulty, hfails⟩)

end Word

/-- Splitting and decoding agree on where a literal ends. -/
theorem decodes_as_cut {source : String} {token : Token} {quote : Char}
    (hmem : token ∈ split source) (hkind : token.kind.quote? = some quote) :
    ∃ inside, DecodesAsCut source token quote inside := by
  obtain ⟨inside, hliteral, hcut⟩ := closedBehind_or_endsInside hmem hkind
  have hunclosed : EndsInside source token quote inside → _ := fun hends =>
    hends.2.fails hkind hliteral
  refine ⟨inside, hliteral, ⟨hcut.resolve_right, ?_⟩, fun hescapes => ⟨?_, ?_⟩,
    fun body hclosed cause => hclosed.fails hkind hliteral, hunclosed, ?_⟩
  · rintro ⟨body, hclosed⟩ ⟨-, hopen⟩
    exact hclosed.not_unclosed hopen
  · -- A word that is closed would fail for another reason.
    rintro hfails
    refine hcut.resolve_left fun ⟨body, hclosed⟩ => ?_
    have hother : ∀ fault, token.FailsFor fault →
        (∃ letter, fault = .invalidEscape letter) ∨ fault = .notOneCharacter := by
      intro fault hfault
      rcases hclosed.fails hkind hliteral hfault with ⟨letter, -, hcause⟩ | ⟨-, hcause, -⟩
      · exact .inl ⟨letter, (SyntaxError.Cause.malformedQuoted.inj hcause).2⟩
      · exact .inr (SyntaxError.Cause.malformedQuoted.inj hcause).2
    rcases hfails with hfails | hfails <;> simpa using hother _ hfails
  · intro hends
    rcases hunclosed hends with hfails | hfails | ⟨letter, hfaulty, hfails⟩
    · exact .inl hfails
    · exact .inr hfails
    · exact absurd hfails (hescapes letter hfaulty)
  · intro hends value hvalue
    rcases hunclosed hends with hfails | hfails | ⟨letter, -, hfails⟩ <;>
      exact absurd (hvalue.symm.trans hfails) nofun

/-- A backslash that is escaped leaves the quote behind it alone, one that is not takes it along. -/
theorem decodes_as_cut_behind_backslashes :
    (∃ token ∈ split "\"a\\\\\" '\\'", token.kind.quote? = some '"' ∧
      (∃ inside, DecodesAsCut "\"a\\\\\" '\\'" token '"' inside) ∧
      Parser.literalOf token = .ok (.string "a\\")) ∧
    ∃ token ∈ split "\"a\\\\\" '\\'", token.kind.quote? = some '\'' ∧
      (∃ inside, DecodesAsCut "\"a\\\\\" '\\'" token '\'' inside) ∧
      token.FailsFor .danglingBackslash := by
  have hstring : ⟨.string, "\"a\\\\\"", 0⟩ ∈ split "\"a\\\\\" '\\'" := by decide +kernel
  have hcharacter : ⟨.character, "'\\'", 6⟩ ∈ split "\"a\\\\\" '\\'" := by decide +kernel
  have hfails : Parser.literalOf ⟨.character, "'\\'", 6⟩ =
      .error (.malformedQuoted "'\\'" .danglingBackslash) := by decide +kernel
  exact ⟨⟨_, hstring, rfl, decodes_as_cut hstring rfl, by decide +kernel⟩,
    ⟨_, hcharacter, rfl, decodes_as_cut hcharacter rfl, hfails⟩⟩

end TinyScript.Token
