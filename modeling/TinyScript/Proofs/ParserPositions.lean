import TinyScript.Proofs.Parse.Unrolling

/-!
# Where a parser stands and where its errors stand

A parser is asked one thing after another: to look at words, to move behind one that fits, to read
what a rule describes. Each request goes on where the one before it has come to, also where that one
has failed. After every history of requests the parser stands behind the words it has taken, and all
that a request may do is to take some more (`Request.steps`). So the position moves forward only, a
rule that succeeds has taken a word, and an error names the place the parser is left at
(`position_and_error_exact`).
-/

namespace TinyScript

/-! ## Places -/

/-- The offset of a place among words: that of the word there, or the end of the last one. -/
def offsetAt (tokens : List Token) (index : Nat) : Nat :=
  match tokens[index]? with
  | some token => token.offset
  | none => (tokens.getLast?.map Token.stop).getD 0

namespace Cursor

variable {cursor : Cursor} {used rest : List Token}

theorem lastStop_past (h : cursor.rest = used ++ rest) :
    (cursor.past used).lastStop = (used.getLast?.map Token.stop).getD cursor.lastStop := by
  induction used generalizing cursor with
  | nil => rfl
  | cons token used ih =>
      have hstop : cursor.advance.lastStop = token.stop := by simp [advance, h]
      have hpast : cursor.past (token :: used) = cursor.advance.past used := rfl
      rw [hpast, ih (rest_advance h), hstop, List.getLast?_cons]
      cases used.getLast? <;> rfl

/-- The place between words that have been taken and the words that are left. -/
def between (taken rest : List Token) : Cursor := (start (taken ++ rest)).past taken

theorem rest_between (taken rest : List Token) : (between taken rest).rest = rest :=
  rest_past rfl

theorem index_between (taken rest : List Token) : (between taken rest).index = taken.length :=
  (index_past rfl).trans (Nat.zero_add _)

theorem offset_between (taken rest : List Token) :
    (between taken rest).offset = offsetAt (taken ++ rest) taken.length := by
  rw [offset, rest_between, offsetAt, List.getElem?_append_right (Nat.le_refl _), Nat.sub_self]
  cases rest with
  | nil =>
      have hall : (start (taken ++ [])).rest = taken ++ [] := rfl
      rw [List.append_nil]
      exact lastStop_past hall
  | cons token rest => rfl

theorem between_past (taken used rest : List Token) :
    (between taken (used ++ rest)).past used = between (taken ++ used) rest := by
  rw [between, between, past_append, List.append_assoc]

end Cursor

namespace Parser

/-! ## Requests -/

/-- The rules that can be asked for. -/
inductive Rule where
  | source
  | global
  | function
  | block
  | statement
  | expression
  | logical
  | comparison
  | additive
  | multiplicative
  | primary
deriving DecidableEq, Repr

/-- What a rule reads. -/
def Rule.Tree : Rule → Type
  | source => Program
  | global => Global
  | function => Function
  | block => List Statement
  | statement => Statement
  | expression | logical | comparison | additive | multiplicative | primary => Expression

/-- The parser of a rule. -/
def Rule.parser : (rule : Rule) → Parser rule.Tree
  | source => Parser.program
  | global => Parser.global
  | function => Parser.function
  | block => Parser.block
  | statement => Parser.statement
  | expression => Parser.expression
  | logical => Parser.logical
  | comparison => Parser.comparison
  | additive => Parser.additive
  | multiplicative => Parser.multiplicative
  | primary => Parser.primary

/-- What a word may be compared with. -/
inductive Pattern where
  | literal (text : String)
  | kind (kind : Token.Kind)
deriving DecidableEq, Repr

/-- What a parser can be asked. -/
inductive Request where
  | peek (pattern : Pattern)
  | peekAhead (ahead : Nat) (pattern : Pattern)
  | accept (pattern : Pattern)
  | remaining
  | rule (rule : Rule)
deriving DecidableEq, Repr

namespace Request

/-- What a request is answered with. -/
def Reply : Request → Type
  | .peek _ | .peekAhead _ _ | .accept _ => Bool
  | .remaining => Nat
  | .rule called => called.Tree

/-- What answers a request. -/
def parser : (request : Request) → Parser request.Reply
  | .peek (.literal text) => Parser.peek text
  | .peek (.kind kind) => fun cursor => .ok (cursor.isKind kind) cursor
  | .peekAhead ahead (.literal text) => fun cursor => .ok (cursor.isLiteralAhead ahead text) cursor
  | .peekAhead ahead (.kind kind) => fun cursor =>
      .ok (cursor.rest[ahead]?.any (·.kind = kind)) cursor
  | .accept (.literal text) => Parser.accept text
  | .accept (.kind kind) => Parser.acceptKind kind
  | .remaining => Parser.remaining
  | .rule called => called.parser

/-- Whether a request leaves the parser where it is. -/
def looks : Request → Bool
  | .peek _ | .peekAhead _ _ | .remaining => true
  | .accept _ | .rule _ => false

/-- Whether an answer to a request takes a word. -/
def takes : Request → Bool
  | .rule called => called ≠ .block
  | .peek _ | .peekAhead _ _ | .accept _ | .remaining => false

end Request

/-- The place that reading has come to, whether it has succeeded or not. -/
def place {α : Type} : EStateM.Result SyntaxError Cursor α → Cursor
  | .ok _ cursor => cursor
  | .error _ cursor => cursor

/-- The place that a parser comes to from a given one by answering some requests. -/
def reached (cursor : Cursor) : List Request → Cursor
  | [] => cursor
  | request :: history => reached (place (request.parser cursor)) history

/-! ## Steps -/

section Steps

variable {α : Type} {takes : Bool} {p q : Parser α}

theorem place_ending (cursor : Cursor) (outcome : Except SyntaxError.Cause α) :
    place (cursor.ending outcome) = cursor := by
  cases outcome <;> rfl

/-- A parser ends behind words that it takes, and with an error that names that place if it fails.
If `takes` holds, these are one word at least where it succeeds. -/
def Steps (takes : Bool) (p : Parser α) : Prop :=
  ∀ cursor : Cursor, ∃ used rest outcome, cursor.rest = used ++ rest ∧
    p cursor = (cursor.past used).ending outcome ∧
      (takes = true → ∀ value, outcome = .ok value → used ≠ [])

theorem Local.steps (h : ∀ k, Local takes k 0 p q) : Steps takes p := by
  intro cursor
  obtain ⟨used, rest, outcome, hrest, hran, htakes, _⟩ := h _ cursor (Nat.lt_succ_self _)
  exact ⟨used, rest, outcome, hrest, hran, htakes⟩

theorem steps_of_look {answer : Cursor → α} (h : ∀ cursor, p cursor = .ok (answer cursor) cursor) :
    Steps false p :=
  fun cursor => ⟨[], cursor.rest, .ok (answer cursor), rfl, h cursor, nofun⟩

theorem steps_acceptIf {test : Cursor → Bool} (htest : ∀ cursor, test cursor = true →
    ∃ token rest, cursor.rest = token :: rest) : Steps false (acceptIf test) := by
  intro cursor
  cases hfits : test cursor with
  | false =>
      have hran : acceptIf test cursor = .ok false cursor := by simp [acceptIf, hfits]
      exact ⟨[], cursor.rest, .ok false, rfl, hran, fun h => absurd h Bool.false_ne_true⟩
  | true =>
      have hran : acceptIf test cursor = .ok true cursor.advance := by simp [acceptIf, hfits]
      obtain ⟨token, rest, hrest⟩ := htest cursor hfits
      exact ⟨[token], rest, .ok true, hrest, hran, fun h => absurd h Bool.false_ne_true⟩

end Steps

/-! ### Programs -/

/-- At the end of the words there is no program. -/
theorem program_at_end {cursor : Cursor} (h : cursor.rest = []) :
    program cursor = .error (cursor.error .missingFunction) cursor := by
  have hremaining : cursor.remaining = 0 := by simp [Cursor.remaining, h]
  unfold program
  show (manyWhile startsGlobal global cursor.remaining >>= _) cursor = _
  rw [hremaining]
  show (manyWhile (peek "FUN") function cursor.remaining >>= _) cursor = _
  rw [hremaining]
  rfl

/-- A program that is read is read to its last word. -/
theorem rest_of_program {cursor cursor' : Cursor} {tree : Program}
    (h : program cursor = .ok tree cursor') : cursor'.rest = [] := by
  unfold program at h
  obtain ⟨_, _, _, h⟩ := bind_eq_ok.mp h
  obtain ⟨globals, _, _, h⟩ := bind_eq_ok.mp h
  obtain ⟨_, _, _, h⟩ := bind_eq_ok.mp h
  obtain ⟨functions, last, _, h⟩ := bind_eq_ok.mp h
  split at h
  · cases h
  change atLast ⟨globals, functions⟩ last = _ at h
  cases hlast : last.current with
  | some token =>
      rw [atLast_of_some _ hlast] at h
      cases h
  | none =>
      rw [atLast_of_none _ hlast] at h
      obtain ⟨rfl, rfl⟩ := pure_eq_ok.mp h
      exact Cursor.current_eq_none.mp hlast

/-- A program takes a word: only where no word is left could it be read without one. -/
theorem steps_program : Steps true program := by
  intro cursor
  obtain ⟨used, rest, outcome, hrest, hran, _⟩ := (Local.steps fun _ => Local.program) cursor
  refine ⟨used, rest, outcome, hrest, hran, ?_⟩
  rintro _ tree rfl rfl
  have hend : cursor.rest = [] := rest_of_program hran
  rw [program_at_end hend] at hran
  cases hran

/-! ### Rules and requests -/

theorem steps_rule (rule : Rule) : Steps (rule ≠ .block) rule.parser := by
  cases rule with
  | source => exact steps_program
  | global => exact Local.steps fun _ => .global
  | function => exact Local.steps fun _ => .function
  | block => exact Local.steps fun _ => .block
  | statement => exact Local.steps fun _ => .statement
  | expression => exact Local.steps fun _ => .expression
  | logical => exact Local.steps fun _ => .expression
  | comparison => exact Local.steps fun _ => .comparison
  | additive => exact Local.steps fun _ => .additive
  | multiplicative => exact Local.steps fun _ => .multiplicative
  | primary => exact Local.steps fun _ => .primary

theorem exists_of_isLiteral {cursor : Cursor} {literal : String}
    (h : cursor.isLiteral literal = true) : ∃ token rest, cursor.rest = token :: rest := by
  rw [Cursor.isLiteral_eq] at h
  obtain ⟨token, hcurrent, _⟩ := (Option.any_eq_true ..).mp h
  exact ⟨token, Cursor.current_eq_some hcurrent⟩

theorem exists_of_isKind {cursor : Cursor} {kind : Token.Kind}
    (h : cursor.isKind kind = true) : ∃ token rest, cursor.rest = token :: rest := by
  obtain ⟨token, hcurrent, _⟩ := (Option.any_eq_true ..).mp h
  exact ⟨token, Cursor.current_eq_some hcurrent⟩

/-- A request takes some words, and one at least if it asks for more than a block. -/
theorem Request.steps (request : Request) : Steps request.takes request.parser := by
  match request with
  | .peek (.literal _) => exact steps_of_look fun _ => rfl
  | .peek (.kind _) => exact steps_of_look fun _ => rfl
  | .peekAhead _ (.literal _) => exact steps_of_look fun _ => rfl
  | .peekAhead _ (.kind _) => exact steps_of_look fun _ => rfl
  | .accept (.literal _) => exact steps_acceptIf fun _ => exists_of_isLiteral
  | .accept (.kind _) => exact steps_acceptIf fun _ => exists_of_isKind
  | .remaining => exact steps_of_look fun _ => rfl
  | .rule called => exact steps_rule called

theorem Request.place_of_looks {request : Request} (h : request.looks = true) (cursor : Cursor) :
    place (request.parser cursor) = cursor := by
  match request with
  | .peek (.literal _) | .peek (.kind _) => rfl
  | .peekAhead _ (.literal _) | .peekAhead _ (.kind _) => rfl
  | .remaining => rfl

/-! ## Histories -/

/-- Answering requests moves a parser behind some words. -/
theorem exists_reached (cursor : Cursor) (history : List Request) :
    ∃ taken rest, cursor.rest = taken ++ rest ∧ reached cursor history = cursor.past taken := by
  induction history generalizing cursor with
  | nil => exact ⟨[], cursor.rest, rfl, rfl⟩
  | cons request history ih =>
      obtain ⟨used, rest, outcome, hrest, hran, _⟩ := request.steps cursor
      obtain ⟨taken, rest', hrest', hreached⟩ := ih (cursor.past used)
      rw [Cursor.rest_past hrest] at hrest'
      subst hrest'
      refine ⟨used ++ taken, rest', by rw [hrest, List.append_assoc], ?_⟩
      rw [reached, hran, place_ending, hreached, Cursor.past_append]

/-- How a request at a place among words is answered, with the place that it leaves the parser
at. -/
structure AnsweredExactly (tokens : List Token) (request : Request) (before : Cursor)
    (answer : EStateM.Result SyntaxError Cursor request.Reply) : Prop where
  rest : (place answer).rest = tokens.drop (place answer).index
  forward : before.index ≤ (place answer).index
  within : (place answer).index ≤ tokens.length
  total : (place answer).index + (place answer).remaining = tokens.length
  looks : request.looks = true → place answer = before
  takes : request.takes = true → ∀ reply after, answer = .ok reply after →
    before.index < after.index
  error : ∀ error after, answer = .error error after → error.index = after.index ∧
    error.index + after.remaining = tokens.length ∧ error.offset = offsetAt tokens error.index

/-- What a parser answers where it stands behind words it has taken. -/
theorem Request.answeredExactly (request : Request) (taken rest : List Token) :
    AnsweredExactly (taken ++ rest) request (.between taken rest)
      (request.parser (.between taken rest)) := by
  obtain ⟨used, rest', outcome, hrest, hran, htakes⟩ := request.steps (.between taken rest)
  obtain rfl : rest = used ++ rest' := (Cursor.rest_between ..).symm.trans hrest
  have hlooks : request.looks = true → _ := fun h =>
    request.place_of_looks h (.between taken (used ++ rest'))
  rw [Cursor.between_past] at hran
  rw [hran, place_ending] at hlooks
  have hrest := Cursor.rest_between (taken ++ used) rest'
  have hindex := Cursor.index_between (taken ++ used) rest'
  have hoffset := Cursor.offset_between (taken ++ used) rest'
  have hbefore := Cursor.index_between taken (used ++ rest')
  rw [hran, ← List.append_assoc]
  exact
    { rest := by rw [place_ending, hrest, hindex, List.drop_left]
      forward := by
        rw [place_ending, hbefore, hindex, List.length_append]
        exact Nat.le_add_right ..
      within := by
        rw [place_ending, hindex]
        exact Nat.le_trans (Nat.le_add_right ..) (Nat.le_of_eq List.length_append.symm)
      total := by
        rw [place_ending, hindex, Cursor.remaining, hrest]
        exact List.length_append.symm
      looks := by
        rw [place_ending]
        exact hlooks
      takes := by
        intro htake reply after hanswer
        cases outcome with
        | error cause => cases hanswer
        | ok value =>
            cases hanswer
            have hused := List.length_pos_iff.mpr (htakes htake reply rfl)
            rw [hbefore, hindex, List.length_append]
            exact Nat.lt_add_of_pos_right hused
      error := by
        intro error after hanswer
        cases outcome with
        | ok value => cases hanswer
        | error cause =>
            cases hanswer
            have htotal : (taken ++ used).length + rest'.length =
                (taken ++ used ++ rest').length := List.length_append.symm
            simp only [Cursor.error, Cursor.remaining, hrest, hindex, hoffset, htotal, and_self] }

/-- Whatever has been asked before and however it was answered: a request does not move the parser
back nor beyond the words, a rule other than the one for blocks takes a word where it succeeds, and
an error names the place that the parser is left at. The recursions of the rules end, as they are
the same however they go on behind as many rounds as words are left. -/
theorem position_and_error_exact (tokens : List Token) (history : List Request)
    (request : Request) :
    AnsweredExactly tokens request (reached (Cursor.start tokens) history)
      (request.parser (reached (Cursor.start tokens) history)) ∧ RecursionsSettle := by
  obtain ⟨taken, rest, hsplit, hreached⟩ := exists_reached (Cursor.start tokens) history
  obtain rfl : tokens = taken ++ rest := hsplit
  rw [hreached]
  exact ⟨request.answeredExactly taken rest, recursionsSettle⟩

-- After a rule that has failed, the next request goes on at the word that did not fit.
example :
    (reached (Cursor.start [⟨.operator, "(", 0⟩, ⟨.operator, ")", 1⟩, ⟨.identifier, "x", 2⟩])
      [.rule .expression, .accept (.literal ")"), .rule .primary]).index = 3 := by
  rfl

end Parser

/-- A program that cannot be read is refused at the offset that belongs to the index of the
error. -/
theorem offset_of_parse_error {tokens : List Token} {error : SyntaxError}
    (h : Program.parse tokens = .error error) : error.offset = offsetAt tokens error.index := by
  obtain ⟨used, rest, outcome, hrest, hran, _⟩ := Parser.steps_program (Cursor.start tokens)
  obtain rfl : tokens = used ++ rest := hrest
  unfold Program.parse Parser.run at h
  rw [hran] at h
  cases outcome with
  | ok tree => cases h
  | error cause =>
      cases h
      exact (Cursor.offset_between used rest).trans
        (congrArg (offsetAt _) (Cursor.index_between used rest).symm)

end TinyScript
