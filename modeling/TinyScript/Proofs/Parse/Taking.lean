import TinyScript.Parse.Program
import TinyScript.Proofs.Parse.Words

/-!
# Readers before the words of their form

A reader decides by the word at its cursor alone. `Takes` says what it makes of words: it returns a
value and leaves a rest. The lemmas here give one such fact for every step a reader can take, tell
how forms start (`Starts`) and which words continue none (`Unfollowed`), and follow the two
repetitions.
-/

namespace TinyScript

open Grammar Token

/-! ## The word at the cursor -/

theorem Grammar.Mark.isLiteral {mark : String} {token : Token} (h : Mark mark token) :
    token.isLiteral mark = true := by
  obtain ⟨kind, rfl⟩ := h
  simp [Token.isLiteral, kind]

theorem Grammar.Reserved.isLiteral {word : String} {token : Token} (h : Reserved word token) :
    token.isLiteral word = true := by
  simp [Token.isLiteral, h.1, h.2]

/-- A word is one literal only, up to case. -/
theorem Token.isLiteral_of_isLiteral {token : Token} {literal other : String}
    (fits : token.isLiteral literal = true) (unlike : sameIgnoringCase literal other = false) :
    token.isLiteral other = false := by
  refine Bool.eq_false_iff.mpr fun also => ?_
  have same : sameIgnoringCase literal other = true := by
    unfold Token.isLiteral at fits also
    split at fits
    · next kind =>
        rw [if_pos kind] at also
        exact beq_of_eq ((eq_of_beq fits).symm.trans (eq_of_beq also))
    · next kind =>
        rw [if_neg kind] at also
        rw [← eq_of_beq fits, eq_of_beq also]
        exact sameIgnoringCase_refl other
  rw [same] at unlike
  cases unlike

/-- The first word, if there is one, is not a given literal. -/
def Lacks (literal : String) (tokens : List Token) : Prop :=
  ∀ token ∈ tokens.head?, token.isLiteral literal = false

@[simp] theorem lacks_cons {literal : String} {token : Token} {tokens : List Token} :
    Lacks literal (token :: tokens) ↔ token.isLiteral literal = false := by
  simp [Lacks]

theorem lacks_of_isLiteral {token : Token} {tokens : List Token} {literal other : String}
    (fits : token.isLiteral literal = true) (unlike : sameIgnoringCase literal other = false) :
    Lacks other (token :: tokens) :=
  lacks_cons.mpr (isLiteral_of_isLiteral fits unlike)

theorem Grammar.Mark.lacks {mark literal : String} {token : Token} {tokens : List Token}
    (h : Mark mark token) (unlike : sameIgnoringCase mark literal = false) :
    Lacks literal (token :: tokens) :=
  lacks_of_isLiteral h.isLiteral unlike

theorem Grammar.Reserved.lacks {word literal : String} {token : Token} {tokens : List Token}
    (h : Reserved word token) (unlike : sameIgnoringCase word literal = false) :
    Lacks literal (token :: tokens) :=
  lacks_of_isLiteral h.isLiteral unlike

/-! ## Steps -/

/-- Before the given words, which are classified, a parser returns the given value and leaves the
given rest. -/
def Takes {α : Type} (parser : Parser α) (tokens : List Token) (value : α) (rest : List Token) :
    Prop :=
  ∀ cursor, cursor.rest = tokens → AllClassified tokens →
    ∃ cursor', parser cursor = .ok value cursor' ∧ cursor'.rest = rest ∧ AllClassified rest

namespace Takes

variable {α β : Type} {p : Parser α} {a : α} {b : β} {token : Token}
  {tokens middle rest : List Token}

theorem of_classified (takes : AllClassified tokens → Takes p tokens a rest) :
    Takes p tokens a rest :=
  fun cursor hcursor classified => takes classified cursor hcursor classified

protected theorem pure : Takes (pure a) rest a rest :=
  fun cursor hcursor classified => ⟨cursor, rfl, hcursor, classified⟩

protected theorem bind {f : α → Parser β} (first : Takes p tokens a middle)
    (second : Takes (f a) middle b rest) : Takes (p >>= f) tokens b rest := by
  intro cursor hcursor classified
  obtain ⟨between, ran, hbetween, classified⟩ := first cursor hcursor classified
  obtain ⟨cursor', ran', hcursor'⟩ := second between hbetween classified
  exact ⟨cursor', bind_eq_ok.mpr ⟨a, between, ran, ran'⟩, hcursor'⟩

protected theorem map {f : α → β} (takes : Takes p tokens a rest) :
    Takes (f <$> p) tokens (f a) rest := by
  intro cursor hcursor classified
  obtain ⟨cursor', ran, hcursor'⟩ := takes cursor hcursor classified
  exact ⟨cursor', map_eq_ok.mpr ⟨a, ran, rfl⟩, hcursor'⟩

theorem remaining {f : Nat → Parser α} (next : Takes (f tokens.length) tokens a rest) :
    Takes (Parser.remaining >>= f) tokens a rest := by
  rintro cursor rfl classified
  exact next cursor rfl classified

/-! ### Words -/

theorem advance : Takes Parser.advance (token :: rest) () rest := by
  rintro ⟨_, index, stop⟩ rfl classified
  exact ⟨⟨rest, index + 1, token.stop⟩, rfl, rfl, (List.forall_mem_cons.mp classified).2⟩

theorem current : Takes Parser.current tokens tokens.head? tokens := by
  rintro cursor rfl classified
  exact ⟨cursor, rfl, rfl, classified⟩

section Words

variable {literal : String}

theorem accept {f : Bool → Parser α} (fits : token.isLiteral literal = true)
    (next : Takes (f true) tokens a rest) :
    Takes (Parser.accept literal >>= f) (token :: tokens) a rest := by
  refine .bind ?_ next
  rintro ⟨_, index, stop⟩ rfl classified
  refine ⟨⟨tokens, index + 1, token.stop⟩, ?_, rfl, (List.forall_mem_cons.mp classified).2⟩
  simp [Parser.accept, Parser.acceptIf, Cursor.isLiteral, Cursor.isLiteralAhead, fits,
    Cursor.advance]

theorem isLiteral_of_lacks {cursor : Cursor} (lacks : Lacks literal cursor.rest) :
    cursor.isLiteral literal = false := by
  rcases cursor with ⟨_ | ⟨token, tokens⟩, index, stop⟩
  · rfl
  · simpa [Cursor.isLiteral, Cursor.isLiteralAhead] using lacks

theorem skip {f : Bool → Parser α} (lacks : Lacks literal tokens)
    (next : Takes (f false) tokens a rest) :
    Takes (Parser.accept literal >>= f) tokens a rest := by
  refine .bind ?_ next
  rintro cursor rfl classified
  refine ⟨cursor, ?_, rfl, classified⟩
  simp [Parser.accept, Parser.acceptIf, isLiteral_of_lacks lacks]

theorem peek {f : Bool → Parser α} (lacks : Lacks literal tokens)
    (next : Takes (f false) tokens a rest) : Takes (Parser.peek literal >>= f) tokens a rest := by
  refine .bind ?_ next
  rintro cursor rfl classified
  refine ⟨cursor, ?_, rfl, classified⟩
  simp [Parser.peek, isLiteral_of_lacks lacks]

theorem expect {f : Unit → Parser α} (fits : token.isLiteral literal = true)
    (next : Takes (f ()) tokens a rest) :
    Takes (Parser.expect literal >>= f) (token :: tokens) a rest :=
  .bind (.accept fits .pure) next

end Words

theorem expectToken {test : Token → Bool} {cause : Option String → SyntaxError.Cause}
    (holds : test token = true) :
    Takes (Parser.expectToken test cause) (token :: rest) token rest := by
  refine .bind .current ?_
  simp only [List.head?_cons, holds, if_true]
  exact .bind .advance .pure

end Takes

namespace Parser

variable {token : Token} {tokens rest : List Token}

theorem takes_name {text : String} (hname : Name text token) :
    Takes name (token :: rest) text rest := by
  obtain ⟨kind, rfl, free⟩ := hname
  exact .bind (.expectToken (isName_iff.mpr ⟨kind, rfl, free⟩)) .pure

theorem takes_typeName {text : String} (htype : TypeName text token) :
    Takes typeName (token :: rest) text rest := by
  obtain ⟨kind, rfl⟩ := htype
  exact .bind (.expectToken (by simpa using kind)) .pure

theorem takes_typed {typeName : Option String} (htyped : Annotates tokens typeName)
    (hrest : Lacks ":" rest) : Takes typeAnnotation (tokens ++ rest) typeName rest := by
  cases htyped with
  | none => exact .skip hrest .pure
  | some hcolon htype => exact .accept hcolon.isLiteral (.bind (takes_typeName htype) .pure)

end Parser

/-! ## How forms start -/

/-- A word that an expression can start with. -/
inductive Starts (token : Token) : Prop
  | name {name} : Name name token → Starts token
  | literal {value} : Denotes token value → Starts token
  | opening : Mark "(" token → Starts token

theorem Grammar.Expresses.starts {tokens : List Token} {phrase : Phrase}
    (h : Expresses tokens phrase) : ∃ token rest, tokens = token :: rest ∧ Starts token := by
  induction h with
  | literal hvalue => exact ⟨_, _, rfl, .literal hvalue⟩
  | group hopening => exact ⟨_, _, rfl, .opening hopening⟩
  | access hname => exact ⟨_, _, rfl, .name hname⟩
  | element hname => exact ⟨_, _, rfl, .name hname⟩
  | emptyCall hname => exact ⟨_, _, rfl, .name hname⟩
  | call hname => exact ⟨_, _, rfl, .name hname⟩
  | operand _ ih => exact ih
  | last _ ih => exact ih
  | operation _ _ _ _ ih =>
      obtain ⟨token, rest, rfl, starts⟩ := ih
      exact ⟨_, _, rfl, starts⟩
  | more _ _ _ ih =>
      obtain ⟨token, rest, rfl, starts⟩ := ih
      exact ⟨_, _, rfl, starts⟩

theorem Token.Classified.isLiteral_of_kind {token : Token} (classified : token.Classified)
    {literal : String} (other : token.kind ≠ classify literal.toList) :
    token.isLiteral literal = false := by
  refine Bool.eq_false_iff.mpr fun fits => other ?_
  rw [classified]
  unfold Token.isLiteral at fits
  split at fits
  · exact classify_of_sameIgnoringCase fits
  · rw [eq_of_beq fits]

theorem Grammar.Name.isLiteral {name : String} {token : Token} (h : Name name token)
    {word : String} (hword : word ∈ reservedWords) : token.isLiteral word = false := by
  simp [Token.isLiteral, h.1, h.2.1, h.2.2 word hword]

/-- Whether no expression starts with a literal. -/
def isForeign (literal : String) : Bool :=
  (classify literal.toList = .operator ||
      classify literal.toList = .identifier && reservedWords.contains literal) &&
    ["NIL", "TRUE", "FALSE", "("].all fun word => !sameIgnoringCase word literal

theorem Starts.isLiteral {token : Token} (starts : Starts token) (classified : token.Classified)
    {literal : String} (foreign : isForeign literal = true) : token.isLiteral literal = false := by
  simp only [isForeign, Bool.and_eq_true, Bool.or_eq_true, decide_eq_true_eq, List.all_eq_true,
    Bool.not_eq_true', List.contains_iff_mem] at foreign
  obtain ⟨kind, unlike⟩ := foreign
  have ofKind : token.kind ≠ .identifier → token.kind ≠ .operator →
      token.isLiteral literal = false := by
    intro noIdentifier noOperator
    refine classified.isLiteral_of_kind ?_
    rcases kind with kind | ⟨kind, -⟩
    · rwa [kind]
    · rwa [kind]
  cases starts with
  | name hname =>
      rcases kind with kind | ⟨-, reserved⟩
      · refine classified.isLiteral_of_kind ?_
        rw [kind, hname.1]
        decide
      · exact hname.isLiteral reserved
  | opening hopening => exact isLiteral_of_isLiteral hopening.isLiteral (unlike _ (by decide))
  | literal hvalue =>
      cases hvalue with
      | nil hword => exact isLiteral_of_isLiteral hword.isLiteral (unlike _ (by decide))
      | true hword => exact isLiteral_of_isLiteral hword.isLiteral (unlike _ (by decide))
      | false hword => exact isLiteral_of_isLiteral hword.isLiteral (unlike _ (by decide))
      | integer kind => exact ofKind (by rw [kind]; decide) (by rw [kind]; decide)
      | decimal kind => exact ofKind (by rw [kind]; decide) (by rw [kind]; decide)
      | character kind => exact ofKind (by rw [kind]; decide) (by rw [kind]; decide)
      | string kind => exact ofKind (by rw [kind]; decide) (by rw [kind]; decide)

theorem Grammar.Expresses.lacks {tokens rest : List Token} {phrase : Phrase}
    (h : Expresses tokens phrase) (classified : AllClassified tokens) {literal : String}
    (foreign : isForeign literal = true) : Lacks literal (tokens ++ rest) := by
  obtain ⟨token, behind, rfl, starts⟩ := h.starts
  exact lacks_cons.mpr (starts.isLiteral (List.forall_mem_cons.mp classified).1 foreign)

/-- The words that statements start with, apart from expressions. -/
def statementWords : List String := ["LET", "SWITCH", "IF", "WHILE", "RETURN"]

theorem Grammar.States.starts {tokens : List Token} {statement : Statement}
    (h : States tokens (.statement statement)) : ∃ token rest, tokens = token :: rest ∧
      (Starts token ∨ ∃ word ∈ statementWords, Reserved word token) := by
  cases h with
  | declaration hword => exact ⟨_, _, rfl, .inr ⟨_, by decide, hword⟩⟩
  | result hword => exact ⟨_, _, rfl, .inr ⟨_, by decide, hword⟩⟩
  | branch hword => exact ⟨_, _, rfl, .inr ⟨_, by decide, hword⟩⟩
  | alternative hword => exact ⟨_, _, rfl, .inr ⟨_, by decide, hword⟩⟩
  | switch hword => exact ⟨_, _, rfl, .inr ⟨_, by decide, hword⟩⟩
  | loop hword => exact ⟨_, _, rfl, .inr ⟨_, by decide, hword⟩⟩
  | assignment htarget =>
      obtain ⟨token, rest, rfl, starts⟩ := htarget.starts
      exact ⟨_, _, rfl, .inl starts⟩
  | effect hvalue =>
      obtain ⟨token, rest, rfl, starts⟩ := hvalue.starts
      exact ⟨_, _, rfl, .inl starts⟩

/-- Cases start with the word for a case. -/
theorem Grammar.States.starts_cases {tokens : List Token} {cases : List Case}
    (h : States tokens (.cases cases)) :
    tokens = [] ∧ cases = [] ∨ ∃ token rest, tokens = token :: rest ∧ Reserved "CASE" token := by
  cases h with
  | noCase => exact .inl ⟨rfl, rfl⟩
  | cases hword => exact .inr ⟨_, _, rfl, hword⟩

/-! ## What stands behind forms -/

/-- How strongly the operators of a level bind. -/
def Operator.Level.rank : Operator.Level → Nat
  | .logical => 0
  | .comparison => 1
  | .additive => 2
  | .multiplicative => 3

/-- The first word of a rest continues no expression whose operators have at least a given rank. -/
structure Unfollowed (rank : Nat) (rest : List Token) : Prop where
  noCall : Lacks "(" rest
  noIndex : Lacks "[" rest
  noOperator : ∀ level : Operator.Level, rank ≤ level.rank → ∀ token ∈ rest.head?,
    level.operator? token = none

theorem Unfollowed.mono {rank rank' : Nat} {rest : List Token} (h : Unfollowed rank rest)
    (stronger : rank ≤ rank') : Unfollowed rank' rest :=
  ⟨h.noCall, h.noIndex, fun level le => h.noOperator level (Nat.le_trans stronger le)⟩

/-- Whether a literal stands behind whole expressions only. -/
def closes (literal : String) : Bool :=
  !sameIgnoringCase literal "(" && !sameIgnoringCase literal "[" &&
    Operator.all.all fun operator => !sameIgnoringCase literal operator.symbol

theorem unfollowed_of_closes {token : Token} {rest : List Token} {literal : String}
    (fits : token.isLiteral literal = true) (closing : closes literal = true) (rank : Nat) :
    Unfollowed rank (token :: rest) := by
  simp only [closes, Bool.and_eq_true, Bool.not_eq_true', List.all_eq_true] at closing
  obtain ⟨⟨noCall, noIndex⟩, noOperator⟩ := closing
  refine ⟨lacks_of_isLiteral fits noCall,
    lacks_of_isLiteral fits noIndex, fun level _ token' htoken' => ?_⟩
  obtain rfl : token = token' := by simpa using htoken'
  refine Option.eq_none_iff_forall_ne_some.mpr fun operator found => ?_
  have mark := (operator?_eq_some.mp found).2.isLiteral
  rw [isLiteral_of_isLiteral fits (noOperator operator (by cases operator <;> decide))] at mark
  cases mark

/-- Behind an operator stands no operator of a stronger level. -/
theorem unfollowed_of_operator {level : Operator.Level} {operator : Operator} {token : Token}
    {rest : List Token} (member : operator ∈ level.operators) (mark : Mark operator.symbol token) :
    Unfollowed (level.rank + 1) (token :: rest) := by
  have apart : sameIgnoringCase operator.symbol "(" = false ∧
      sameIgnoringCase operator.symbol "[" = false := by
    cases operator <;> decide
  refine ⟨mark.lacks apart.1,
    mark.lacks apart.2, fun level' le token' htoken' => ?_⟩
  obtain rfl : token = token' := by simpa using htoken'
  refine Option.eq_none_iff_forall_ne_some.mpr fun operator' found => ?_
  obtain ⟨member', mark'⟩ := operator?_eq_some.mp found
  have same : some operator = some operator' := by
    rw [← Operator.ofSymbol?_symbol, ← Operator.ofSymbol?_symbol, ← mark.2, ← mark'.2]
  cases same
  revert member member' le
  cases level <;> cases level' <;> cases operator <;> decide

namespace Parser

/-! ## Repetition -/

section Repetition

variable {α : Type} {item : Parser α} {form : List Token → α → Prop} {tokens rest : List Token}
  {items : List α}

/-- Items of which a look at the cursor tells whether there is one more. -/
theorem takes_manyLooking {test : Cursor → Bool} {bound : Nat}
    (written : Sequence form tokens items)
    (takes : ∀ {tokens rest value}, form tokens value → Takes item (tokens ++ rest) value rest)
    (opens : ∀ {tokens rest value cursor}, form tokens value → cursor.rest = tokens ++ rest →
      test cursor = true)
    (filled : ∀ {tokens value}, form tokens value → 0 < tokens.length)
    (ended : ∀ {cursor}, cursor.rest = rest → test cursor = false)
    (enough : tokens.length ≤ bound) :
    Takes (manyWhile (fun cursor => .ok (test cursor) cursor) item bound) (tokens ++ rest) items
      rest := by
  have look : ∀ {tokens found}, (∀ {cursor}, cursor.rest = tokens → test cursor = found) →
      Takes (fun cursor => .ok (test cursor) cursor) tokens found tokens := by
    rintro tokens found tests cursor rfl classified
    exact ⟨cursor, congrArg (EStateM.Result.ok · cursor) (tests rfl), rfl, classified⟩
  induction written generalizing bound with
  | none =>
      cases bound with
      | zero => exact .pure
      | succ bound => exact .bind (look ended) .pure
  | more hfirst _ ih =>
      have positive := filled hfirst
      rw [List.length_append] at enough
      cases bound with
      | zero => omega
      | succ bound =>
          rw [List.append_assoc]
          exact .bind (look (opens hfirst)) (.bind (takes hfirst) (.bind (ih (by omega)) .pure))

/-- Items with commas between them, and the word that closes them. -/
theorem takes_separated {close : String} {closing : Token} {trailing : SyntaxError.Cause}
    {bound : Nat} (written : Separated form tokens items)
    (takes : ∀ {tokens rest value token}, form tokens value →
      token.isLiteral "," = true ∨ token.isLiteral close = true →
      Takes item (tokens ++ token :: rest) value (token :: rest))
    (opens : ∀ {tokens rest value}, form tokens value → AllClassified tokens →
      Lacks close (tokens ++ rest))
    (fits : closing.isLiteral close = true) (unlike : sameIgnoringCase close "," = false)
    (enough : tokens.length ≤ bound) :
    Takes (separated item close trailing bound) (tokens ++ closing :: rest) items rest := by
  induction written generalizing bound with
  | last hlast =>
      cases bound with
      | zero => exact .bind (takes hlast (.inr fits)) (.expect fits .pure)
      | succ bound =>
          refine .bind (takes hlast (.inr fits)) ?_
          exact .skip (lacks_of_isLiteral fits unlike) (.expect fits .pure)
  | @more tokens item comma behind items hfirst hcomma hbehind ih =>
      rw [List.length_append, List.length_cons] at enough
      cases bound with
      | zero => omega
      | succ bound =>
          rw [List.append_assoc]
          refine .bind (takes hfirst (.inl hcomma.isLiteral)) (.accept hcomma.isLiteral ?_)
          refine .of_classified fun classified => .peek ?_ (.bind (ih (by omega)) .pure)
          have inside := (AllClassified.append.mp classified).1
          cases hbehind with
          | last hnext => exact opens hnext inside
          | more hnext _ _ =>
              simpa using opens hnext (AllClassified.append.mp inside).1

/-- Items of a separated list are no longer than the list. -/
theorem separated_bounded {bound : Nat} (written : Separated form tokens items)
    (paid : tokens.length ≤ bound) :
    Separated (fun front value => form front value ∧ front.length ≤ bound) tokens items := by
  induction written with
  | last hlast => exact .last ⟨hlast, paid⟩
  | more hfirst hcomma _ ih =>
      rw [List.length_append, List.length_cons] at paid
      exact .more ⟨hfirst, by omega⟩ hcomma (ih (by omega))

end Repetition

end Parser

end TinyScript
