import Mathlib.Data.List.Forall2
import Mathlib.Data.Option.Basic
import TinyScript.Parse.Program
import TinyScript.Proofs.Tree.TypeNames

/-!
# Readers do not look at the spelling of reserved words

What a reader makes of words is settled by their kinds and texts, and a reserved word is compared
without regard to the case of its letters. Only the names of types are kept as they are written.
Words resemble each other if they may differ in the case of reserved words, as far as a given
function on texts leaves the difference (`Token.Resembles`): the identity leaves none at all. At two
places before such words readers come to the same, up to that function on the names of types, or
fail at the same word (`ReadAlike`). No offset is looked at either.
-/

namespace TinyScript

/-! ## Words -/

namespace Token

theorem isReserved_of_sameIgnoringCase {left right : String}
    (same : sameIgnoringCase left right = true) : isReserved left = isReserved right := by
  have hsame : sameIgnoringCase left = sameIgnoringCase right := by
    funext literal
    rw [sameIgnoringCase, sameIgnoringCase, eq_of_beq same]
  rw [isReserved, isReserved, hsame]

/-- Two words of one kind that are the same up to the case of reserved words. A given function on
texts does not tell them apart. -/
structure Resembles (fold : String → String) (token token' : Token) : Prop where
  kind : token.kind = token'.kind
  folded : fold token.text = fold token'.text
  text : token.text = token'.text ∨ token.kind = .identifier ∧ isReserved token.text = true ∧
    sameIgnoringCase token.text token'.text = true

namespace Resembles

variable {fold : String → String} {token token' : Token} (h : token.Resembles fold token')

include h

theorem isLiteral (literal : String) : token.isLiteral literal = token'.isLiteral literal := by
  rw [Token.isLiteral, Token.isLiteral, ← h.kind]
  rcases h.text with htext | ⟨hkind, -, hsame⟩
  · rw [htext]
  · rw [if_pos hkind, if_pos hkind, sameIgnoringCase, sameIgnoringCase, eq_of_beq hsame]

theorem isName : token.isName = token'.isName := by
  rw [Token.isName, Token.isName, ← h.kind]
  rcases h.text with htext | ⟨-, -, hsame⟩
  · rw [htext]
  · rw [isReserved_of_sameIgnoringCase hsame]

theorem text_of_isName (hname : token.isName = true) : token.text = token'.text := by
  refine h.text.resolve_right ?_
  rintro ⟨hkind, hreserved, -⟩
  rw [Token.isName, hreserved, Bool.not_true, Bool.and_false] at hname
  cases hname

theorem operator? (level : Operator.Level) : level.operator? token = level.operator? token' := by
  rw [Operator.Level.operator?, Operator.Level.operator?, ← h.kind]
  rcases h.text with htext | ⟨hkind, -, -⟩
  · rw [htext]
  · rw [hkind]
    rfl

/-- The value is the same, unless the word is an identifier and has none. -/
theorem literalOf : Parser.literalOf token = Parser.literalOf token' ∨
    Parser.literalOf token = .error (.reservedWord token.text) ∧
      Parser.literalOf token' = .error (.reservedWord token'.text) := by
  rcases h.text with htext | ⟨hkind, -, -⟩
  · rw [Parser.literalOf, Parser.literalOf, h.kind, htext]
    exact .inl rfl
  · rw [Parser.literalOf, Parser.literalOf, ← h.kind, hkind]
    exact .inr ⟨rfl, rfl⟩

end Resembles

end Token

/-- Two causes that differ at most in a text that they tell, which a given function does not tell
apart. -/
inductive SyntaxError.Cause.Resembles (fold : String → String) :
    SyntaxError.Cause → SyntaxError.Cause → Prop
  | telling (cause : String → SyntaxError.Cause) {text text' : String}
      (h : fold text = fold text') : Resembles fold (cause text) (cause text')

theorem SyntaxError.Cause.Resembles.refl {fold : String → String} (cause : SyntaxError.Cause) :
    cause.Resembles fold cause :=
  .telling (fun _ => cause) (rfl : fold "" = fold "")

/-! ## Places -/

namespace Cursor

/-- Two places with as many words behind them and words before them that resemble each other. -/
structure Resembles (fold : String → String) (cursor cursor' : Cursor) : Prop where
  rest : List.Forall₂ (Token.Resembles fold) cursor.rest cursor'.rest
  index : cursor.index = cursor'.index

namespace Resembles

variable {fold : String → String} {cursor cursor' : Cursor} (h : cursor.Resembles fold cursor')

include h

theorem remaining : cursor.remaining = cursor'.remaining := h.rest.length_eq

theorem current : Option.Rel (Token.Resembles fold) cursor.current cursor'.current := by
  obtain ⟨rest, index, _⟩ := cursor
  obtain ⟨rest', index', _⟩ := cursor'
  cases h.rest with
  | nil => exact .none
  | cons word _ => exact .some word

theorem advance : cursor.advance.Resembles fold cursor'.advance := by
  obtain ⟨rest, index, _⟩ := cursor
  obtain ⟨rest', index', _⟩ := cursor'
  obtain ⟨hrest, rfl⟩ := h
  cases hrest with
  | nil => exact ⟨.nil, rfl⟩
  | cons _ words => exact ⟨words, rfl⟩

theorem isLiteral (literal : String) : cursor.isLiteral literal = cursor'.isLiteral literal := by
  obtain ⟨rest, index, _⟩ := cursor
  obtain ⟨rest', index', _⟩ := cursor'
  cases h.rest with
  | nil => rfl
  | cons word _ => exact word.isLiteral literal

theorem any_isLiteral (literals : List String) :
    literals.any cursor.isLiteral = literals.any cursor'.isLiteral :=
  congrArg literals.any (funext h.isLiteral)

end Resembles

end Cursor

/-! ## Readers -/

namespace Parser

/-- Two values that a view does not tell apart. -/
abbrev Agree {α β : Type} (view : α → β) (a b : α) : Prop := view a = view b

theorem isEmpty_of_agree {α β : Type} {view : α → β} {xs ys : List α}
    (h : Agree (List.map view) xs ys) : xs.isEmpty = ys.isEmpty :=
  List.isEmpty_map.symm.trans ((congrArg List.isEmpty h).trans List.isEmpty_map)

variable {α β : Type} {fold : String → String}

/-- Two ends of reading: related values at places that resemble each other, or causes that do at the
same word. -/
inductive EndsAlike (fold : String → String) (R : α → α → Prop) :
    EStateM.Result SyntaxError Cursor α → EStateM.Result SyntaxError Cursor α → Prop
  | ok {a b : α} {cursor cursor' : Cursor} (value : R a b)
      (place : cursor.Resembles fold cursor') : EndsAlike fold R (.ok a cursor) (.ok b cursor')
  | error {error error' : SyntaxError} {cursor cursor' : Cursor}
      (cause : error.cause.Resembles fold error'.cause) (index : error.index = error'.index) :
      EndsAlike fold R (.error error cursor) (.error error' cursor')

/-- At places that resemble each other two readers end alike. -/
def ReadAlike (fold : String → String) (R : α → α → Prop) (p q : Parser α) : Prop :=
  ∀ cursor cursor' : Cursor, cursor.Resembles fold cursor' →
    EndsAlike fold R (p cursor) (q cursor')

/-- A reader that gives the same value from words that resemble each other. -/
abbrev IgnoresSpelling (fold : String → String) (p : Parser α) : Prop := ReadAlike fold Eq p p

namespace ReadAlike

variable {R : α → α → Prop} {S : β → β → Prop} {p q p' q' : Parser α} {f g : α → Parser β}

protected theorem pure {a b : α} (h : R a b) : ReadAlike fold R (pure a) (pure b) :=
  fun _ _ halike => .ok h halike

protected theorem bind (first : ReadAlike fold R p q)
    (second : ∀ a b, R a b → ReadAlike fold S (f a) (g b)) :
    ReadAlike fold S (p >>= f) (q >>= g) := by
  intro cursor cursor' halike
  show EndsAlike fold S (EStateM.bind p f cursor) (EStateM.bind q g cursor')
  have hends := first cursor cursor' halike
  unfold EStateM.bind
  generalize p cursor = result at hends ⊢
  generalize q cursor' = result' at hends ⊢
  cases hends with
  | ok value place => exact second _ _ value _ _ place
  | error cause index => exact .error cause index

theorem mono {S : α → α → Prop} (h : ReadAlike fold R p q) (himp : ∀ a b, R a b → S a b) :
    ReadAlike fold S p q := by
  intro cursor cursor' halike
  have hends := h cursor cursor' halike
  generalize p cursor = result at hends ⊢
  generalize q cursor' = result' at hends ⊢
  cases hends with
  | ok value place => exact .ok (himp _ _ value) place
  | error cause index => exact .error cause index

/-- What is read first may be the same. -/
theorem bindSame (first : ReadAlike fold Eq p q)
    (second : ∀ a, ReadAlike fold S (f a) (g a)) : ReadAlike fold S (p >>= f) (q >>= g) := by
  refine first.bind ?_
  rintro a _ rfl
  exact second a

protected theorem map {f : α → β} (h : ReadAlike fold Eq p p) :
    ReadAlike fold Eq (f <$> p) (f <$> p) := by
  rw [map_eq_pure_bind]
  exact h.bindSame fun a => .pure rfl

protected theorem ite {condition : Prop} [Decidable condition] (yes : ReadAlike fold R p q)
    (no : ReadAlike fold R p' q') :
    ReadAlike fold R (if condition then p else p') (if condition then q else q') := by
  split
  · exact yes
  · exact no

theorem fail (cause : SyntaxError.Cause) :
    ReadAlike fold R (Parser.fail cause) (Parser.fail cause) :=
  fun _ _ halike => .error (.refl cause) halike.index

theorem failTelling (cause : String → SyntaxError.Cause) {text text' : String}
    (h : fold text = fold text') :
    ReadAlike fold R (Parser.fail (cause text)) (Parser.fail (cause text')) :=
  fun _ _ halike => .error (.telling cause h) halike.index

theorem failFinding (cause : Option String → SyntaxError.Cause) :
    ReadAlike fold R (Parser.failFinding cause) (Parser.failFinding cause) := by
  intro cursor cursor' halike
  refine .error ?_ halike.index
  have hhead := halike.current
  show (cause (cursor.current.map Token.text)).Resembles fold
    (cause (cursor'.current.map Token.text))
  generalize cursor.current = head at hhead ⊢
  generalize cursor'.current = head' at hhead ⊢
  cases hhead with
  | none => exact .refl _
  | some word => exact .telling (cause <| some ·) word.folded

/-- A check of what has been read may come between. -/
theorem check {bad bad' : Bool} {cause : SyntaxError.Cause} {next next' : Unit → Parser α}
    (hbad : bad = bad') (h : ReadAlike fold R (next ()) (next' ())) :
    ReadAlike fold R (if bad then Parser.fail cause >>= next else next ())
      (if bad' then Parser.fail cause >>= next' else next' ()) := by
  subst hbad
  refine .ite ?_ h
  exact (fail (R := Eq) cause).bindSame fun _ => h

theorem current :
    ReadAlike fold (Option.Rel (Token.Resembles fold)) Parser.current Parser.current :=
  fun _ _ halike => .ok halike.current halike

theorem advance : IgnoresSpelling fold Parser.advance :=
  fun _ _ halike => .ok rfl halike.advance

theorem remaining : IgnoresSpelling fold Parser.remaining :=
  fun _ _ halike => .ok halike.remaining halike

theorem peek (literal : String) : IgnoresSpelling fold (Parser.peek literal) :=
  fun _ _ halike => .ok (halike.isLiteral literal) halike

theorem accept (literal : String) : IgnoresSpelling fold (Parser.accept literal) := by
  intro cursor cursor' halike
  rw [Parser.accept, Parser.acceptIf, Parser.acceptIf, halike.isLiteral literal]
  split
  · exact .ok rfl halike.advance
  · exact .ok rfl halike

theorem expect (literal : String) : IgnoresSpelling fold (Parser.expect literal) :=
  (accept literal).bindSame fun _ => .ite (.pure rfl) (.failFinding _)

theorem expectToken {test : Token → Bool} (cause : Option String → SyntaxError.Cause)
    (htest : ∀ token token', token.Resembles fold token' → test token = test token') :
    ReadAlike fold (fun token token' => test token = true ∧ token.Resembles fold token')
      (Parser.expectToken test cause) (Parser.expectToken test cause) := by
  refine current.bind fun head head' hhead => ?_
  cases hhead with
  | none => exact failFinding cause
  | @some token token' word =>
      simp only [← htest token token' word]
      split
      next hfits => exact advance.bindSame fun _ => .pure ⟨hfits, word⟩
      · exact failFinding cause

theorem name : IgnoresSpelling fold Parser.name :=
  (expectToken _ fun _ _ word => word.isName).bind fun _ _ word =>
    .pure (word.2.text_of_isName word.1)

theorem typeName : ReadAlike fold (Agree fold) Parser.typeName Parser.typeName := by
  refine (expectToken _ fun token token' word => ?_).bind fun _ _ word => .pure word.2.folded
  rw [word.kind]

theorem typeAnnotation :
    ReadAlike fold (Agree (Option.map fold)) Parser.typeAnnotation Parser.typeAnnotation :=
  (accept ":").bindSame fun _ => .ite
    (typeName.bind fun _ _ h => .pure (congrArg some h)) (.pure rfl)

/-! ### Repetition -/

section Repetition

variable {γ : Type} {view : α → γ} {item : Parser α} (hitem : ReadAlike fold (Agree view) item item)

include hitem

theorem manyWhile {more : Parser Bool} (hmore : IgnoresSpelling fold more) (bound : Nat) :
    ReadAlike fold (Agree (List.map view)) (Parser.manyWhile more item bound)
      (Parser.manyWhile more item bound) := by
  induction bound with
  | zero => exact .pure rfl
  | succ bound ih =>
      refine hmore.bindSame fun _ => .ite ?_ (.pure rfl)
      exact hitem.bind fun _ _ first => ih.bind fun _ _ rest =>
        .pure (congrArg₂ List.cons first rest)

theorem separated {close : String} {trailing : SyntaxError.Cause} (bound : Nat) :
    ReadAlike fold (Agree (List.map view)) (Parser.separated item close trailing bound)
      (Parser.separated item close trailing bound) := by
  have alone : ∀ last last' : α, Agree view last last' →
      ReadAlike fold (Agree (List.map view)) (do Parser.expect close; pure [last])
        (do Parser.expect close; pure [last']) :=
    fun _ _ h => (expect close).bindSame fun _ => .pure (congrArg₂ List.cons h rfl)
  induction bound with
  | zero => exact hitem.bind alone
  | succ bound ih =>
      refine hitem.bind fun first first' h => ?_
      refine (accept ",").bindSame fun _ => .ite ?_ (alone first first' h)
      exact (peek close).bindSame fun _ => .check rfl
        (ih.bind fun _ _ rest => .pure (congrArg₂ List.cons h rest))

end Repetition

/-! ### Expressions -/

theorem operator (level : Operator.Level) : IgnoresSpelling fold (Parser.operator level) := by
  refine current.bind fun head head' hhead => ?_
  cases hhead with
  | none => exact .pure rfl
  | some word =>
      simp only [Option.bind_some, word.operator? level]
      split
      · exact advance.bindSame fun _ => .pure rfl
      · exact .pure rfl

section Primaries

variable {expression : Parser Expression} (h : IgnoresSpelling fold expression)

include h

theorem expressionList (close : String) :
    IgnoresSpelling fold (Parser.expressionList expression close) := by
  have hitem : ReadAlike fold (Agree id) expression expression := h
  refine remaining.bindSame fun bound =>
    (hitem.separated bound).mono fun elements elements' hsame => ?_
  rwa [Agree, List.map_id, List.map_id] at hsame

theorem afterName (name : String) :
    IgnoresSpelling fold (Parser.afterName expression name) := by
  refine (accept "(").bindSame fun _ => .ite ?_ ?_
  · refine (accept ")").bindSame fun _ => .ite (.pure rfl) ?_
    exact (h.expressionList ")").bindSame fun _ => .pure rfl
  · refine (accept "[").bindSame fun _ => .ite ?_ (.pure rfl)
    exact h.bindSame fun _ => (expect "]").bindSame fun _ => .pure rfl

theorem atom : IgnoresSpelling fold (Parser.atom expression) := by
  refine current.bind fun head head' hhead => ?_
  cases hhead with
  | none => exact .fail _
  | @some token token' word =>
      simp only [← word.isName]
      split
      next hname =>
        rw [← word.text_of_isName hname]
        exact advance.bindSame fun _ => h.afterName token.text
      · rcases word.literalOf with hsame | ⟨hreserved, hreserved'⟩
        · rw [hsame]
          split
          · exact advance.bindSame fun _ => .pure rfl
          · exact .fail _
        · rw [hreserved, hreserved']
          exact .failTelling .reservedWord word.folded

theorem primaryOver : IgnoresSpelling fold (Parser.primaryOver expression) := by
  refine (accept "NIL").bindSame fun _ => .ite (.pure rfl) ?_
  refine (accept "TRUE").bindSame fun _ => .ite (.pure rfl) ?_
  refine (accept "FALSE").bindSame fun _ => .ite (.pure rfl) ?_
  refine (accept "(").bindSame fun _ => .ite ?_ h.atom
  exact h.bindSame fun _ => (expect ")").bindSame fun _ => .pure rfl

end Primaries

section Levels

variable {operand : Parser Expression} (h : IgnoresSpelling fold operand)

include h

theorem operands (level : Operator.Level) (bound : Nat) (left : Expression) :
    IgnoresSpelling fold (Parser.operands level operand bound left) := by
  induction bound generalizing left with
  | zero => exact .pure rfl
  | succ bound ih =>
      refine (operator level).bindSame fun found => ?_
      cases found with
      | none => exact .pure rfl
      | some operator => exact h.bindSame fun right => ih _

theorem joined (level : Operator.Level) : IgnoresSpelling fold (Parser.joined level operand) :=
  h.bindSame fun first => remaining.bindSame fun bound => h.operands level bound first

theorem logicalOver : IgnoresSpelling fold (Parser.logicalOver operand) :=
  (((h.joined .multiplicative).joined .additive).joined .comparison).joined .logical

end Levels

theorem primaryWithin (bound : Nat) : IgnoresSpelling fold (Parser.primaryWithin bound) := by
  induction bound with
  | zero => exact .fail _
  | succ bound ih => exact ih.logicalOver.primaryOver

theorem expression : IgnoresSpelling fold Parser.expression :=
  remaining.bindSame fun bound => (primaryWithin bound).logicalOver

/-! ### Statements -/

theorem declaration : ReadAlike fold (Agree (Statement.mapTypeNames fold)) Parser.declaration
    Parser.declaration := by
  refine name.bindSame fun name => typeAnnotation.bind fun typeName typeName' h => ?_
  have close : ∀ value : Option Expression, ReadAlike fold (Agree (Statement.mapTypeNames fold))
      (do Parser.expect ";"; return Statement.declaration name typeName value none)
      (do Parser.expect ";"; return Statement.declaration name typeName' value none) :=
    fun value => (expect ";").bindSame fun _ =>
      .pure (congrArg (Statement.declaration name · value none) h)
  refine (accept "=").bindSame fun _ => .ite ?_ ?_
  · exact (ReadAlike.map expression).bindSame close
  · exact (ReadAlike.pure rfl).bindSame close

theorem result : IgnoresSpelling fold Parser.result :=
  expression.bindSame fun _ => (expect ";").bindSame fun _ => .pure rfl

theorem effect : IgnoresSpelling fold Parser.effect := by
  refine expression.bindSame fun _ => (accept "=").bindSame fun _ => .ite ?_ ?_
  · exact expression.bindSame fun _ => (expect ";").bindSame fun _ => .pure rfl
  · exact (expect ";").bindSame fun _ => .pure rfl

section Blocks

variable {block : Parser (List Statement)}
  (h : ReadAlike fold (Agree (List.map (Statement.mapTypeNames fold))) block block)

include h

theorem case : ReadAlike fold (Agree (Case.mapTypeNames fold)) (Parser.case block)
    (Parser.case block) := by
  refine expression.bindSame fun _ => (expect ":").bindSame fun _ => h.bind fun _ _ hbody => ?_
  exact .pure (by rw [Agree, Case.mapTypeNames_mk, Case.mapTypeNames_mk, hbody])

theorem switch : ReadAlike fold (Agree (Statement.mapTypeNames fold)) (Parser.switch block)
    (Parser.switch block) := by
  refine expression.bindSame fun _ => remaining.bindSame fun bound => ?_
  refine (h.case.manyWhile (accept "CASE") bound).bind fun cases cases' hcases => ?_
  refine .check (isEmpty_of_agree hcases) ?_
  refine (expect "DEFAULT").bindSame fun _ => h.bind fun last last' hlast => ?_
  refine (expect "END").bindSame fun _ => .pure ?_
  rw [Agree, Statement.mapTypeNames_switch, Statement.mapTypeNames_switch, List.map_append,
    List.map_append, hcases, List.map_singleton, List.map_singleton, Case.mapTypeNames_mk,
    Case.mapTypeNames_mk, hlast]

theorem branch : ReadAlike fold (Agree (Statement.mapTypeNames fold)) (Parser.branch block)
    (Parser.branch block) := by
  refine expression.bindSame fun condition => (expect "DO").bindSame fun _ => ?_
  refine h.bind fun thenBody thenBody' hthen => .check (isEmpty_of_agree hthen) ?_
  have close : ∀ elseBody elseBody', Agree (List.map (Statement.mapTypeNames fold)) elseBody
      elseBody' → ReadAlike fold (Agree (Statement.mapTypeNames fold))
        (do Parser.expect "END"; return Statement.branch condition thenBody elseBody)
        (do Parser.expect "END"; return Statement.branch condition thenBody' elseBody') := by
    intro elseBody elseBody' helse
    refine (expect "END").bindSame fun _ => .pure ?_
    rw [Agree, Statement.mapTypeNames_branch, Statement.mapTypeNames_branch, hthen, helse]
  exact (accept "ELSE").bindSame fun _ => .ite (h.bind close)
    ((ReadAlike.pure (R := Agree (List.map (Statement.mapTypeNames fold))) rfl).bind close)

theorem loop : ReadAlike fold (Agree (Statement.mapTypeNames fold)) (Parser.loop block)
    (Parser.loop block) := by
  refine expression.bindSame fun _ => (expect "DO").bindSame fun _ => h.bind fun _ _ hbody => ?_
  refine (expect "END").bindSame fun _ => .pure ?_
  rw [Agree, Statement.mapTypeNames_loop, Statement.mapTypeNames_loop, hbody]

theorem statementOver : ReadAlike fold (Agree (Statement.mapTypeNames fold))
    (Parser.statementOver block) (Parser.statementOver block) := by
  refine (accept "LET").bindSame fun _ => .ite declaration ?_
  refine (accept "SWITCH").bindSame fun _ => .ite h.switch ?_
  refine (accept "IF").bindSame fun _ => .ite h.branch ?_
  refine (accept "WHILE").bindSame fun _ => .ite h.loop ?_
  exact (accept "RETURN").bindSame fun _ => .ite
    (result.mono fun _ _ h => congrArg _ h) (effect.mono fun _ _ h => congrArg _ h)

end Blocks

theorem atBlockEnd : IgnoresSpelling fold Parser.atBlockEnd := by
  intro cursor cursor' halike
  have hempty : cursor.rest.isEmpty = cursor'.rest.isEmpty := by
    rw [Bool.eq_iff_iff, List.isEmpty_iff_length_eq_zero, List.isEmpty_iff_length_eq_zero,
      halike.rest.length_eq]
  rw [Parser.atBlockEnd, Parser.atBlockEnd, hempty]
  split
  · exact fail _ _ _ halike
  · exact .ok (halike.any_isLiteral blockEnds) halike

theorem statements {statement : Parser Statement}
    (h : ReadAlike fold (Agree (Statement.mapTypeNames fold)) statement statement) (bound : Nat) :
    ReadAlike fold (Agree (List.map (Statement.mapTypeNames fold)))
      (Parser.statements statement bound) (Parser.statements statement bound) := by
  induction bound with
  | zero => exact .fail _
  | succ bound ih =>
      refine atBlockEnd.bindSame fun _ => .ite (.pure rfl) ?_
      refine h.bind fun _ _ first => ih.bind fun _ _ rest => .pure ?_
      rw [Agree, List.map_cons, List.map_cons, first, rest]

theorem blockOver {statement : Parser Statement}
    (h : ReadAlike fold (Agree (Statement.mapTypeNames fold)) statement statement) :
    ReadAlike fold (Agree (List.map (Statement.mapTypeNames fold))) (Parser.blockOver statement)
      (Parser.blockOver statement) :=
  remaining.bindSame fun bound => h.statements bound

theorem statementWithin (bound : Nat) : ReadAlike fold (Agree (Statement.mapTypeNames fold))
    (Parser.statementWithin bound) (Parser.statementWithin bound) := by
  induction bound with
  | zero => exact statementOver (.fail _)
  | succ bound ih => exact ih.blockOver.statementOver

theorem block : ReadAlike fold (Agree (List.map (Statement.mapTypeNames fold))) Parser.block
    Parser.block :=
  remaining.bindSame fun bound => (statementWithin bound).blockOver

/-! ### Programs -/

theorem listGlobal :
    ReadAlike fold (Agree (Global.mapTypeNames fold)) Parser.listGlobal Parser.listGlobal := by
  refine name.bindSame fun name => typeAnnotation.bind fun _ _ h => ?_
  refine (expect "=").bindSame fun _ => (expect "[").bindSame fun _ => ?_
  refine (expression.expressionList "]").bindSame fun elements => .pure ?_
  exact congrArg (Global.mk name · true (some (.list elements none)) none) h

theorem variableGlobal (isMutable : Bool) : ReadAlike fold (Agree (Global.mapTypeNames fold))
    (Parser.variableGlobal isMutable) (Parser.variableGlobal isMutable) := by
  refine name.bindSame fun name => typeAnnotation.bind fun _ _ h => ?_
  have hglobal : ∀ value : Option Expression, _ := fun value =>
    congrArg (Global.mk name · isMutable value none) h
  refine (accept "=").bindSame fun _ => .ite ?_ ?_
  · exact expression.bindSame fun value => .pure (hglobal (some value))
  · exact .ite (.pure (hglobal none)) (.fail _)

theorem global : ReadAlike fold (Agree (Global.mapTypeNames fold)) Parser.global Parser.global := by
  have opened : ReadAlike fold (Agree (Global.mapTypeNames fold)) Parser.openGlobal
      Parser.openGlobal := by
    refine (accept "LIST").bindSame fun _ => .ite listGlobal ?_
    refine (accept "VAR").bindSame fun _ => .ite (variableGlobal true) ?_
    exact (accept "VAL").bindSame fun _ => .ite (variableGlobal false) (.fail _)
  exact opened.bind fun _ _ h => (expect ";").bindSame fun _ => .pure h

theorem parameter : ReadAlike fold (Agree (Parameter.mapTypeNames fold)) Parser.parameter
    Parser.parameter :=
  name.bindSame fun name => (expect ":").bindSame fun _ => typeName.bind fun _ _ h =>
    .pure (congrArg (Parameter.mk name) h)

theorem parameters : ReadAlike fold (Agree (List.map (Parameter.mapTypeNames fold)))
    Parser.parameters Parser.parameters := by
  refine (accept ")").bindSame fun _ => .ite (.pure rfl) ?_
  exact remaining.bindSame fun bound => parameter.separated bound

theorem function : ReadAlike fold (Agree (Function.mapTypeNames fold)) Parser.function
    Parser.function := by
  refine (expect "FUN").bindSame fun _ => name.bindSame fun _ => (expect "(").bindSame fun _ => ?_
  refine parameters.bind fun _ _ hparameters => typeAnnotation.bind fun _ _ hreturns => ?_
  refine (expect "DO").bindSame fun _ => block.bind fun _ _ hbody => ?_
  refine (expect "END").bindSame fun _ => .pure ?_
  simp only [Agree, Function.mapTypeNames, hparameters, hreturns, hbody]

theorem startsGlobal : IgnoresSpelling fold Parser.startsGlobal :=
  fun _ _ halike => .ok (halike.any_isLiteral _) halike

theorem program : ReadAlike fold (Agree (Program.mapTypeNames fold)) Parser.program
    Parser.program := by
  refine remaining.bindSame fun bound => ?_
  refine (global.manyWhile startsGlobal bound).bind fun _ _ hglobals => ?_
  refine remaining.bindSame fun bound => ?_
  refine (function.manyWhile (peek "FUN") bound).bind fun _ _ hfunctions => ?_
  refine .check (isEmpty_of_agree hfunctions) (current.bind fun head head' hhead => ?_)
  cases hhead with
  | none => exact .pure (by simp only [Agree, Program.mapTypeNames, hglobals, hfunctions])
  | some word => exact .failTelling .afterLastFunction word.folded

end ReadAlike

end Parser

/-- Two outcomes of reading: the same program up to the names of types, or causes that resemble each
other at the same word. -/
inductive ParsedAlike (fold : String → String) :
    Except SyntaxError Program → Except SyntaxError Program → Prop
  | read {tree tree' : Program} (same : tree.mapTypeNames fold = tree'.mapTypeNames fold) :
      ParsedAlike fold (.ok tree) (.ok tree')
  | refused {error error' : SyntaxError} (cause : error.cause.Resembles fold error'.cause)
      (index : error.index = error'.index) : ParsedAlike fold (.error error) (.error error')

theorem parse_resembling {fold : String → String} {tokens tokens' : List Token}
    (h : List.Forall₂ (Token.Resembles fold) tokens tokens') :
    ParsedAlike fold (Program.parse tokens) (Program.parse tokens') := by
  have hends := Parser.ReadAlike.program (Cursor.start tokens) (Cursor.start tokens') ⟨h, rfl⟩
  unfold Program.parse Parser.run
  generalize Parser.program (Cursor.start tokens) = result at hends ⊢
  generalize Parser.program (Cursor.start tokens') = result' at hends ⊢
  cases hends with
  | ok tree _ => exact .read tree
  | error cause index => exact .refused cause index

end TinyScript
