import TinyScript.Parse.Program
import TinyScript.Proofs.Literals
import TinyScript.Proofs.Sequencing

/-!
# Literals of a program come from its words

A property of literals that the three literal keywords have, and every literal that a word stands
for, is one that all literals of a program that is read have (`forall_literals_of_parse`). Nothing
is asked of the words. The proofs follow the productions and look at what a parser returns only
(`Produces`), not at the words that it takes.
-/

namespace TinyScript

/-- Whatever a parser returns has a property. -/
def Produces {α : Type} (parser : Parser α) (property : α → Prop) : Prop :=
  ∀ cursor value cursor', parser cursor = .ok value cursor' → property value

namespace Produces

variable {α β : Type} {p q : Parser α} {property : α → Prop}

protected theorem pure {a : α} (h : property a) : Produces (pure a) property := by
  intro cursor value cursor' ran
  obtain ⟨rfl, -⟩ := pure_eq_ok.mp ran
  exact h

protected theorem bind {f : α → Parser β} {whole : β → Prop} (first : Produces p property)
    (second : ∀ a, property a → Produces (f a) whole) : Produces (p >>= f) whole := by
  intro cursor b cursor' ran
  obtain ⟨a, middle, ran, ran'⟩ := bind_eq_ok.mp ran
  exact second a (first cursor a middle ran) middle b cursor' ran'

/-- Nothing has to be known of what the first part returns. -/
theorem after {f : α → Parser β} {whole : β → Prop} (second : ∀ a, Produces (f a) whole) :
    Produces (p >>= f) whole := by
  intro cursor b cursor' ran
  obtain ⟨a, middle, -, ran'⟩ := bind_eq_ok.mp ran
  exact second a middle b cursor' ran'

theorem fail (cause : SyntaxError.Cause) : Produces (Parser.fail cause) property :=
  fun _ _ _ => nofun

theorem pure_bind {a : α} {f : α → Parser β} {whole : β → Prop} (h : Produces (f a) whole) :
    Produces (pure a >>= f) whole := h

/-- A failure returns nothing, whatever would come behind it. -/
theorem fail_bind {cause : SyntaxError.Cause} {f : β → Parser α} :
    Produces (Parser.fail cause >>= f) property :=
  fun _ _ _ => nofun

protected theorem map {f : α → β} {whole : β → Prop} (produces : Produces p fun a => whole (f a)) :
    Produces (f <$> p) whole := by
  intro cursor b cursor' ran
  obtain ⟨a, ran', rfl⟩ := map_eq_ok.mp ran
  exact produces cursor a cursor' ran'

protected theorem ite {condition : Prop} [Decidable condition] (yes : Produces p property)
    (no : Produces q property) : Produces (if condition then p else q) property := by
  split
  · exact yes
  · exact no

/-! ### Repetition -/

theorem manyWhile {more : Parser Bool} (item : Produces p property) (bound : Nat) :
    Produces (Parser.manyWhile more p bound) fun items => ∀ a ∈ items, property a := by
  induction bound with
  | zero => exact .pure (fun _ => nofun)
  | succ bound ih =>
      refine .after fun again => .ite ?_ (.pure fun _ => nofun)
      exact item.bind fun a ha => ih.bind fun items hitems =>
        .pure (List.forall_mem_cons.mpr ⟨ha, hitems⟩)

theorem separated {close : String} {trailing : SyntaxError.Cause} (item : Produces p property)
    (bound : Nat) :
    Produces (Parser.separated p close trailing bound) fun items => ∀ a ∈ items, property a := by
  have alone : ∀ a, property a → Produces (do Parser.expect close; pure [a])
      fun items => ∀ b ∈ items, property b :=
    fun a ha => .after fun _ => .pure (List.forall_mem_singleton.mpr ha)
  induction bound with
  | zero => exact item.bind alone
  | succ bound ih =>
      refine item.bind fun a ha => .after fun comma => .ite ?_ (alone a ha)
      refine .after fun closed => .ite .fail_bind (ih.bind fun items hitems => ?_)
      exact .pure (List.forall_mem_cons.mpr ⟨ha, hitems⟩)

end Produces

/-- A property of the literals that words stand for. -/
structure OfWords (P : Literal → Prop) : Prop where
  nil : P .nil
  boolean : ∀ value, P (.boolean value)
  word : ∀ {token literal}, Parser.literalOf token = .ok literal → P literal

/-! ## Lists of literals -/

section Lists

variable {P : Literal → Prop}

theorem forall_literalsOf {expressions : List Expression} :
    (∀ literal ∈ literalsOf expressions, P literal) ↔
      ∀ expression ∈ expressions, ∀ literal ∈ expression.literals, P literal := by
  induction expressions with
  | nil => simp [literalsOf]
  | cons expression expressions ih =>
      rw [literalsOf, List.forall_mem_append, List.forall_mem_cons, ih]

theorem literalsOfCases_singleton (value : Option Expression) (body : List Statement) :
    literalsOfCases [.mk value body] =
      value.elim [] Expression.literals ++ literalsOfStatements body := by
  rw [literalsOfCases, literalsOfCases, List.append_nil]

theorem forall_literalsOfCases {cases : List Case} :
    (∀ literal ∈ literalsOfCases cases, P literal) ↔
      ∀ case ∈ cases, ∀ literal ∈ literalsOfCases [case], P literal := by
  induction cases with
  | nil => simp [literalsOfCases]
  | cons case cases ih =>
      obtain ⟨value, body⟩ := case
      rw [List.forall_mem_cons, ← ih, literalsOfCases_singleton, literalsOfCases,
        ← List.append_assoc, List.forall_mem_append]

end Lists

namespace Parser

section Productions

variable {P : Literal → Prop}

/-! ## Expressions -/

section Primaries

variable {expression : Parser Expression}
  (produces : Produces expression fun value => ∀ literal ∈ value.literals, P literal)
include produces

theorem produces_expressionList (close : String) :
    Produces (expressionList expression close) fun expressions =>
      ∀ literal ∈ literalsOf expressions, P literal :=
  .after fun bound cursor expressions cursor' ran =>
    forall_literalsOf.mpr (produces.separated bound cursor expressions cursor' ran)

theorem produces_afterName (name : String) :
    Produces (afterName expression name) fun value => ∀ literal ∈ value.literals, P literal := by
  refine .after fun opened => .ite (.after fun closed => .ite ?_ ?_) (.after fun indexed => ?_)
  · exact .pure fun _ => nofun
  · exact (produces_expressionList produces _).bind fun arguments harguments => .pure harguments
  · refine .ite ?_ (.pure fun _ => nofun)
    exact produces.bind fun index hindex => .after fun _ => .pure hindex

theorem produces_atom (words : OfWords P) :
    Produces (atom expression) fun value => ∀ literal ∈ value.literals, P literal := by
  refine .after fun found => ?_
  cases found with
  | none => exact .fail _
  | some token =>
      refine .ite (.after fun _ => produces_afterName produces token.text) ?_
      cases decoded : literalOf token with
      | error cause => exact .fail cause
      | ok literal =>
          exact .after fun _ => .pure (List.forall_mem_singleton.mpr (words.word decoded))

theorem produces_primaryOver (words : OfWords P) :
    Produces (primaryOver expression) fun value => ∀ literal ∈ value.literals, P literal := by
  have constant : ∀ literal, P literal → Produces (pure (Expression.literal literal none))
      fun value => ∀ literal ∈ value.literals, P literal :=
    fun literal h => .pure (List.forall_mem_singleton.mpr h)
  refine .after fun _ => .ite (constant .nil words.nil) ?_
  refine .after fun _ => .ite (constant (.boolean true) (words.boolean true)) ?_
  refine .after fun _ => .ite (constant (.boolean false) (words.boolean false)) ?_
  refine .after fun _ => .ite ?_ (produces_atom produces words)
  exact produces.bind fun inner hinner => .after fun _ => .pure hinner

end Primaries

section Levels

variable {level : Operator.Level} {operand : Parser Expression}
  (produces : Produces operand fun value => ∀ literal ∈ value.literals, P literal)
include produces

theorem produces_operands (bound : Nat) {left : Expression}
    (hleft : ∀ literal ∈ left.literals, P literal) :
    Produces (operands level operand bound left) fun value =>
      ∀ literal ∈ value.literals, P literal := by
  induction bound generalizing left with
  | zero => exact .pure hleft
  | succ bound ih =>
      refine .after fun found => ?_
      cases found with
      | none => exact .pure hleft
      | some operator =>
          exact produces.bind fun right hright => ih (List.forall_mem_append.mpr ⟨hleft, hright⟩)

theorem produces_joined :
    Produces (joined level operand) fun value => ∀ literal ∈ value.literals, P literal :=
  produces.bind fun _ hfirst => .after fun bound => produces_operands produces bound hfirst

end Levels

theorem produces_logicalOver {primary : Parser Expression}
    (produces : Produces primary fun value => ∀ literal ∈ value.literals, P literal) :
    Produces (logicalOver primary) fun value => ∀ literal ∈ value.literals, P literal :=
  produces_joined (produces_joined (produces_joined (produces_joined produces)))

variable (words : OfWords P)
include words

theorem produces_logicalOver_primaryWithin (bound : Nat) :
    Produces (logicalOver (primaryWithin bound)) fun value =>
      ∀ literal ∈ value.literals, P literal := by
  have primary : Produces (primaryWithin bound) fun value =>
      ∀ literal ∈ value.literals, P literal := by
    induction bound with
    | zero => exact .fail _
    | succ bound ih =>
        exact produces_primaryOver (produces_logicalOver ih) words
  exact produces_logicalOver primary

theorem produces_expression :
    Produces expression fun value => ∀ literal ∈ value.literals, P literal :=
  .after fun bound => produces_logicalOver_primaryWithin words bound

/-! ## Statements -/

theorem produces_declaration :
    Produces declaration fun statement => ∀ literal ∈ statement.literals, P literal := by
  refine .after fun name => .after fun typeName => .after fun given => .ite ?_ ?_
  · have value : Produces (some <$> expression) fun value =>
        ∀ literal ∈ value.elim [] Expression.literals, P literal :=
      .map (produces_expression words)
    exact value.bind fun value hvalue => .after fun _ => .pure hvalue
  · exact .pure_bind (.after fun _ => .pure fun _ => nofun)

theorem produces_result :
    Produces result fun statement => ∀ literal ∈ statement.literals, P literal :=
  (produces_expression words).bind fun _ hvalue => .after fun _ => .pure hvalue

theorem produces_effect :
    Produces effect fun statement => ∀ literal ∈ statement.literals, P literal := by
  refine (produces_expression words).bind fun first hfirst => .after fun assigned => .ite ?_ ?_
  · exact (produces_expression words).bind fun value hvalue => .after fun _ =>
      .pure (List.forall_mem_append.mpr ⟨hfirst, hvalue⟩)
  · exact .after fun _ => .pure hfirst

section Blocks

variable {block : Parser (List Statement)}
  (produces : Produces block fun body => ∀ literal ∈ literalsOfStatements body, P literal)
include produces

theorem produces_branch :
    Produces (branch block) fun statement => ∀ literal ∈ statement.literals, P literal := by
  refine (produces_expression words).bind fun condition hcondition => .after fun _ => ?_
  refine produces.bind fun thenBody hthen => .ite .fail_bind ?_
  have close : ∀ elseBody, (∀ literal ∈ literalsOfStatements elseBody, P literal) →
      Produces (do expect "END"; return Statement.branch condition thenBody elseBody)
        fun statement => ∀ literal ∈ statement.literals, P literal :=
    fun elseBody helse => .after fun _ => .pure (List.forall_mem_append.mpr
      ⟨hcondition, List.forall_mem_append.mpr ⟨hthen, helse⟩⟩)
  exact .after fun alternative => .ite (produces.bind close) (.pure_bind (close [] fun _ => nofun))

theorem produces_loop :
    Produces (loop block) fun statement => ∀ literal ∈ statement.literals, P literal := by
  refine (produces_expression words).bind fun condition hcondition => .after fun _ => ?_
  exact produces.bind fun body hbody => .after fun _ =>
    .pure (List.forall_mem_append.mpr ⟨hcondition, hbody⟩)

theorem produces_case :
    Produces (case block) fun case => ∀ literal ∈ literalsOfCases [case], P literal := by
  refine (produces_expression words).bind fun value hvalue => .after fun _ => ?_
  refine produces.bind fun body hbody => .pure ?_
  rw [literalsOfCases_singleton]
  exact List.forall_mem_append.mpr ⟨hvalue, hbody⟩

theorem produces_switch :
    Produces (switch block) fun statement => ∀ literal ∈ statement.literals, P literal := by
  refine (produces_expression words).bind fun condition hcondition => .after fun bound => ?_
  refine ((produces_case words produces).manyWhile bound).bind fun cases hcases => ?_
  refine .ite .fail_bind (.after fun _ => produces.bind fun last hlast => .after fun _ => .pure ?_)
  refine List.forall_mem_append.mpr ⟨hcondition, forall_literalsOfCases.mpr ?_⟩
  refine List.forall_mem_append.mpr ⟨hcases, List.forall_mem_singleton.mpr ?_⟩
  rw [literalsOfCases_singleton]
  exact hlast

theorem produces_statementOver :
    Produces (statementOver block) fun statement => ∀ literal ∈ statement.literals, P literal := by
  refine .after fun _ => .ite (produces_declaration words) ?_
  refine .after fun _ => .ite (produces_switch words produces) ?_
  refine .after fun _ => .ite (produces_branch words produces) ?_
  refine .after fun _ => .ite (produces_loop words produces) ?_
  exact .after fun _ => .ite (produces_result words) (produces_effect words)

end Blocks

omit words in
theorem produces_statements {statement : Parser Statement}
    (produces : Produces statement fun statement => ∀ literal ∈ statement.literals, P literal)
    (bound : Nat) :
    Produces (statements statement bound) fun body =>
      ∀ literal ∈ literalsOfStatements body, P literal := by
  induction bound with
  | zero => exact .fail _
  | succ bound ih =>
      refine .after fun ended => .ite (.pure fun _ => nofun) ?_
      exact produces.bind fun first hfirst => ih.bind fun rest hrest =>
        .pure (List.forall_mem_append.mpr ⟨hfirst, hrest⟩)

theorem produces_statementWithin (bound : Nat) :
    Produces (statementWithin bound) fun statement =>
      ∀ literal ∈ statement.literals, P literal := by
  induction bound with
  | zero => exact produces_statementOver words (.fail _)
  | succ bound ih =>
      exact produces_statementOver words (.after fun bound => produces_statements ih bound)

theorem produces_block :
    Produces block fun body => ∀ literal ∈ literalsOfStatements body, P literal :=
  .after fun depth => .after fun bound =>
    produces_statements (produces_statementWithin words depth) bound

/-! ## Programs -/

theorem produces_global :
    Produces global fun global => ∀ literal ∈ global.literals, P literal := by
  have list : Produces listGlobal fun global => ∀ literal ∈ global.literals, P literal := by
    refine .after fun name => .after fun typeName => .after fun _ => .after fun _ => ?_
    exact (produces_expressionList (produces_expression words) _).bind fun elements helements =>
      .pure helements
  have single : ∀ isMutable, Produces (variableGlobal isMutable) fun global =>
      ∀ literal ∈ global.literals, P literal := by
    refine fun isMutable => .after fun name => .after fun typeName => .after fun given => ?_
    refine .ite ?_ (.ite (.pure fun _ => nofun) (.fail _))
    exact (produces_expression words).bind fun value hvalue => .pure hvalue
  have opened : Produces openGlobal fun global => ∀ literal ∈ global.literals, P literal := by
    refine .after fun _ => .ite list ?_
    refine .after fun _ => .ite (single true) ?_
    exact .after fun _ => .ite (single false) (.fail _)
  exact opened.bind fun global hglobal => .after fun _ => .pure hglobal

theorem produces_function :
    Produces function fun function => ∀ literal ∈ function.literals, P literal := by
  refine .after fun _ => .after fun name => .after fun _ => .after fun parameters => ?_
  refine .after fun returnTypeName => .after fun _ => ?_
  exact (produces_block words).bind fun body hbody => .after fun _ => .pure hbody

theorem produces_program :
    Produces program fun program => ∀ literal ∈ program.literals, P literal := by
  refine .after fun bound => ?_
  refine ((produces_global words).manyWhile bound).bind fun globals hglobals => ?_
  refine .after fun bound => ?_
  refine ((produces_function words).manyWhile bound).bind fun functions hfunctions => ?_
  refine .ite .fail_bind (.after fun found => ?_)
  cases found with
  | some token => exact .fail _
  | none =>
      refine .pure (List.forall_mem_append.mpr ⟨?_, ?_⟩)
      · exact List.forall_mem_flatMap.mpr hglobals
      · exact List.forall_mem_flatMap.mpr hfunctions

end Productions

end Parser

/-- What holds of every literal that a word stands for holds of every literal of a program that is
read. -/
theorem forall_literals_of_parse {P : Literal → Prop} (words : OfWords P) {tokens : List Token}
    {program : Program} (h : Program.parse tokens = .ok program) :
    ∀ literal ∈ program.literals, P literal := by
  unfold Program.parse Parser.run at h
  split at h
  · next value cursor ran =>
      cases h
      exact Parser.produces_program words _ _ _ ran
  · cases h

end TinyScript
