import TinyScript.Proofs.GrammarExactness
import TinyScript.Proofs.Source.Words

/-!
# Programs come back from their source text

Every program that has been read from a text is read again, exactly, from the text that
`Program.sourceText` writes for it (`parse_split_sourceText`). The proof goes along the derivation
of the program in the grammar: the words that are written for each part can be cut out of a text
(`Separable`), and any words with these characters derive the part again.
-/

namespace TinyScript

open Grammar Token

/-! ## Words with given texts -/

/-- Words that have been found in a text, with their characters. -/
abbrev Spelled (words : List String) (tokens : List Token) : Prop :=
  List.Forall₂ IsWord words tokens

theorem spelled_of_texts {words : List String} {tokens : List Token}
    (hclassified : AllClassified tokens) (htexts : tokens.map Token.text = words) :
    Spelled words tokens := by
  subst htexts
  induction tokens with
  | nil => exact .nil
  | cons token tokens ih =>
      obtain ⟨htoken, htokens⟩ := List.forall_mem_cons.mp hclassified
      exact .cons ⟨htoken, rfl⟩ (ih htokens)

theorem spelled_append {front behind : List String} {tokens : List Token}
    (h : Spelled (front ++ behind) tokens) :
    ∃ left right, tokens = left ++ right ∧ Spelled front left ∧ Spelled behind right := by
  induction front generalizing tokens with
  | nil => exact ⟨[], tokens, rfl, .nil, h⟩
  | cons word front ih =>
      cases h with
      | cons hword hwords =>
          obtain ⟨left, right, rfl, hleft, hright⟩ := ih hwords
          exact ⟨_ :: left, right, rfl, .cons hword hleft, hright⟩

/-- Words that are written for a form: each can be cut out of a text, and together they have that
form. -/
structure Restates (form : List Token → Prop) (words : List String) : Prop where
  separable : ∀ word ∈ words, Separable word
  again : ∀ {tokens}, Spelled words tokens → form tokens

namespace Restates

variable {form form' : List Token → Prop} {kind : Token → Prop} {word : String}
  {words words' : List String}

theorem imp (h : Restates form words) (himp : ∀ tokens, form tokens → form' tokens) :
    Restates form' words :=
  ⟨h.separable, fun hspelled => himp _ (h.again hspelled)⟩

theorem nil : Restates (fun tokens => tokens = []) [] :=
  ⟨nofun, fun h => by cases h; rfl⟩

theorem cons (hword : Rewritten kind word) (hwords : Restates form words) :
    Restates (fun tokens => ∃ token rest, tokens = token :: rest ∧ kind token ∧ form rest)
      (word :: words) := by
  refine ⟨List.forall_mem_cons.mpr ⟨hword.separable, hwords.separable⟩, fun h => ?_⟩
  cases h with
  | cons hfirst hrest => exact ⟨_, _, rfl, hword.found hfirst, hwords.again hrest⟩

theorem single (hword : Rewritten kind word) :
    Restates (fun tokens => ∃ token, tokens = [token] ∧ kind token) [word] := by
  refine (cons hword nil).imp ?_
  rintro _ ⟨token, _, rfl, hkind, rfl⟩
  exact ⟨token, rfl, hkind⟩

theorem append (hfront : Restates form words) (hbehind : Restates form' words') :
    Restates (fun tokens => ∃ front behind, tokens = front ++ behind ∧ form front ∧ form' behind)
      (words ++ words') := by
  refine ⟨List.forall_mem_append.mpr ⟨hfront.separable, hbehind.separable⟩, fun h => ?_⟩
  obtain ⟨front, behind, rfl, hleft, hright⟩ := spelled_append h
  exact ⟨front, behind, rfl, hfront.again hleft, hbehind.again hright⟩

end Restates

/-- Words of a text that has been split. -/
abbrev AllClean (tokens : List Token) : Prop := ∀ token ∈ tokens, Clean token

/-! ## Expressions -/

/-- The words of a form of expressions. -/
def Grammar.Phrase.words : Phrase → List String
  | .primary expression => expression.words
  | .joined _ expression => expression.words
  | .listed expressions => listWords expressions

theorem words_operand (level : Operator.Level) (expression : Expression) :
    (Phrase.operand level expression).words = expression.words := by
  cases level <;> rfl

theorem restates_phrase {tokens : List Token} {phrase : Phrase} (h : Expresses tokens phrase)
    (hclean : AllClean tokens) : Restates (Expresses · phrase) phrase.words := by
  -- Words written for a form are taken apart along its rule and put together by the same rule.
  induction h with
  | literal hdenotes =>
      refine (Restates.single (rewritten_literal hdenotes)).imp ?_
      rintro _ ⟨token, rfl, hdenotes⟩
      exact .literal hdenotes
  | group _ _ _ ih =>
      simp only [List.forall_mem_cons, List.forall_mem_append] at hclean
      refine (Restates.cons (rewritten_mark (by decide)) ((ih hclean.2.1).append
        (.single (rewritten_mark (by decide))))).imp ?_
      rintro _ ⟨_, _, rfl, hopening, _, _, rfl, hinner, _, rfl, hclosing⟩
      exact .group hopening hinner hclosing
  | access hname =>
      refine (Restates.single (rewritten_name (hclean _ List.mem_cons_self) hname)).imp ?_
      rintro _ ⟨token, rfl, hname⟩
      exact .access hname
  | element hname _ _ _ ih =>
      simp only [List.forall_mem_cons, List.forall_mem_append] at hclean
      refine (Restates.cons (rewritten_name hclean.1 hname) (.cons (rewritten_mark (by decide))
        ((ih hclean.2.2.1).append (.single (rewritten_mark (by decide)))))).imp ?_
      rintro _ ⟨_, _, rfl, hname, _, _, rfl, hopening, _, _, rfl, hindex, _, rfl, hclosing⟩
      exact .element hname hopening hindex hclosing
  | emptyCall hname =>
      refine (Restates.cons (rewritten_name (hclean _ List.mem_cons_self) hname)
        (.cons (rewritten_mark (by decide)) (.single (rewritten_mark (by decide))))).imp ?_
      rintro _ ⟨_, _, rfl, hname, _, _, rfl, hopening, _, rfl, hclosing⟩
      exact .emptyCall hname hopening hclosing
  | call hname _ _ _ ih =>
      simp only [List.forall_mem_cons, List.forall_mem_append] at hclean
      refine (Restates.cons (rewritten_name hclean.1 hname) (.cons (rewritten_mark (by decide))
        ((ih hclean.2.2.1).append (.single (rewritten_mark (by decide)))))).imp ?_
      rintro _ ⟨_, _, rfl, hname, _, _, rfl, hopening, _, _, rfl, harguments, _, rfl, hclosing⟩
      exact .call hname hopening harguments hclosing
  | operand _ ih =>
      rw [words_operand] at ih
      exact (ih hclean).imp fun _ => .operand
  | operation _ hlevel _ _ ihleft ihright =>
      simp only [List.forall_mem_cons, List.forall_mem_append] at hclean
      rw [words_operand] at ihright
      refine ((ihleft hclean.1).append (.cons (rewritten_symbol _) (ihright hclean.2.2))).imp ?_
      rintro _ ⟨_, _, rfl, hleft, _, _, rfl, hsymbol, hright⟩
      exact .operation hleft hlevel hsymbol hright
  | last _ ih =>
      have hwords : ∀ expression : Expression,
          (Phrase.listed [expression]).words = expression.words := by
        intro expression
        simp [Phrase.words, listWords, listWordsBehind]
      rw [hwords]
      exact (ih hclean).imp fun _ => .last
  | @more _ expression _ _ expressions _ _ hbehind ihfirst ihbehind =>
      simp only [List.forall_mem_cons, List.forall_mem_append] at hclean
      have hwords : (Phrase.listed (expression :: expressions)).words =
          expression.words ++ "," :: (Phrase.listed expressions).words := by
        cases expressions with
        | nil => cases hbehind
        | cons => rfl
      rw [hwords]
      refine ((ihfirst hclean.1).append (.cons (rewritten_mark (by decide))
        (ihbehind hclean.2.2))).imp ?_
      rintro _ ⟨_, _, rfl, hfirst, _, _, rfl, hcomma, hbehind⟩
      exact .more hfirst hcomma hbehind

theorem restates_expression {tokens : List Token} {expression : Expression}
    (h : IsExpression tokens expression) (hclean : AllClean tokens) :
    Restates (IsExpression · expression) expression.words :=
  restates_phrase h hclean

/-! ## Statements -/

theorem restates_annotates {tokens : List Token} {typeName : Option String}
    (h : Annotates tokens typeName) (hclean : AllClean tokens) :
    Restates (Annotates · typeName) (typeWords typeName) := by
  cases h with
  | none =>
      refine Restates.nil.imp ?_
      rintro _ rfl
      exact .none
  | some _ htype =>
      simp only [List.forall_mem_cons] at hclean
      refine (Restates.cons (rewritten_mark (by decide))
        (.single (rewritten_typeName hclean.2.1 htype))).imp ?_
      rintro _ ⟨_, _, rfl, hcolon, _, rfl, htype⟩
      exact .some hcolon htype

theorem restates_initialises {tokens : List Token} {value : Option Expression}
    (h : Initialises tokens value) (hclean : AllClean tokens) :
    Restates (Initialises · value) (initialWords value) := by
  cases h with
  | none =>
      refine Restates.nil.imp ?_
      rintro _ rfl
      exact .none
  | some _ hvalue =>
      simp only [List.forall_mem_cons] at hclean
      refine (Restates.cons (rewritten_mark (by decide))
        (restates_expression hvalue hclean.2)).imp ?_
      rintro _ ⟨_, _, rfl, hequals, hvalue⟩
      exact .some hequals hvalue

/-- The words of a form of statements. -/
def Grammar.Form.words : Form → List String
  | .statement written => written.words
  | .block written => blockWords written
  | .cases written => caseWords written

theorem caseWords_default (body : List Statement) : ∀ cases : List Case,
    caseWords (cases ++ [.mk none body]) = caseWords cases ++ "DEFAULT" :: blockWords body
  | [] => by simp [caseWords]
  | .mk none _ :: cases => by simp [caseWords, caseWords_default body cases]
  | .mk (some _) _ :: cases => by simp [caseWords, caseWords_default body cases]

theorem restates_form {tokens : List Token} {form : Form} (h : States tokens form)
    (hclean : AllClean tokens) : Restates (States · form) form.words := by
  induction h with
  | declaration _ hname htyped hinitial _ =>
      simp only [List.forall_mem_cons, List.forall_mem_append] at hclean
      refine (Restates.cons (rewritten_reserved (by decide))
        (.cons (rewritten_name hclean.2.1 hname) ((restates_annotates htyped hclean.2.2.1).append
          ((restates_initialises hinitial hclean.2.2.2.1).append
            (.single (rewritten_mark (by decide))))))).imp ?_
      rintro _ ⟨_, _, rfl, hword, _, _, rfl, hname, _, _, rfl, htyped, _, _, rfl, hinitial, _, rfl,
        hsemicolon⟩
      exact .declaration hword hname htyped hinitial hsemicolon
  | assignment htarget _ hvalue _ =>
      simp only [List.forall_mem_cons, List.forall_mem_append] at hclean
      refine ((restates_expression htarget hclean.1).append (.cons (rewritten_mark (by decide))
        ((restates_expression hvalue hclean.2.2.1).append
          (.single (rewritten_mark (by decide)))))).imp ?_
      rintro _ ⟨_, _, rfl, htarget, _, _, rfl, hequals, _, _, rfl, hvalue, _, rfl, hsemicolon⟩
      exact .assignment htarget hequals hvalue hsemicolon
  | effect hexpression _ =>
      simp only [List.forall_mem_cons, List.forall_mem_append] at hclean
      refine ((restates_expression hexpression hclean.1).append
        (.single (rewritten_mark (by decide)))).imp ?_
      rintro _ ⟨_, _, rfl, hexpression, _, rfl, hsemicolon⟩
      exact .effect hexpression hsemicolon
  | result _ hvalue _ =>
      simp only [List.forall_mem_cons, List.forall_mem_append] at hclean
      refine (Restates.cons (rewritten_reserved (by decide))
        ((restates_expression hvalue hclean.2.1).append
          (.single (rewritten_mark (by decide))))).imp ?_
      rintro _ ⟨_, _, rfl, hword, _, _, rfl, hvalue, _, rfl, hsemicolon⟩
      exact .result hword hvalue hsemicolon
  | branch _ htest _ _ hthen _ ih =>
      simp only [List.forall_mem_cons, List.forall_mem_append] at hclean
      refine (Restates.cons (rewritten_reserved (by decide))
        ((restates_expression htest hclean.2.1).append (.cons (rewritten_reserved (by decide))
          ((ih hclean.2.2.2.1).append (.single (rewritten_reserved (by decide))))))).imp ?_
      rintro _ ⟨_, _, rfl, hword, _, _, rfl, htest, _, _, rfl, hopening, _, _, rfl, hblock, _, rfl,
        hclosing⟩
      exact .branch hword htest hopening hblock hthen hclosing
  | @alternative _ _ condition _ _ thenBody _ _ elseBody _ _ htest _ _ hthen _ _ _ ihthen ihelse =>
      simp only [List.forall_mem_cons, List.forall_mem_append] at hclean
      have hthenBody := ihthen hclean.2.2.2.1
      cases elseBody with
      | nil =>
          -- An alternative without statements is not written.
          refine (Restates.cons (rewritten_reserved (by decide))
            ((restates_expression htest hclean.2.1).append (.cons (rewritten_reserved (by decide))
              (hthenBody.append (.single (rewritten_reserved (by decide))))))).imp ?_
          rintro _ ⟨_, _, rfl, hword, _, _, rfl, htest, _, _, rfl, hopening, _, _, rfl, hblock, _,
            rfl, hclosing⟩
          exact .branch hword htest hopening hblock hthen hclosing
      | cons first others =>
          refine (Restates.cons (rewritten_reserved (by decide))
            ((restates_expression htest hclean.2.1).append (.cons (rewritten_reserved (by decide))
              (hthenBody.append (.cons (rewritten_reserved (by decide))
                ((ihelse hclean.2.2.2.2.2.1).append
                  (.single (rewritten_reserved (by decide))))))))).imp ?_
          rintro _ ⟨_, _, rfl, hword, _, _, rfl, htest, _, _, rfl, hopening, _, _, rfl, hblock, _,
            _, rfl, hother, _, _, rfl, helse, _, rfl, hclosing⟩
          exact .alternative hword htest hopening hblock hthen hother helse hclosing
  | @switch _ _ condition _ cases _ _ body _ _ htest _ hcases _ _ _ ihcases ihbody =>
      -- The last case is one of the tree's cases, and a rule of its own in the grammar.
      simp only [List.forall_mem_cons, List.forall_mem_append] at hclean
      have hwords : (Statement.switch condition (cases ++ [.mk none body])).words =
          "SWITCH" :: (condition.words ++ (caseWords cases ++
            "DEFAULT" :: (blockWords body ++ ["END"]))) := by
        rw [Statement.words, caseWords_default, List.append_assoc, List.cons_append]
      show Restates _ (Statement.switch condition (cases ++ [.mk none body])).words
      rw [hwords]
      refine (Restates.cons (rewritten_reserved (by decide))
        ((restates_expression htest hclean.2.1).append ((ihcases hclean.2.2.1).append
          (.cons (rewritten_reserved (by decide)) ((ihbody hclean.2.2.2.2.1).append
            (.single (rewritten_reserved (by decide)))))))).imp ?_
      rintro _ ⟨_, _, rfl, hword, _, _, rfl, htest, _, _, rfl, hbranches, _, _, rfl, hword', _, _,
        rfl, hblock, _, rfl, hclosing⟩
      exact .switch hword htest hbranches hcases hword' hblock hclosing
  | loop _ htest _ _ _ ih =>
      simp only [List.forall_mem_cons, List.forall_mem_append] at hclean
      refine (Restates.cons (rewritten_reserved (by decide))
        ((restates_expression htest hclean.2.1).append (.cons (rewritten_reserved (by decide))
          ((ih hclean.2.2.2.1).append (.single (rewritten_reserved (by decide))))))).imp ?_
      rintro _ ⟨_, _, rfl, hword, _, _, rfl, htest, _, _, rfl, hopening, _, _, rfl, hblock, _, rfl,
        hclosing⟩
      exact .loop hword htest hopening hblock hclosing
  | noStatement =>
      refine Restates.nil.imp ?_
      rintro _ rfl
      exact .noStatement
  | statements _ _ ihfirst ihrest =>
      rw [AllClean, List.forall_mem_append] at hclean
      refine ((ihfirst hclean.1).append (ihrest hclean.2)).imp ?_
      rintro _ ⟨_, _, rfl, hfirst, hrest⟩
      exact .statements hfirst hrest
  | noCase =>
      refine Restates.nil.imp ?_
      rintro _ rfl
      exact .noCase
  | cases _ hvalue _ _ _ ihbody ihrest =>
      simp only [List.forall_mem_cons, List.forall_mem_append] at hclean
      refine (Restates.cons (rewritten_reserved (by decide))
        ((restates_expression hvalue hclean.2.1).append (.cons (rewritten_mark (by decide))
          ((ihbody hclean.2.2.2.1).append (ihrest hclean.2.2.2.2))))).imp ?_
      rintro _ ⟨_, _, rfl, hword, _, _, rfl, hvalue, _, _, rfl, hcolon, _, _, rfl, hblock, hrest⟩
      exact .cases hword hvalue hcolon hblock hrest

/-! ## Programs -/

/-- A list of values between brackets. -/
def Expression.isList : Expression → Bool
  | .list .. => true
  | _ => false

/-- No rule for expressions writes a list. -/
theorem not_isList_of_expresses {tokens : List Token} {phrase : Phrase}
    (h : Expresses tokens phrase) : ∀ expression,
      phrase = .primary expression ∨ (∃ level, phrase = .joined level expression) →
        expression.isList = false := by
  induction h with
  | @operand level _ _ _ ih =>
      rintro expression (h | ⟨_, h⟩) <;> cases h
      cases level
      · exact ih _ (.inr ⟨_, rfl⟩)
      · exact ih _ (.inr ⟨_, rfl⟩)
      · exact ih _ (.inr ⟨_, rfl⟩)
      · exact ih _ (.inl rfl)
  | last => rintro expression (h | ⟨level, h⟩) <;> cases h
  | more => rintro expression (h | ⟨level, h⟩) <;> cases h
  | _ =>
      rintro expression (h | ⟨level, h⟩) <;> cases h
      rfl

/-- The initial value of a variable is no list of values, so that it is written as a variable. -/
theorem words_of_initialises {tokens : List Token} {name : String} {typeName : Option String}
    {isMutable : Bool} {value : Option Expression} (h : Initialises tokens value) :
    (Global.mk name typeName isMutable value none).words =
      (if isMutable then "VAR" else "VAL") :: name ::
        (typeWords typeName ++ (initialWords value ++ [";"])) := by
  cases h with
  | none => rfl
  | @some _ _ expression _ hvalue =>
      have hlist := not_isList_of_expresses hvalue expression (.inr ⟨_, rfl⟩)
      cases expression with
      | list => cases hlist
      | _ => rfl

theorem restates_global {tokens : List Token} {global : Global} (h : IsGlobal tokens global)
    (hclean : AllClean tokens) : Restates (IsGlobal · global) global.words := by
  cases h with
  | list _ hname htyped _ _ helements _ _ =>
      simp only [List.forall_mem_cons, List.forall_mem_append] at hclean
      refine (Restates.cons (rewritten_reserved (by decide))
        (.cons (rewritten_name hclean.2.1 hname) ((restates_annotates htyped hclean.2.2.1).append
          (.cons (rewritten_mark (by decide)) ((Restates.cons (rewritten_mark (by decide))
            ((restates_phrase helements hclean.2.2.2.2.2.1).append
              (.single (rewritten_mark (by decide))))).append
            (.single (rewritten_mark (by decide)))))))).imp ?_
      rintro _ ⟨_, _, rfl, hword, _, _, rfl, hname, _, _, rfl, htyped, _, _, rfl, hequals, _, _,
        rfl, ⟨_, _, rfl, hopening, _, _, rfl, helements, _, rfl, hclosing⟩, _, rfl, hsemicolon⟩
      simpa using IsGlobal.list hword hname htyped hequals hopening helements hclosing hsemicolon
  | «mutable» _ hname htyped hinitial _ =>
      simp only [List.forall_mem_cons, List.forall_mem_append] at hclean
      rw [words_of_initialises hinitial]
      refine (Restates.cons (rewritten_reserved (by decide))
        (.cons (rewritten_name hclean.2.1 hname) ((restates_annotates htyped hclean.2.2.1).append
          ((restates_initialises hinitial hclean.2.2.2.1).append
            (.single (rewritten_mark (by decide))))))).imp ?_
      rintro _ ⟨_, _, rfl, hword, _, _, rfl, hname, _, _, rfl, htyped, _, _, rfl, hinitial, _, rfl,
        hsemicolon⟩
      exact .mutable hword hname htyped hinitial hsemicolon
  | immutable _ hname htyped hinitial _ =>
      simp only [List.forall_mem_cons, List.forall_mem_append] at hclean
      rw [words_of_initialises hinitial]
      refine (Restates.cons (rewritten_reserved (by decide))
        (.cons (rewritten_name hclean.2.1 hname) ((restates_annotates htyped hclean.2.2.1).append
          ((restates_initialises hinitial hclean.2.2.2.1).append
            (.single (rewritten_mark (by decide))))))).imp ?_
      rintro _ ⟨_, _, rfl, hword, _, _, rfl, hname, _, _, rfl, htyped, _, _, rfl, hinitial, _, rfl,
        hsemicolon⟩
      exact .immutable hword hname htyped hinitial hsemicolon

theorem restates_parameter {tokens : List Token} {parameter : Parameter}
    (h : IsParameter tokens parameter) (hclean : AllClean tokens) :
    Restates (IsParameter · parameter) [parameter.name, ":", parameter.typeName] := by
  cases h with
  | parameter hname _ htype =>
      simp only [List.forall_mem_cons] at hclean
      refine (Restates.cons (rewritten_name hclean.1 hname) (.cons (rewritten_mark (by decide))
        (.single (rewritten_typeName hclean.2.2.1 htype)))).imp ?_
      rintro _ ⟨_, _, rfl, hname, _, _, rfl, hcolon, _, rfl, htype⟩
      exact .parameter hname hcolon htype

theorem restates_separated {tokens : List Token} {parameters : List Parameter}
    (h : Separated IsParameter tokens parameters) (hclean : AllClean tokens) :
    Restates (Separated IsParameter · parameters) (parameterWords parameters) := by
  induction h with
  | last hparameter => exact (restates_parameter hparameter hclean).imp fun _ => .last
  | @more _ parameter _ _ parameters hparameter _ hbehind ih =>
      simp only [List.forall_mem_cons, List.forall_mem_append] at hclean
      have hwords : parameterWords (parameter :: parameters) =
          [parameter.name, ":", parameter.typeName] ++ "," :: parameterWords parameters := by
        cases parameters with
        | nil => cases hbehind
        | cons => rfl
      rw [hwords]
      refine ((restates_parameter hparameter hclean.1).append
        (.cons (rewritten_mark (by decide)) (ih hclean.2.2))).imp ?_
      rintro _ ⟨_, _, rfl, hparameter, _, _, rfl, hcomma, hbehind⟩
      exact .more hparameter hcomma hbehind

theorem restates_parameters {tokens : List Token} {parameters : List Parameter}
    (h : AreParameters tokens parameters) (hclean : AllClean tokens) :
    Restates (AreParameters · parameters) (parameterWords parameters) := by
  cases h with
  | none =>
      refine Restates.nil.imp ?_
      rintro _ rfl
      exact .none
  | some hseparated => exact (restates_separated hseparated hclean).imp fun _ => .some

theorem restates_function {tokens : List Token} {function : Function}
    (h : IsFunction tokens function) (hclean : AllClean tokens) :
    Restates (IsFunction · function) function.words := by
  cases h with
  | function _ hname _ hparameters _ htyped _ hbody _ =>
      simp only [List.forall_mem_cons, List.forall_mem_append] at hclean
      refine (Restates.cons (rewritten_reserved (by decide))
        (.cons (rewritten_name hclean.2.1 hname) (.cons (rewritten_mark (by decide))
          ((restates_parameters hparameters hclean.2.2.2.1).append
            (.cons (rewritten_mark (by decide))
              ((restates_annotates htyped hclean.2.2.2.2.2.1).append
                (.cons (rewritten_reserved (by decide))
                  ((restates_form hbody hclean.2.2.2.2.2.2.2.1).append
                    (.single (rewritten_reserved (by decide))))))))))).imp ?_
      rintro _ ⟨_, _, rfl, hword, _, _, rfl, hname, _, _, rfl, hopening, _, _, rfl, hparameters, _,
        _, rfl, hclosing, _, _, rfl, htyped, _, _, rfl, hstart, _, _, rfl, hbody, _, rfl, hstop⟩
      exact .function hword hname hopening hparameters hclosing htyped hstart hbody hstop

theorem restates_sequence {α : Type} {form : List Token → α → Prop} {words : α → List String}
    (hform : ∀ tokens item, form tokens item → AllClean tokens →
      Restates (form · item) (words item)) {tokens : List Token} {items : List α}
    (h : Sequence form tokens items) (hclean : AllClean tokens) :
    Restates (Sequence form · items) (items.flatMap words) := by
  induction h with
  | none =>
      refine Restates.nil.imp ?_
      rintro _ rfl
      exact .none
  | more hfirst _ ih =>
      rw [AllClean, List.forall_mem_append] at hclean
      rw [List.flatMap_cons]
      refine ((hform _ _ hfirst hclean.1).append (ih hclean.2)).imp ?_
      rintro _ ⟨_, _, rfl, hfirst, hrest⟩
      exact .more hfirst hrest

theorem restates_program {tokens : List Token} {program : Program} (h : Writes tokens program)
    (hclean : AllClean tokens) : Restates (Writes · program) program.words := by
  cases h with
  | program hglobals hfunctions hsome =>
      rw [AllClean, List.forall_mem_append] at hclean
      have hfront := restates_sequence (fun tokens global (h : IsGlobal tokens global) =>
        restates_global h) hglobals hclean.1
      have hbehind := restates_sequence (fun tokens function (h : IsFunction tokens function) =>
        restates_function h) hfunctions hclean.2
      refine (hfront.append hbehind).imp ?_
      rintro _ ⟨_, _, rfl, hglobals, hfunctions⟩
      exact .program hglobals hfunctions hsome

/-- A program that has been read from a text is read again, with the same names, types and values,
from the text that is written for it. -/
theorem parse_split_sourceText {source : String} {program : Program}
    (h : Program.parse (split source) = .ok program) :
    Program.parse (split program.sourceText) = .ok program := by
  have hwritten := writes_of_parse (classified_split source) h
  have hrestates := restates_program hwritten fun token => clean_of_mem_split
  refine parse_of_writes (classified_split _) (hrestates.again ?_)
  exact spelled_of_texts (classified_split _) (texts_split_joined hrestates.separable)

/-! ### A program of literals -/

/-- A source with an escaped quote and an escaped backslash, a tab as it is, a decimal of negative
scale, and a negative number behind an operator. -/
def literalsSource : String :=
  "VAL x = -1.50e9; FUN f() DO g(\"\\\"\\\\\t\", 5 - -7 * x); END"

/-- The words of `literalsSource`. -/
def literalsTokens : List Token :=
  [(0, "VAL"), (4, "x"), (6, "="), (8, "-1.50e9"), (15, ";"), (17, "FUN"), (21, "f"), (22, "("),
    (23, ")"), (25, "DO"), (28, "g"), (29, "("), (30, "\"\\\"\\\\\t\""), (37, ","), (39, "5"),
    (41, "-"), (43, "-7"), (46, "*"), (48, "x"), (49, ")"), (50, ";"), (52, "END")].map
      fun (offset, text) => ⟨classify text.toList, text, offset⟩

/-- The tree of `literalsSource`. -/
def literalsProgram : Program where
  globals := [.mk "x" none false (some (.literal (.decimal ⟨-150, -7⟩) none)) none]
  functions := [.mk "f" [] none [.expression (.call "g" [.literal (.string "\"\\\t") none,
    .binary .subtract (.literal (.integer 5) none)
      (.binary .multiply (.literal (.integer (-7)) none) (.access "x" none none) none) none]
        none none)] none]

/-- The text that is written for the tree has other words than the source, and the same tree. -/
theorem parse_split_sourceText_literals :
    literalsProgram.sourceText ≠ literalsSource ∧
      Program.parse (split literalsSource) = .ok literalsProgram ∧
        Program.parse (split literalsProgram.sourceText) = .ok literalsProgram := by
  have hsplit : split literalsSource = literalsTokens := by decide +kernel
  have hparse : Program.parse (split literalsSource) = .ok literalsProgram := by
    rw [hsplit]
    rfl
  exact ⟨by decide +kernel, hparse, parse_split_sourceText hparse⟩

end TinyScript
