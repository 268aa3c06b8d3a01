import TinyScript.Parse.Program
import TinyScript.Proofs.Sequencing

/-!
# Readers look no further than the word at the cursor

What a reader makes of words is settled by the words it takes and the one it stops at: before other
words that start the same way it ends the same way (`Parser.Local`). The bounds of the readers do
not matter as long as they pay for the words that are left, so `Local` compares two readers that may
differ in their bounds. In particular a reader that is bounded by the words left is the reader that
is not bounded at all (`Local.eq`).
-/

namespace TinyScript

/-! ## Places behind words -/

namespace Cursor

variable {cursor : Cursor} {used rest : List Token}

/-- The place behind some words. -/
def past (cursor : Cursor) (used : List Token) : Cursor :=
  used.foldl (fun cursor _ => cursor.advance) cursor

theorem past_append (cursor : Cursor) (used used' : List Token) :
    cursor.past (used ++ used') = (cursor.past used).past used' :=
  List.foldl_append

theorem rest_advance {token : Token} (h : cursor.rest = token :: rest) :
    cursor.advance.rest = rest := by
  simp [advance, h]

theorem index_advance {token : Token} (h : cursor.rest = token :: rest) :
    cursor.advance.index = cursor.index + 1 := by
  simp [advance, h]

theorem remaining_advance {token : Token} (h : cursor.rest = token :: rest) :
    cursor.remaining = cursor.advance.remaining + 1 := by
  simp [remaining, rest_advance h, h]

theorem rest_past (h : cursor.rest = used ++ rest) : (cursor.past used).rest = rest := by
  induction used generalizing cursor with
  | nil => exact h
  | cons token used ih => exact ih (rest_advance h)

theorem index_past (h : cursor.rest = used ++ rest) :
    (cursor.past used).index = cursor.index + used.length := by
  induction used generalizing cursor with
  | nil => rfl
  | cons token used ih =>
      rw [List.length_cons, Nat.add_comm used.length, ← Nat.add_assoc, ← index_advance h]
      exact ih (rest_advance h)

theorem remaining_eq (h : cursor.rest = used ++ rest) :
    cursor.remaining = used.length + (cursor.past used).remaining := by
  simp [remaining, rest_past h, h]

theorem isLiteral_eq (cursor : Cursor) (literal : String) :
    cursor.isLiteral literal = cursor.current.any (·.isLiteral literal) := by
  rcases cursor with ⟨_ | ⟨_, _⟩, _, _⟩ <;> rfl

theorem current_eq_none : cursor.current = none ↔ cursor.rest = [] :=
  List.head?_eq_none_iff

theorem current_eq_some {token : Token} (h : cursor.current = some token) :
    ∃ rest, cursor.rest = token :: rest :=
  List.head?_eq_some_iff.mp h

theorem head_append {behind : List Token} (h : behind.head? = rest.head?) :
    (used ++ behind).head? = (used ++ rest).head? := by
  rw [List.head?_append, List.head?_append, h]

/-- Two places have the same word if the words that both start with are some, or if what is behind
these starts with the same word. -/
theorem current_congr {other : Cursor} {behind : List Token} (h : cursor.rest = used ++ rest)
    (hother : other.rest = used ++ behind) (hsame : used ≠ [] ∨ behind.head? = rest.head?) :
    other.current = cursor.current := by
  rw [current, current, h, hother]
  rcases hsame with hused | hhead
  · obtain ⟨token, used, rfl⟩ := List.exists_cons_of_ne_nil hused
    rfl
  · exact head_append hhead

/-- How reading ends at a place: with a value or with an error that names the place. -/
def ending {α : Type} (cursor : Cursor) :
    Except SyntaxError.Cause α → EStateM.Result SyntaxError Cursor α
  | .ok value => .ok value cursor
  | .error cause => .error (cursor.error cause) cursor

/-- The end of reading tells how much has been read. -/
theorem ending_past_inj {α : Type} {used' rest' : List Token}
    {outcome outcome' : Except SyntaxError.Cause α} (h : cursor.rest = used ++ rest)
    (h' : cursor.rest = used' ++ rest')
    (hend : (cursor.past used).ending outcome = (cursor.past used').ending outcome') :
    used = used' ∧ rest = rest' ∧ outcome = outcome' := by
  have hplaces : cursor.past used = cursor.past used' ∧ outcome = outcome' := by
    cases outcome <;> cases outcome' <;> simp_all [ending, error]
  obtain rfl : rest = rest' := by rw [← rest_past h, hplaces.1, rest_past h']
  exact ⟨List.append_cancel_right (h.symm.trans h'), rfl, hplaces.2⟩

end Cursor

namespace Parser

variable {α β : Type}

/-- With fewer than `k` words left, `p` ends somewhere behind the cursor; and before any words that
agree with these up to the word there, fewer than `m`, `q` ends the same way. If `takes` holds,
they take a word at least where they succeed. -/
def Local (takes : Bool) (k m : Nat) (p q : Parser α) : Prop :=
  ∀ cursor : Cursor, cursor.remaining < k → ∃ used rest outcome,
    cursor.rest = used ++ rest ∧ p cursor = (cursor.past used).ending outcome ∧
      (takes = true → ∀ value, outcome = .ok value → used ≠ []) ∧
        ∀ (other : Cursor) (behind : List Token), other.rest = used ++ behind →
          other.remaining < m → behind.head? = rest.head? →
            q other = (other.past used).ending outcome

theorem toNat_le_length {takes : Bool} {used : List Token} (h : takes = true → used ≠ []) :
    takes.toNat ≤ used.length := by
  cases takes with
  | false => exact Nat.zero_le _
  | true => exact List.length_pos_iff.mpr (h rfl)

/-! ## Steps by the word at the cursor -/

/-- A choice by the word at the cursor, which moves behind that word if the answer is yes or leaves
the cursor where it is. -/
structure Chooses (more : Parser Bool) (moves : Bool) (answer : Option Token → Bool) : Prop where
  atEnd : answer none = false
  found : ∀ cursor : Cursor, answer cursor.current = true →
    more cursor = .ok true (if moves then cursor.advance else cursor)
  missing : ∀ cursor : Cursor, answer cursor.current = false → more cursor = .ok false cursor

theorem Chooses.isWord {more : Parser Bool} {moves : Bool} {answer : Option Token → Bool}
    (h : Chooses more moves answer) {head : Option Token} (hanswer : answer head = true) :
    head ≠ none := by
  rintro rfl
  rw [h.atEnd] at hanswer
  cases hanswer

/-- Whether a word is a given literal. -/
def isWord (literal : String) (head : Option Token) : Bool := head.any (·.isLiteral literal)

theorem chooses_accept (literal : String) : Chooses (accept literal) true (isWord literal) where
  atEnd := rfl
  found cursor h := by
    rw [isWord, ← Cursor.isLiteral_eq] at h
    simp [accept, acceptIf, h]
  missing cursor h := by
    rw [isWord, ← Cursor.isLiteral_eq] at h
    simp [accept, acceptIf, h]

theorem chooses_peek (literal : String) : Chooses (peek literal) false (isWord literal) where
  atEnd := rfl
  found cursor h := by
    rw [isWord, ← Cursor.isLiteral_eq] at h
    simp [peek, h]
  missing cursor h := by
    rw [isWord, ← Cursor.isLiteral_eq] at h
    simp [peek, h]

section Steps

variable {literal : String} {cursor : Cursor} {token : Token}

theorem bind_ending {p : Parser α} {f : α → Parser β} {place : Cursor}
    {outcome : Except SyntaxError.Cause α} (h : p cursor = place.ending outcome) :
    (p >>= f) cursor = match outcome with
      | .ok value => f value place
      | .error cause => place.ending (.error cause) := by
  show EStateM.bind p f cursor = _
  cases outcome <;> simp [EStateM.bind, h, Cursor.ending]

theorem bind_of_ok {p : Parser α} {f : α → Parser β} {value : α} {place : Cursor}
    (h : p cursor = .ok value place) : (p >>= f) cursor = f value place := by
  show EStateM.bind p f cursor = _
  simp [EStateM.bind, h]

theorem bind_of_error {p : Parser α} {f : α → Parser β} {error : SyntaxError} {place : Cursor}
    (h : p cursor = .error error place) : (p >>= f) cursor = .error error place := by
  show EStateM.bind p f cursor = _
  simp [EStateM.bind, h]

theorem current_bind (f : Option Token → Parser α) :
    (current >>= f) cursor = f cursor.current cursor := rfl

theorem expectToken_of_fits {test : Token → Bool} (cause : Option String → SyntaxError.Cause)
    (hcurrent : cursor.current = some token) (fits : test token = true) :
    expectToken test cause cursor = (pure token : Parser Token) cursor.advance := by
  unfold expectToken
  rw [current_bind, hcurrent]
  simp only [fits, if_true]
  rfl

theorem expectToken_of_unfit {test : Token → Bool} (cause : Option String → SyntaxError.Cause)
    (unfit : cursor.current.any test = false) :
    expectToken test cause cursor = failFinding cause cursor := by
  unfold expectToken
  rw [current_bind]
  cases hcurrent : cursor.current with
  | none => rfl
  | some token =>
      rw [hcurrent] at unfit
      simp [show test token = false from unfit]

end Steps

namespace Local

variable {takes takes' : Bool} {k k' m m' : Nat} {p p' q q' : Parser α}

/-! ## Rules -/

protected theorem pure (value : α) : Local false k m (pure value) (pure value) :=
  fun cursor _ => ⟨[], cursor.rest, .ok value, rfl, rfl, nofun, fun _ _ _ _ _ => rfl⟩

theorem fail (cause : SyntaxError.Cause) :
    Local takes k m (Parser.fail cause : Parser α) (Parser.fail cause) :=
  fun cursor _ => ⟨[], cursor.rest, .error cause, rfl, rfl, nofun, fun _ _ _ _ _ => rfl⟩

theorem relax (h : Local takes' k m p q) (htakes : takes = true → takes' = true) :
    Local takes k m p q := by
  intro cursor hcursor
  obtain ⟨used, rest, outcome, hrest, hran, htakes', hother⟩ := h cursor hcursor
  exact ⟨used, rest, outcome, hrest, hran, fun h => htakes' (htakes h), hother⟩

theorem loose (h : Local takes k m p q) : Local false k m p q := h.relax nofun

theorem mono (h : Local takes k m p q) (hk : k' ≤ k) (hm : m' ≤ m) : Local takes k' m' p q := by
  intro cursor hcursor
  obtain ⟨used, rest, outcome, hrest, hran, htakes, hother⟩ := h cursor (by omega)
  exact ⟨used, rest, outcome, hrest, hran, htakes, fun other behind hsplit hless =>
    hother other behind hsplit (by omega)⟩

theorem congr (h : Local takes k m p q) (hp : ∀ cursor, cursor.remaining < k → p' cursor = p cursor)
    (hq : ∀ cursor, cursor.remaining < m → q' cursor = q cursor) : Local takes k m p' q' := by
  intro cursor hcursor
  obtain ⟨used, rest, outcome, hrest, hran, htakes, hother⟩ := h cursor hcursor
  refine ⟨used, rest, outcome, hrest, (hp cursor hcursor).trans hran, htakes, ?_⟩
  intro other behind hsplit hless hhead
  exact (hq other hless).trans (hother other behind hsplit hless hhead)

theorem eq (h : Local takes k m p q) {cursor : Cursor} (hk : cursor.remaining < k)
    (hm : cursor.remaining < m) : p cursor = q cursor := by
  obtain ⟨used, rest, outcome, hrest, hran, _, hother⟩ := h cursor hk
  exact hran.trans (hother cursor rest hrest hm rfl).symm

/-- What is read behind a reader that takes a word has fewer words. -/
theorem bindBehind {f g : α → Parser β} (first : Local takes k m p q)
    (second : ∀ value, Local takes' (k - takes.toNat) (m - takes.toNat) (f value) (g value)) :
    Local takes k m (p >>= f) (q >>= g) := by
  intro cursor hcursor
  obtain ⟨used, rest, outcome, hrest, hran, htakes, hother⟩ := first cursor hcursor
  cases outcome with
  | error cause =>
      refine ⟨used, rest, .error cause, hrest, bind_ending hran, nofun, ?_⟩
      intro other behind hsplit hless hhead
      exact bind_ending (hother other behind hsplit hless hhead)
  | ok value =>
      have hused : takes.toNat ≤ used.length :=
        toNat_le_length fun htake => htakes htake value rfl
      have hshorter := Cursor.remaining_eq hrest
      obtain ⟨used', rest', outcome, hrest', hran', _, hother'⟩ :=
        second value (cursor.past used) (by omega)
      rw [Cursor.rest_past hrest] at hrest'
      subst hrest'
      -- The words of the second reader stand at the place behind those of the first one, here and
      -- in the other text.
      refine ⟨used ++ used', rest', outcome, ?_, ?_, ?_, ?_⟩
      · rw [hrest, List.append_assoc]
      · rw [bind_ending hran, Cursor.past_append]
        exact hran'
      · intro htakes' _ _ hnil
        exact htakes htakes' value rfl (List.append_eq_nil_iff.mp hnil).1
      · intro other behind hsplit hless hhead
        rw [List.append_assoc] at hsplit
        have hshorter := Cursor.remaining_eq hsplit
        rw [bind_ending (hother other _ hsplit hless (Cursor.head_append hhead)),
          Cursor.past_append]
        exact hother' _ _ (Cursor.rest_past hsplit) (by omega) hhead

theorem bind {f g : α → Parser β} (first : Local takes k m p q)
    (second : ∀ value, Local takes' k m (f value) (g value)) :
    Local takes k m (p >>= f) (q >>= g) :=
  .bindBehind first fun value => (second value).mono (Nat.sub_le ..) (Nat.sub_le ..)

theorem map {f : α → β} (h : Local takes k m p q) : Local takes k m (f <$> p) (f <$> q) := by
  rw [map_eq_pure_bind, map_eq_pure_bind]
  exact .bind h fun value => .pure (f value)

/-- A check of what has been read may come between. -/
theorem check {bad : Bool} {cause : SyntaxError.Cause} {f g : Unit → Parser α}
    (next : Local takes k m (f ()) (g ())) :
    Local takes k m (if bad then Parser.fail cause >>= f else f ())
      (if bad then Parser.fail cause >>= g else g ()) := by
  cases bad with
  | false => exact next
  | true => exact .bind (.fail cause) fun _ => next

/-- What is read behind the count of the words that are left may be bounded by them. -/
theorem remainingLeft {f : Nat → Parser α} (h : ∀ n, n < k → Local takes (n + 1) m (f n) q) :
    Local takes k m (remaining >>= f) q :=
  fun cursor hcursor => h _ hcursor cursor (Nat.lt_succ_self _)

theorem remainingRight {g : Nat → Parser α} (h : ∀ n, Local takes k (min m (n + 1)) p (g n)) :
    Local takes k m p (remaining >>= g) := by
  intro cursor hcursor
  -- What `p` takes does not depend on the bound of the other reader, so any bound tells it; the one
  -- for `other` is known only when `other` is.
  obtain ⟨used, rest, outcome, hrest, hran, htakes, _⟩ := h 0 cursor hcursor
  refine ⟨used, rest, outcome, hrest, hran, htakes, fun other behind hsplit hless hhead => ?_⟩
  obtain ⟨used', rest', outcome', hrest', hran', _, hother⟩ := h other.remaining cursor hcursor
  obtain ⟨rfl, rfl, rfl⟩ := Cursor.ending_past_inj hrest hrest' (hran.symm.trans hran')
  exact hother other behind hsplit (Nat.lt_min.mpr ⟨hless, Nat.lt_succ_self _⟩) hhead

/-- What two readers do where the word at the cursor, if there is one, is the given one: they go on
as other readers, there or behind that word. -/
inductive Turn (takes : Bool) (k m : Nat) (p q : Parser α) (head : Option Token) : Prop
  | stays {p' q' : Parser α} (left : ∀ cursor, cursor.current = head → p cursor = p' cursor)
      (right : ∀ cursor, cursor.current = head → q cursor = q' cursor)
      (next : Local takes k m p' q')
  | moves {takes' : Bool} {p' q' : Parser α} (isWord : head ≠ none)
      (left : ∀ cursor, cursor.current = head → p cursor = p' cursor.advance)
      (right : ∀ cursor, cursor.current = head → q cursor = q' cursor.advance)
      (next : Local takes' (k - 1) (m - 1) p' q')

/-- A reader may decide by the word at the cursor. -/
theorem of_turn (h : ∀ head, Turn takes k m p q head) : Local takes k m p q := by
  intro cursor hcursor
  cases h cursor.current with
  | stays left right next =>
      obtain ⟨used, rest, outcome, hrest, hran, htakes, hother⟩ := next cursor hcursor
      refine ⟨used, rest, outcome, hrest, (left _ rfl).trans hran, htakes, ?_⟩
      intro other behind hsplit hless hhead
      exact (right other (Cursor.current_congr hrest hsplit (.inr hhead))).trans
        (hother other behind hsplit hless hhead)
  | moves isWord left right next =>
      obtain ⟨token, hcurrent⟩ := Option.ne_none_iff_exists'.mp isWord
      obtain ⟨rest, hrest⟩ := Cursor.current_eq_some hcurrent
      have hshorter := Cursor.remaining_advance hrest
      obtain ⟨used, rest', outcome, hrest', hran, _, hother⟩ := next cursor.advance (by omega)
      rw [Cursor.rest_advance hrest] at hrest'
      subst hrest'
      refine ⟨token :: used, rest', outcome, hrest, (left _ rfl).trans hran,
        fun _ _ _ => List.cons_ne_nil _ _, ?_⟩
      intro other behind hsplit hless hhead
      have hshorter := Cursor.remaining_advance hsplit
      refine (right other ?_).trans
        (hother other.advance behind (Cursor.rest_advance hsplit) (by omega) hhead)
      rw [Cursor.current, hsplit, hcurrent]
      rfl

/-! ### Words -/

section Words

variable {literal : String}

/-- A reader may go on by its choice. -/
theorem choose {more : Parser Bool} {moves : Bool} {answer : Option Token → Bool}
    (hmore : Chooses more moves answer) {f g : Bool → Parser α}
    (taken : Local takes' (k - moves.toNat) (m - moves.toNat) (f true) (g true))
    (left : Local takes k m (f false) (g false))
    (htakes : takes = true → moves = true ∨ takes' = true) :
    Local takes k m (more >>= f) (more >>= g) := by
  refine .of_turn fun head => ?_
  cases hanswer : answer head with
  | false =>
      refine .stays ?_ ?_ left
      · rintro cursor rfl
        exact bind_of_ok (hmore.missing cursor hanswer)
      · rintro cursor rfl
        exact bind_of_ok (hmore.missing cursor hanswer)
  | true =>
      have hfound : ∀ (f : Bool → Parser α) (cursor : Cursor), cursor.current = head →
          (more >>= f) cursor = f true (if moves then cursor.advance else cursor) := by
        rintro f cursor rfl
        exact bind_of_ok (hmore.found cursor hanswer)
      cases moves with
      | true => exact .moves (hmore.isWord hanswer) (hfound f) (hfound g) taken
      | false =>
          have htakes' : takes = true → takes' = true := fun h => (htakes h).resolve_left nofun
          exact .stays (hfound f) (hfound g) (taken.relax htakes')

theorem accept {f g : Bool → Parser α} (taken : Local takes' (k - 1) (m - 1) (f true) (g true))
    (left : Local takes k m (f false) (g false)) :
    Local takes k m (Parser.accept literal >>= f) (Parser.accept literal >>= g) :=
  .choose (chooses_accept literal) taken left fun _ => .inl rfl

theorem peek {f g : Bool → Parser α} (found : Local takes k m (f true) (g true))
    (missing : Local takes k m (f false) (g false)) :
    Local takes k m (Parser.peek literal >>= f) (Parser.peek literal >>= g) :=
  .choose (chooses_peek literal) found missing .inr

theorem failFinding (cause : Option String → SyntaxError.Cause) :
    Local takes k m (Parser.failFinding cause : Parser α) (Parser.failFinding cause) := by
  refine .of_turn fun head => .stays ?_ ?_ (.fail (cause (head.map Token.text)))
  · rintro cursor rfl
    rfl
  · rintro cursor rfl
    rfl

theorem expect : Local true k m (Parser.expect literal) (Parser.expect literal) :=
  .accept (.pure ()) (.failFinding _)

theorem expectToken {test : Token → Bool} {cause : Option String → SyntaxError.Cause} :
    Local true k m (Parser.expectToken test cause) (Parser.expectToken test cause) := by
  refine .of_turn fun head => ?_
  cases hfits : head.any test with
  | false =>
      have hfails : ∀ cursor : Cursor, cursor.current = head →
          Parser.expectToken test cause cursor = Parser.failFinding cause cursor := by
        rintro cursor rfl
        exact expectToken_of_unfit cause hfits
      exact .stays hfails hfails (.failFinding cause)
  | true =>
      obtain ⟨token, rfl, fits⟩ := (Option.any_eq_true ..).mp hfits
      exact .moves (Option.some_ne_none token) (fun _ h => expectToken_of_fits cause h fits)
        (fun _ h => expectToken_of_fits cause h fits) (.pure token)

end Words

theorem name : Local true k m Parser.name Parser.name := .bind .expectToken fun _ => .pure _

theorem typeName : Local true k m Parser.typeName Parser.typeName :=
  .bind .expectToken fun _ => .pure _

end Local

theorem Local.typed : Local false k m typeAnnotation typeAnnotation :=
  .accept (.bind .typeName fun _ => .pure _) (.pure none)

end Parser

end TinyScript
