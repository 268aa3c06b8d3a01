import TinyScript.Proofs.Parse.Locality
import TinyScript.Proofs.Parse.Taking

/-!
# What a reader has taken can be completed

Where a reader fails behind some words, more words can be put behind those, so that it succeeds
(`Parser.Resumable`). For a sequence of readers this needs that a reader which has succeeded still
does so when other words stand behind, if none of them continues what it has read, and that each
reader succeeds before some words (`Parser.Opens`). A reader with both is `Parser.Viable`; the rules
here put viable readers together.
-/

namespace TinyScript

open Token

/-- A word as it is found in a text. -/
def Token.plain (text : String) : Token := ⟨classify text.toList, text, 0⟩

theorem Token.isLiteral_plain (text : String) : (Token.plain text).isLiteral text = true := by
  unfold Token.isLiteral Token.plain
  split
  · exact sameIgnoringCase_refl text
  · exact beq_self_eq_true text

/-- The first word is a given literal. -/
def Before (literal : String) (tokens : List Token) : Prop :=
  ∃ token rest, tokens = token :: rest ∧ token.isLiteral literal = true

theorem before_plain (text : String) (rest : List Token) : Before text (Token.plain text :: rest) :=
  ⟨_, rest, rfl, Token.isLiteral_plain text⟩

theorem lacks_of_before {literal other : String}
    (unlike : sameIgnoringCase literal other = false) :
    ∀ tokens, Before literal tokens → Lacks other tokens := by
  rintro _ ⟨token, rest, rfl, fits⟩
  exact lacks_of_isLiteral fits unlike

theorem unfollowed_of_before {literal : String} {rank : Nat} (closing : closes literal = true) :
    ∀ tokens, Before literal tokens → Unfollowed rank tokens := by
  rintro _ ⟨token, rest, rfl, fits⟩
  exact unfollowed_of_closes fits closing rank

namespace Parser

variable {α β : Type} {takes takes' : Bool} {k k' : Nat} {p : Parser α}
  {starts starts' follow follow' between : List Token → Prop}

/-- There are words, which start in a given way before any that may follow, of which a reader makes
a value. -/
def Opens (p : Parser α) (value : α) (starts follow : List Token → Prop) : Prop :=
  ∃ words, (∀ behind, follow behind → starts (words ++ behind)) ∧
    ∀ (cursor : Cursor) (behind : List Token), cursor.rest = words ++ behind → follow behind →
      p cursor = .ok value (cursor.past words)

/-- What a reader makes of other words behind those it took: the same value if they may follow or
start with the word it stopped at, and some value, behind a few words more, if it failed. -/
def Resumes (p : Parser α) (follow : List Token → Prop) (used rest : List Token) :
    Except SyntaxError.Cause α → Prop
  | .ok value => ∀ (other : Cursor) (behind : List Token), other.rest = used ++ behind →
      follow behind ∨ behind.head? = rest.head? → p other = .ok value (other.past used)
  | .error _ => used ≠ [] → ∃ more value, ∀ (other : Cursor) (behind : List Token),
      other.rest = used ++ (more ++ behind) → follow behind →
        p other = .ok value (other.past (used ++ more))

/-- A reader stops where it did if the words behind it are some, and otherwise if what may follow it
stands there. -/
theorem Resumes.stops {value : α} {used used' rest behind : List Token} {other : Cursor}
    (h : Resumes p follow used (used' ++ rest) (.ok value))
    (hsplit : other.rest = used ++ (used' ++ behind))
    (hbehind : used' ≠ [] ∨ follow behind ∨ behind.head? = rest.head?) :
    p other = .ok value (other.past used) := by
  refine h other _ hsplit ?_
  rcases hbehind with hused | hfollow | hhead
  · obtain ⟨token, used', rfl⟩ := List.exists_cons_of_ne_nil hused
    exact .inr rfl
  · cases used' with
    | nil => exact .inl hfollow
    | cons => exact .inr rfl
  · exact .inr (Cursor.head_append hhead)

/-- With fewer than `k` words left, what a reader has taken can be completed. If `takes` holds, it
takes a word at least where it succeeds. -/
def Resumable (takes : Bool) (k : Nat) (p : Parser α) (follow : List Token → Prop) : Prop :=
  ∀ cursor : Cursor, cursor.remaining < k → ∃ used rest outcome,
    cursor.rest = used ++ rest ∧ p cursor = (cursor.past used).ending outcome ∧
      (takes = true → ∀ value, outcome = .ok value → used ≠ []) ∧ Resumes p follow used rest outcome

/-- A reader that succeeds before some words, and with what it takes of others if they are
completed. -/
structure Viable (takes : Bool) (k : Nat) (p : Parser α) (starts follow : List Token → Prop) :
    Prop where
  opens : ∃ value, Opens p value starts follow
  resumable : Resumable takes k p follow

/-! ## Words that are read -/

namespace Opens

variable {value : α}

protected theorem pure : Opens (pure value) value follow follow :=
  ⟨[], fun _ h => h, fun _ _ _ _ => rfl⟩

theorem weaken (h : Opens p value starts follow) (hstarts : ∀ rest, starts rest → starts' rest)
    (hfollow : ∀ rest, follow' rest → follow rest) : Opens p value starts' follow' := by
  obtain ⟨words, hwords, hran⟩ := h
  exact ⟨words, fun behind hbehind => hstarts _ (hwords behind (hfollow _ hbehind)),
    fun cursor behind hrest hbehind => hran cursor behind hrest (hfollow _ hbehind)⟩

theorem bind {f : α → Parser β} {value' : β} (first : Opens p value starts between)
    (second : Opens (f value) value' between follow) :
    Opens (p >>= f) value' starts follow := by
  obtain ⟨words, hwords, hran⟩ := first
  obtain ⟨words', hwords', hran'⟩ := second
  refine ⟨words ++ words', fun behind hbehind => ?_, fun cursor behind hrest hbehind => ?_⟩
  · rw [List.append_assoc]
    exact hwords _ (hwords' behind hbehind)
  · rw [List.append_assoc] at hrest
    rw [bind_of_ok (hran cursor _ hrest (hwords' behind hbehind)), Cursor.past_append]
    exact hran' _ behind (Cursor.rest_past hrest) hbehind

/-- A reader may go on behind a first word. -/
theorem move {q : Parser α} {token : Token}
    (hmove : ∀ cursor : Cursor, cursor.current = some token → p cursor = q cursor.advance)
    (h : Opens q value starts follow) (hstarts : ∀ rest, starts' (token :: rest)) :
    Opens p value starts' follow := by
  obtain ⟨words, _, hran⟩ := h
  refine ⟨token :: words, fun behind _ => hstarts _, fun cursor behind hrest hbehind => ?_⟩
  rw [hmove cursor (by rw [Cursor.current, hrest]; rfl)]
  exact hran _ behind (Cursor.rest_advance hrest) hbehind

theorem stay {q : Parser α} (hstay : ∀ cursor : Cursor, starts cursor.rest → p cursor = q cursor)
    (h : Opens q value starts follow) : Opens p value starts follow := by
  obtain ⟨words, hwords, hran⟩ := h
  refine ⟨words, hwords, fun cursor behind hrest hbehind => ?_⟩
  rw [hstay cursor (hrest ▸ hwords behind hbehind)]
  exact hran cursor behind hrest hbehind

end Opens

/-! ## What is taken is completed -/

namespace Resumable

theorem fail {cause : SyntaxError.Cause} :
    Resumable takes k (Parser.fail cause : Parser α) follow :=
  fun cursor _ => ⟨[], cursor.rest, .error cause, rfl, rfl, nofun, fun h => absurd rfl h⟩

protected theorem pure {value : α} : Resumable false k (pure value) follow :=
  fun cursor _ => ⟨[], cursor.rest, .ok value, rfl, rfl, nofun, fun _ _ _ _ => rfl⟩

theorem mono (h : Resumable takes k p follow) (hk : k' ≤ k) : Resumable takes k' p follow :=
  fun cursor hcursor => h cursor (Nat.lt_of_lt_of_le hcursor hk)

/-- What one reader and then another have taken is completed behind both, if that other one succeeds
before some words, and if what may follow it may follow the first one where it takes no word. -/
theorem bindBehind {taken : Bool} {f : α → Parser β} (first : Resumable takes k p between)
    (second : ∀ value, Resumable takes' (k - takes.toNat) (f value) follow)
    (opens : ∀ value, ∃ value', Opens (f value) value' between follow)
    (hnone : takes' = false → ∀ behind, follow behind → between behind)
    (htaken : taken = true → takes = true ∨ takes' = true) :
    Resumable taken k (p >>= f) follow := by
  intro cursor hcursor
  obtain ⟨used, rest, outcome, hrest, hran, htakes, hresumes⟩ := first cursor hcursor
  cases outcome with
  | error cause =>
      -- The first reader is completed, and words that open the second one are put behind.
      refine ⟨used, rest, .error cause, hrest, bind_ending hran, nofun, fun hused => ?_⟩
      obtain ⟨more, value, hmore⟩ := hresumes hused
      obtain ⟨value', words, hwords, hopens⟩ := opens value
      refine ⟨more ++ words, value', fun other behind hsplit hbehind => ?_⟩
      rw [List.append_assoc] at hsplit
      rw [bind_of_ok (hmore other _ hsplit (hwords behind hbehind)), ← List.append_assoc,
        Cursor.past_append other (used ++ more)]
      exact hopens _ behind (Cursor.rest_past (by rw [hsplit, List.append_assoc])) hbehind
  | ok value =>
      have hused : takes.toNat ≤ used.length :=
        toNat_le_length fun htake => htakes htake value rfl
      have hshorter := Cursor.remaining_eq hrest
      obtain ⟨used', rest', outcome, hrest', hran', htakes', hresumes'⟩ :=
        second value (cursor.past used) (by omega)
      rw [Cursor.rest_past hrest] at hrest'
      subst hrest'
      refine ⟨used ++ used', rest', outcome, by rw [hrest, List.append_assoc], ?_, ?_, ?_⟩
      · rw [bind_ending hran, Cursor.past_append]
        exact hran'
      · intro htake value' hvalue' hnil
        rcases htaken htake with htake | htake
        · exact htakes htake value rfl (List.append_eq_nil_iff.mp hnil).1
        · exact htakes' htake value' hvalue' (List.append_eq_nil_iff.mp hnil).2
      cases outcome with
      | ok value' =>
          intro other behind hsplit hbehind
          rw [List.append_assoc] at hsplit
          have hran : p other = .ok value (other.past used) := by
            refine hresumes.stops hsplit ?_
            rcases hbehind with hfollow | hhead
            · cases takes' with
              | true => exact .inl (htakes' rfl value' rfl)
              | false => exact .inr (.inl (hnone rfl behind hfollow))
            · exact .inr (.inr hhead)
          rw [bind_of_ok hran, Cursor.past_append]
          exact hresumes' _ behind (Cursor.rest_past hsplit) hbehind
      | error cause =>
          intro hused
          cases used' with
          | nil =>
              -- The second reader has failed at once: some other words take its place.
              obtain ⟨value', words, hwords, hopens⟩ := opens value
              refine ⟨words, value', fun other behind hsplit hbehind => ?_⟩
              rw [List.append_nil] at hsplit ⊢
              have hran : p other = .ok value (other.past used) :=
                hresumes other _ hsplit (.inl (hwords behind hbehind))
              rw [bind_of_ok hran, Cursor.past_append]
              exact hopens _ behind (Cursor.rest_past hsplit) hbehind
          | cons token used' =>
              obtain ⟨more, value', hmore⟩ := hresumes' (List.cons_ne_nil _ _)
              refine ⟨more, value', fun other behind hsplit hbehind => ?_⟩
              rw [List.append_assoc] at hsplit
              have hran : p other = .ok value (other.past used) :=
                hresumes.stops hsplit (.inl (List.cons_ne_nil _ _))
              rw [bind_of_ok hran, List.append_assoc, Cursor.past_append]
              exact hmore _ behind (Cursor.rest_past hsplit) hbehind

/-- What a reader does where the word at the cursor, if there is one, is the given one: it goes on
as another reader, there or behind that word. Where it goes on there and need not take a word, it
goes on the same way before what may follow. -/
inductive Turn (takes : Bool) (k : Nat) (p : Parser α) (follow : List Token → Prop)
    (head : Option Token) : Prop
  | stays {takes' : Bool} {q : Parser α} (next : Resumable takes' k q follow)
      (htakes : takes = true → takes' = true)
      (here : ∀ cursor : Cursor, cursor.current = head → p cursor = q cursor)
      (there : takes' = false → ∀ cursor : Cursor, follow cursor.rest → p cursor = q cursor)
  | moves {takes' : Bool} {q : Parser α} (isWord : head ≠ none)
      (here : ∀ cursor : Cursor, cursor.current = head → p cursor = q cursor.advance)
      (next : Resumable takes' (k - 1) q follow)
      (opens : ∃ value starts, Opens q value starts follow)

theorem of_turn (h : ∀ head, Turn takes k p follow head) : Resumable takes k p follow := by
  intro cursor hcursor
  cases h cursor.current with
  | stays next hstrict here there =>
      obtain ⟨used, rest, outcome, hrest, hran, htakes, hresumes⟩ := next cursor hcursor
      refine ⟨used, rest, outcome, hrest, (here _ rfl).trans hran, fun h => htakes (hstrict h), ?_⟩
      cases outcome with
      | ok value =>
          intro other behind hsplit hbehind
          suffices hsame : p other = _ from hsame.trans (hresumes other behind hsplit hbehind)
          by_cases hused : used = []
          · rcases hbehind with hfollow | hhead
            · refine there ?_ other (by rwa [hsplit, hused])
              exact Bool.eq_false_iff.mpr fun htake => htakes htake value rfl hused
            · exact here other (Cursor.current_congr hrest hsplit (.inr hhead))
          · exact here other (Cursor.current_congr hrest hsplit (.inl hused))
      | error cause =>
          intro hused
          obtain ⟨more, value, hmore⟩ := hresumes hused
          exact ⟨more, value, fun other behind hsplit hbehind =>
            (here other (Cursor.current_congr hrest hsplit (.inl hused))).trans
              (hmore other behind hsplit hbehind)⟩
  | moves isWord here next opens =>
      obtain ⟨token, hcurrent⟩ := Option.ne_none_iff_exists'.mp isWord
      obtain ⟨rest, hrest⟩ := Cursor.current_eq_some hcurrent
      have hshorter := Cursor.remaining_advance hrest
      obtain ⟨used, rest', outcome, hrest', hran, _, hresumes⟩ := next cursor.advance (by omega)
      rw [Cursor.rest_advance hrest] at hrest'
      subst hrest'
      refine ⟨token :: used, rest', outcome, hrest, (here _ rfl).trans hran,
        fun _ _ _ => List.cons_ne_nil _ _, ?_⟩
      have hhere : ∀ (other : Cursor) (behind : List Token), other.rest = token :: behind →
          p other = _ := fun other behind hsplit =>
        here other (by rw [Cursor.current, hsplit, hcurrent]; rfl)
      cases outcome with
      | ok value =>
          exact fun other behind hsplit hbehind => (hhere other _ hsplit).trans
            (hresumes other.advance behind (Cursor.rest_advance hsplit) hbehind)
      | error cause =>
          intro _
          cases used with
          | nil =>
              obtain ⟨value, _, words, _, hopens⟩ := opens
              exact ⟨words, value, fun other behind hsplit hbehind => (hhere other _ hsplit).trans
                (hopens other.advance behind (Cursor.rest_advance hsplit) hbehind)⟩
          | cons token' used =>
              obtain ⟨more, value, hmore⟩ := hresumes (List.cons_ne_nil _ _)
              exact ⟨more, value, fun other behind hsplit hbehind => (hhere other _ hsplit).trans
                (hmore other.advance behind (Cursor.rest_advance hsplit) hbehind)⟩

end Resumable

/-! ## Rules -/

/-- Anything may follow. -/
def Anything (_ : List Token) : Prop := True

theorem isWord_of_before {rest : List Token} {literal : String} (h : Before literal rest) :
    isWord literal rest.head? = true := by
  obtain ⟨token, rest, rfl, fits⟩ := h
  exact fits

theorem isWord_of_lacks {rest : List Token} {literal : String} (h : Lacks literal rest) :
    isWord literal rest.head? = false := by
  cases rest with
  | nil => rfl
  | cons token rest => exact lacks_cons.mp h

namespace Viable

variable {literal : String}

protected theorem pure {value : α} : Viable false k (pure value) follow follow :=
  ⟨⟨value, .pure⟩, .pure⟩

theorem mono (h : Viable takes k p starts follow) (hk : k' ≤ k) : Viable takes k' p starts follow :=
  ⟨h.opens, h.resumable.mono hk⟩

/-- What is read behind a reader that takes a word has fewer words. -/
theorem bindBehind {taken : Bool} {f : α → Parser β} {between' : List Token → Prop}
    (first : Viable takes k p starts between)
    (second : ∀ value, Viable takes' (k - takes.toNat) (f value) between' follow)
    (hmeet : ∀ rest, between' rest → between rest)
    (hnone : takes' = false → ∀ rest, follow rest → between rest)
    (htaken : taken = true → takes = true ∨ takes' = true) :
    Viable taken k (p >>= f) starts follow := by
  have hopens : ∀ value, ∃ value', Opens (f value) value' between follow := fun value =>
    (second value).opens.imp fun _ h => h.weaken hmeet fun _ h => h
  refine ⟨?_, first.resumable.bindBehind (fun value => (second value).resumable) hopens hnone
    htaken⟩
  obtain ⟨value, hfirst⟩ := first.opens
  exact (hopens value).imp fun _ h => hfirst.bind h

theorem bind {f : α → Parser β} {between' : List Token → Prop}
    (first : Viable takes k p starts between)
    (second : ∀ value, Viable takes' k (f value) between' follow)
    (hmeet : ∀ rest, between' rest → between rest)
    (hnone : takes' = false → ∀ rest, follow rest → between rest) :
    Viable takes k (p >>= f) starts follow :=
  first.bindBehind (fun value => (second value).mono (Nat.sub_le ..)) hmeet hnone .inl

/-- Behind a reader that anything may follow there is nothing to see to. -/
theorem andThen {f : α → Parser β} (first : Viable takes k p starts Anything)
    (second : ∀ value, Viable takes' k (f value) between follow) :
    Viable takes k (p >>= f) starts follow :=
  first.bind second (fun _ _ => trivial) fun _ _ _ => trivial

/-- A reader may be followed by one that takes a word. -/
theorem upTo {f : α → Parser β} {between' : List Token → Prop}
    (first : Viable takes k p starts between)
    (second : ∀ value, Viable true k (f value) between' follow)
    (hmeet : ∀ rest, between' rest → between rest) : Viable true k (p >>= f) starts follow :=
  first.bindBehind (fun value => (second value).mono (Nat.sub_le ..)) hmeet nofun fun _ => .inr rfl

theorem pureBind {value : α} {f : α → Parser β} (h : Viable takes k (f value) starts follow) :
    Viable takes k (pure value >>= f) starts follow := by
  rwa [pure_bind]

theorem assoc {γ : Type} {f : α → Parser β} {g : β → Parser γ}
    (h : Viable takes k ((p >>= f) >>= g) starts follow) :
    Viable takes k (p >>= fun value => f value >>= g) starts follow := by
  rwa [← bind_assoc]

theorem map {f : α → β} (h : Viable takes k p starts follow) :
    Viable takes k (f <$> p) starts follow := by
  rw [map_eq_pure_bind]
  exact h.bind (fun _ => .pure) (fun _ h => h) fun _ _ h => h

end Viable

section Choices

variable {more : Parser Bool} {moves : Bool} {answer : Option Token → Bool} {f : Bool → Parser α}

/-- Where a reader goes on by its choice, the answer is no before what may follow if it need not
take a word then. -/
theorem Resumable.choose (hmore : Chooses more moves answer)
    (taken : Resumable takes' (k - moves.toNat) (f true) follow)
    (opens : moves = true → ∃ value starts, Opens (f true) value starts follow)
    (hless : moves = true ∨ takes' = true) (left : Resumable takes k (f false) follow)
    (hnone : takes = false → ∀ rest, follow rest → answer rest.head? = false) :
    Resumable takes k (more >>= f) follow := by
  refine .of_turn fun head => ?_
  cases hanswer : answer head with
  | false =>
      refine .stays left (fun h => h) ?_ ?_
      · rintro cursor rfl
        exact bind_of_ok (hmore.missing cursor hanswer)
      · exact fun htakes cursor hfollow =>
          bind_of_ok (hmore.missing cursor (hnone htakes _ hfollow))
  | true =>
      have hfound : ∀ cursor : Cursor, cursor.current = head →
          (more >>= f) cursor = f true (if moves then cursor.advance else cursor) := by
        rintro cursor rfl
        exact bind_of_ok (hmore.found cursor hanswer)
      cases moves with
      | true =>
          exact .moves (hmore.isWord hanswer) hfound taken (opens rfl)
      | false =>
          obtain rfl : takes' = true := hless.resolve_left nofun
          exact .stays taken (fun _ => rfl) hfound nofun

/-- Where more may be read, it may be left out. -/
theorem Viable.skipping (hmore : Chooses more moves answer)
    (taken : Viable takes' (k - moves.toNat) (f true) starts' follow)
    (hless : moves = true ∨ takes' = true) (left : Viable takes k (f false) starts follow)
    (hstarts : ∀ rest, starts rest → answer rest.head? = false)
    (hnone : takes = false → ∀ rest, follow rest → answer rest.head? = false) :
    Viable takes k (more >>= f) starts follow := by
  refine ⟨left.opens.imp fun _ h => ?_, .choose hmore taken.resumable
    (fun _ => taken.opens.imp fun _ h => ⟨_, h⟩) hless left.resumable hnone⟩
  exact h.stay fun cursor hcursor => bind_of_ok (hmore.missing cursor (hstarts _ hcursor))

end Choices

section Words

variable {literal : String} {f : Bool → Parser α}

theorem Resumable.accept (taken : Viable takes' (k - 1) (f true) starts' follow)
    (left : Resumable takes k (f false) follow)
    (hnone : takes = false → ∀ rest, follow rest → Lacks literal rest) :
    Resumable takes k (Parser.accept literal >>= f) follow :=
  .choose (chooses_accept literal) taken.resumable (fun _ => taken.opens.imp fun _ h => ⟨_, h⟩)
    (.inl rfl) left fun htakes rest hrest => isWord_of_lacks (hnone htakes rest hrest)

theorem Viable.skip (taken : Viable takes' (k - 1) (f true) starts' follow)
    (left : Viable takes k (f false) starts follow)
    (hlacks : ∀ rest, starts rest → Lacks literal rest)
    (hnone : takes = false → ∀ rest, follow rest → Lacks literal rest) :
    Viable takes k (Parser.accept literal >>= f) starts follow :=
  .skipping (chooses_accept literal) taken (.inl rfl) left
    (fun rest hrest => isWord_of_lacks (hlacks rest hrest))
    fun htakes rest hrest => isWord_of_lacks (hnone htakes rest hrest)

/-- A literal may be left out where it does not stand. -/
theorem Opens.skip {value : α} (left : Opens (f false) value starts follow)
    (hlacks : ∀ rest, starts rest → Lacks literal rest) :
    Opens (Parser.accept literal >>= f) value starts follow :=
  left.stay fun cursor h =>
    bind_of_ok ((chooses_accept literal).missing cursor (isWord_of_lacks (hlacks _ h)))

/-- A literal may be put where it may be read. -/
theorem Opens.accept {value : α} (taken : Opens (f true) value starts follow) :
    Opens (Parser.accept literal >>= f) value (Before literal) follow := by
  refine taken.move (fun cursor hcurrent => ?_) (before_plain literal)
  exact bind_of_ok ((chooses_accept literal).found cursor
    (by rw [hcurrent]; exact Token.isLiteral_plain literal))

theorem Viable.accept (taken : Viable takes' (k - 1) (f true) starts' follow)
    (left : Resumable takes k (f false) follow)
    (hnone : takes = false → ∀ rest, follow rest → Lacks literal rest) :
    Viable takes k (Parser.accept literal >>= f) (Before literal) follow :=
  ⟨taken.opens.imp fun _ h => .accept h, .accept taken left hnone⟩

theorem Resumable.failFinding (cause : Option String → SyntaxError.Cause) :
    Resumable takes k (Parser.failFinding cause : Parser α) follow := by
  intro cursor _
  exact ⟨[], cursor.rest, .error _, rfl, rfl, nofun, fun h => absurd rfl h⟩

theorem Viable.expect : Viable true k (Parser.expect literal) (Before literal) Anything :=
  .accept .pure (.failFinding _) nofun

theorem Opens.expect : Opens (Parser.expect literal) () (Before literal) Anything :=
  (show Viable true 0 (Parser.expect literal) _ _ from .expect).opens.elim fun _ h => h

theorem Viable.expectToken {test : Token → Bool} {cause : Option String → SyntaxError.Cause}
    (hliteral : test (Token.plain literal) = true) :
    Viable true k (Parser.expectToken test cause) (Before literal) Anything := by
  refine ⟨⟨Token.plain literal, ?_⟩, .of_turn fun head => ?_⟩
  · exact Opens.pure.move (fun _ h => expectToken_of_fits cause h hliteral) (before_plain literal)
  · cases hfits : head.any test with
    | false =>
        refine .stays (.failFinding cause) (fun h => h) ?_ nofun
        rintro cursor rfl
        exact expectToken_of_unfit cause hfits
    | true =>
        obtain ⟨token, rfl, fits⟩ := (Option.any_eq_true ..).mp hfits
        exact .moves (Option.some_ne_none token) (fun _ h => expectToken_of_fits cause h fits) .pure
          ⟨token, Anything, .pure⟩

/-- A literal that must not stand here is none of the words that may. -/
theorem Viable.unlessAhead {cause : SyntaxError.Cause} {g : Unit → Parser α}
    (next : Viable true k (g ()) starts follow)
    (hlacks : ∀ rest, starts rest → Lacks literal rest) :
    Viable true k (Parser.peek literal >>= fun found =>
      if found then Parser.fail cause >>= g else g ()) starts follow := by
  have hfails : Resumable true k (Parser.fail cause >>= g) follow := fun cursor _ =>
    ⟨[], cursor.rest, .error cause, rfl, bind_of_error rfl, nofun, fun h => absurd rfl h⟩
  refine ⟨next.opens.imp fun _ h => ?_, .choose (chooses_peek literal) hfails nofun (.inr rfl)
    next.resumable nofun⟩
  exact h.stay fun cursor hcursor =>
    bind_of_ok ((chooses_peek literal).missing cursor (isWord_of_lacks (hlacks _ hcursor)))

end Words

/-! ### Lists with an item -/

section Filled

variable {cause : SyntaxError.Cause} {p : Parser (List α)}

/-- Fails behind a reader that has found no item. -/
def filled (p : Parser (List α)) (cause : SyntaxError.Cause) : Parser (List α) :=
  p >>= fun items => if items.isEmpty then fail cause else pure items

theorem bind_check {g : List α → Unit → Parser β} :
    (p >>= fun items => if items.isEmpty then fail cause >>= g items else g items ()) =
      filled p cause >>= fun items => g items () := by
  rw [filled, bind_assoc]
  congr 1
  funext items
  cases items.isEmpty <;> rfl

/-- A reader that takes no word where it finds no item. -/
def StaysEmpty (p : Parser (List α)) : Prop :=
  ∀ cursor place, p cursor = .ok [] place → place = cursor

theorem filled_of_ne_nil {cursor place : Cursor} {items : List α} (hsome : items ≠ [])
    (hran : p cursor = .ok items place) : filled p cause cursor = .ok items place := by
  rw [filled, bind_of_ok hran, if_neg (by simpa using hsome)]
  rfl

theorem Resumable.filled (h : Resumable takes k p follow) (hempty : StaysEmpty p) :
    Resumable takes k (filled p cause) follow := by
  intro cursor hcursor
  obtain ⟨used, rest, outcome, hrest, hran, htakes, hresumes⟩ := h cursor hcursor
  cases outcome with
  | ok items =>
      by_cases hsome : items = []
      · subst hsome
        have hran' : Parser.filled p cause cursor = .error (cursor.error cause) cursor := by
          rw [Parser.filled, bind_of_ok hran, hempty cursor _ hran]
          rfl
        exact ⟨[], cursor.rest, .error cause, rfl, hran', nofun, fun h => absurd rfl h⟩
      · exact ⟨used, rest, .ok items, hrest, filled_of_ne_nil hsome hran, htakes,
          fun other behind hsplit hbehind =>
            filled_of_ne_nil hsome (hresumes other behind hsplit hbehind)⟩
  | error cause' =>
      refine ⟨used, rest, .error cause', hrest, bind_of_error hran, nofun, fun hused => ?_⟩
      obtain ⟨more, items, hmore⟩ := hresumes hused
      refine ⟨more, items, fun other behind hsplit hbehind => ?_⟩
      have hran := hmore other behind hsplit hbehind
      refine filled_of_ne_nil ?_ hran
      -- With a word taken there is an item.
      rintro rfl
      rw [← List.append_assoc] at hsplit
      have hrest := Cursor.rest_past hsplit
      rw [hempty other _ hran, hsplit] at hrest
      have hnil : [] = used ++ more := List.append_cancel_right hrest.symm
      exact hused (List.append_eq_nil_iff.mp hnil.symm).1

theorem Viable.filled {item : α} {items : List α} (h : Resumable takes k p follow)
    (hempty : StaysEmpty p) (opens : Opens p (item :: items) starts follow) :
    Viable takes k (filled p cause) starts follow := by
  refine ⟨⟨item :: items, ?_⟩, h.filled hempty⟩
  obtain ⟨words, hwords, hran⟩ := opens
  exact ⟨words, hwords, fun cursor behind hrest hbehind =>
    filled_of_ne_nil (List.cons_ne_nil _ _) (hran cursor behind hrest hbehind)⟩

/-- A check that there is an item may come between. -/
theorem Viable.checked {g : List α → Unit → Parser β}
    (h : Viable takes k (Parser.filled p cause >>= fun items => g items ()) starts follow) :
    Viable takes k (p >>= fun items =>
      if items.isEmpty then Parser.fail cause >>= g items else g items ()) starts follow := by
  rwa [bind_check]

end Filled

end Parser

end TinyScript
