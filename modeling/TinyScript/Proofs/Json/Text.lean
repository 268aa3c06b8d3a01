import Mathlib.Data.List.TakeWhile
import TinyScript.Json.Read
import TinyScript.Json.Write
import TinyScript.Proofs.Json.Strings
import TinyScript.Proofs.Numeral

/-!
# Values are read back from their text

A value that is made of integers and escaped strings (`Written`) is read back from its indented text
(`read?_pretty`). Inside of a larger text this holds at every depth and in front of whatever may
follow a value (`ReadsBack`), and two steps for each character are enough for the reader.
-/

namespace TinyScript.Json

open Text

/-! ## Values that are written -/

/-- Values as they are made: numbers are integers, and what stands between quotes is escaped. -/
inductive Written : Json → Prop
  | null : Written null
  | bool (value : Bool) : Written (bool value)
  | int (n : Int) : Written (ofInt n)
  | string (text : String) : Written (ofString text)
  | array {items : List Json} : (∀ item ∈ items, Written item) → Written (array items)
  | record {members : List (String × Json)} :
      (∀ member ∈ members, Written member.2) → Written (record members)

/-! ## Blanks -/

/-- Whether a value may start with a character: no blank and no closing bracket does. -/
def startsValue (c : Char) : Bool := !" \n\t\r]\x7d".toList.contains c

/-- A place behind a value. -/
def Ends (rest : List Char) : Prop := ∀ c ∈ rest.head?, c = ',' ∨ c = '\n'

variable {c : Char} {text rest : List Char}

theorem skipBlanks_of_startsValue (h : startsValue c = true) :
    skipBlanks (c :: text) = c :: text := by
  unfold skipBlanks
  rw [List.dropWhile_cons_of_neg]
  intro hblank
  simp only [decide_eq_true_eq] at hblank
  rcases hblank with rfl | rfl | rfl | rfl <;> exact absurd h (by decide)

theorem skipBlanks_append {blanks : List Char} (h : ∀ c ∈ blanks, c = ' ' ∨ c = '\n') :
    skipBlanks (blanks ++ text) = skipBlanks text := by
  unfold skipBlanks
  refine List.dropWhile_append_of_pos fun c hmem => ?_
  rcases h c hmem with rfl | rfl <;> rfl

theorem readValue_append {blanks : List Char} (h : ∀ c ∈ blanks, c = ' ' ∨ c = '\n') (bound : Nat) :
    readValue bound (blanks ++ text) = readValue bound text := by
  cases bound with
  | zero => rw [readValue, readValue]
  | succ bound => rw [readValue, readValue, skipBlanks_append h]

theorem toList_lineStart (depth : Nat) :
    (lineStart depth).toList = '\n' :: List.replicate (2 * depth) ' ' := by
  simp [lineStart]

theorem blank_of_mem_lineStart {depth : Nat} :
    ∀ c ∈ (lineStart depth).toList, c = ' ' ∨ c = '\n' := by
  intro c hmem
  rw [toList_lineStart] at hmem
  rcases List.mem_cons.mp hmem with rfl | hmem
  · exact .inr rfl
  · exact .inl (List.mem_replicate.mp hmem).2

theorem ends_lineStart (depth : Nat) : Ends ((lineStart depth).toList ++ rest) := by
  rw [toList_lineStart]
  rintro c ⟨⟩
  exact .inr rfl

theorem ends_comma : Ends (',' :: rest) := by
  rintro c ⟨⟩
  exact .inl rfl

/-! ## Integers -/

theorem cutDigits_append (hne : text ≠ []) (h : ∀ c ∈ text, c.isDigit = true)
    (hrest : ∀ c ∈ rest.head?, c.isDigit = false) :
    cutDigits (text ++ rest) = some (text, rest) := by
  have htake : rest.takeWhile Char.isDigit = [] := by
    cases rest with
    | nil => rfl
    | cons c rest => rw [List.takeWhile_cons_of_neg (by simp [hrest c rfl])]
  have hdrop : rest.dropWhile Char.isDigit = rest := by
    cases rest with
    | nil => rfl
    | cons c rest => rw [List.dropWhile_cons_of_neg (by simp [hrest c rfl])]
  unfold cutDigits
  rw [List.takeWhile_append_of_pos h, List.dropWhile_append_of_pos h, htake, hdrop, List.append_nil]
  split
  · exact absurd rfl hne
  · rfl

section Ends

variable (h : Ends rest)
include h

theorem Ends.not_isDigit : ∀ c ∈ rest.head?, c.isDigit = false := by
  intro c hmem
  rcases h c hmem with rfl | rfl <;> rfl

theorem Ends.cutFraction : cutFraction rest = some ([], rest) := by
  unfold Json.cutFraction
  split
  · rcases h '.' rfl with h | h <;> exact absurd h (by decide)
  · rfl

theorem Ends.cutExponent : cutExponent rest = some ([], rest) := by
  unfold Json.cutExponent
  split
  · next c rest =>
      rw [if_neg]
      rcases h c rfl with rfl | rfl <;> decide
  · rfl

theorem cutWhole_digits (n : Nat) : cutWhole (digits n ++ rest) = some (digits n, rest) := by
  have hcut := cutDigits_append (digits_ne_nil (n := n)) isDigit_of_mem_digits h.not_isDigit
  unfold cutWhole
  split
  · next text htext =>
      have hzero : n = 0 := by
        cases hdigits : digits n with
        | nil => exact absurd hdigits digits_ne_nil
        | cons first front =>
            rw [hdigits, List.cons_append] at htext
            obtain ⟨rfl, -⟩ := List.cons.inj htext
            exact eq_zero_of_digits_eq hdigits
      rw [hzero, digits_zero] at htext ⊢
      obtain rfl : rest = text := (List.cons.inj htext).2
      have hnone : rest.head?.any Char.isDigit = false := by
        cases hhead : rest.head? with
        | none => rfl
        | some c => exact h.not_isDigit c hhead
      rw [hnone, if_neg (by decide)]
  · exact hcut

theorem cutUnsigned_digits (n : Nat) : cutUnsigned (digits n ++ rest) = some (digits n, rest) := by
  simp [cutUnsigned, cutWhole_digits h, h.cutFraction, h.cutExponent]

theorem cutNumber_integerDigits (n : Int) :
    cutNumber (integerDigits n ++ rest) = some (integerDigits n, rest) := by
  unfold integerDigits
  split
  · rw [List.cons_append, cutNumber, cutUnsigned_digits h, Option.map_some]
  · unfold cutNumber
    split
    · next text htext =>
        cases hdigits : digits n.natAbs with
        | nil => exact absurd hdigits digits_ne_nil
        | cons first front =>
            rw [hdigits, List.cons_append] at htext
            obtain ⟨rfl, -⟩ := List.cons.inj htext
            have hminus := isDigit_of_mem_digits (n := n.natAbs) '-' (by simp [hdigits])
            exact absurd hminus (by decide)
    · exact cutUnsigned_digits h _

end Ends

/-! ## Values -/

/-- Wherever a value is written, it is read back. -/
def ReadsBack (json : Json) : Prop :=
  ∀ depth bound rest, Ends rest → 2 * (prettyAt depth json).toList.length ≤ bound →
    readValue bound ((prettyAt depth json).toList ++ rest) = some (json, rest)

/-- The first character of an integer. -/
theorem head?_integerDigits (n : Int) :
    ∃ c, (integerDigits n).head? = some c ∧ (c = '-' ∨ c.isDigit = true) := by
  unfold integerDigits
  split
  · exact ⟨'-', rfl, .inl rfl⟩
  · cases hdigits : digits n.natAbs with
    | nil => exact absurd hdigits digits_ne_nil
    | cons first front =>
        exact ⟨first, rfl, .inr (isDigit_of_mem_digits (n := n.natAbs) first (by simp [hdigits]))⟩

theorem startsValue_of_integer (h : c = '-' ∨ c.isDigit = true) : startsValue c = true := by
  rw [startsValue, Bool.not_eq_true', ← Bool.not_eq_true, List.contains_iff_mem]
  intro hmem
  have hnone : ∀ c ∈ " \n\t\r]\x7d".toList, ¬ (c = '-' ∨ c.isDigit = true) := by simp
  exact hnone c hmem h

/-- The first character of a written value. -/
theorem startsValue_prettyAt {json : Json} (h : Written json) (depth : Nat) :
    ∃ c, (prettyAt depth json).toList.head? = some c ∧ startsValue c = true := by
  cases h with
  | null => exact ⟨'n', by simp [prettyAt], by decide⟩
  | bool value =>
      cases value with
      | false => exact ⟨'f', by simp [prettyAt], by decide⟩
      | true => exact ⟨'t', by simp [prettyAt], by decide⟩
  | int n =>
      obtain ⟨c, hhead, hc⟩ := head?_integerDigits n
      exact ⟨c, by rwa [ofInt, prettyAt, toList_toString], startsValue_of_integer hc⟩
  | string text => exact ⟨'"', by simp [ofString, prettyAt, quoted], by decide⟩
  | @array items _ =>
      refine ⟨'[', ?_, by decide⟩
      cases items <;> simp [prettyAt]
  | @record members _ =>
      refine ⟨'\x7b', ?_, by decide⟩
      cases members <;> simp [record, prettyAt]

/-! ### Scalars -/

theorem readsBack_null : ReadsBack null := by
  intro depth bound rest _ hbound
  cases bound with
  | zero => simp [prettyAt] at hbound
  | succ bound => simp [prettyAt, readValue, skipBlanks]

theorem readsBack_bool (value : Bool) : ReadsBack (bool value) := by
  intro depth bound rest _ hbound
  cases bound with
  | zero => cases value <;> simp [prettyAt] at hbound
  | succ bound => cases value <;> simp [prettyAt, readValue, skipBlanks]

theorem readsBack_ofString (text : String) : ReadsBack (ofString text) := by
  intro depth bound rest _ hbound
  cases bound with
  | zero => simp [ofString, prettyAt, quoted] at hbound
  | succ bound =>
      have hcut : cutString (escape text.toList ++ '"' :: rest) = some (escape text.toList, rest) :=
        cutString_escape text.toList
      simp [ofString, prettyAt, quoted, quote, readValue, skipBlanks, hcut]

theorem readsBack_ofInt (n : Int) : ReadsBack (ofInt n) := by
  intro depth bound rest hrest hbound
  obtain ⟨c, hhead, hc⟩ := head?_integerDigits n
  obtain ⟨text, htext⟩ := List.head?_eq_some_iff.mp hhead
  have hskip : skipBlanks (integerDigits n ++ rest) = integerDigits n ++ rest := by
    rw [htext]
    exact skipBlanks_of_startsValue (startsValue_of_integer hc)
  have hne : ∀ {mark tail}, integerDigits n ++ rest = mark :: tail →
      mark = '-' ∨ mark.isDigit = true := by
    intro mark tail heq
    rw [htext, List.cons_append] at heq
    rwa [← (List.cons.inj heq).1]
  rw [ofInt, prettyAt, toList_toString] at hbound ⊢
  cases bound with
  | zero => simp [htext] at hbound
  | succ bound =>
      rw [readValue, hskip]
      -- Six kinds of values start with another character; what is left is a number.
      split
      case h_7 =>
        rw [cutNumber_integerDigits hrest, Option.map_some, ← toList_toString]
        simp only [String.ofList_toList]
      all_goals next heq => exact absurd (hne heq) (by decide)

/-! ### Items -/

theorem skipBlanks_lineStart (depth : Nat) :
    skipBlanks ((lineStart depth).toList ++ text) = skipBlanks text :=
  skipBlanks_append blank_of_mem_lineStart

theorem skipBlanks_bracket (h : c = ',' ∨ c = ']' ∨ c = ':' ∨ c = '\x7d' ∨ c = '"') :
    skipBlanks (c :: text) = c :: text := by
  unfold skipBlanks
  rw [List.dropWhile_cons_of_neg]
  rcases h with rfl | rfl | rfl | rfl | rfl <;> decide

/-- Items are read back one by one, up to the bracket that closes them. -/
theorem readItems_prettyItems {items : List Json} (hback : ∀ item ∈ items, ReadsBack item)
    (depth outer : Nat) {bound : Nat} (hne : items ≠ [])
    (hbound : 2 * (prettyItems depth items).toList.length + 1 ≤ bound) :
    readItems bound
        ((prettyItems depth items).toList ++ ((lineStart outer).toList ++ ']' :: rest)) =
      some (items, rest) := by
  induction items generalizing bound with
  | nil => exact absurd rfl hne
  | cons item items ih =>
      obtain ⟨hitem, hitems⟩ := List.forall_mem_cons.mp hback
      cases bound with
      | zero => simp at hbound
      | succ bound =>
          cases items with
          | nil =>
              rw [prettyItems, String.toList_append, List.length_append] at hbound
              have hends : Ends ((lineStart outer).toList ++ ']' :: rest) := ends_lineStart outer
              have hread := hitem depth bound _ hends (by omega)
              rw [prettyItems, String.toList_append, List.append_assoc, readItems,
                readValue_append blank_of_mem_lineStart, hread]
              simp [skipBlanks_lineStart, skipBlanks_bracket]
          | cons next items =>
              rw [prettyItems] at hbound ⊢
              · simp only [String.toList_append, List.length_append, List.append_assoc] at hbound ⊢
                -- The start of the line pays for the step that this item takes.
                have hline : 0 < (lineStart depth).toList.length := by simp [toList_lineStart]
                have hends : Ends (',' :: ((prettyItems depth (next :: items)).toList ++
                    ((lineStart outer).toList ++ ']' :: rest))) := ends_comma
                have hread := hitem depth bound _ hends (by omega)
                have hrest : readItems bound _ = _ := ih hitems (List.cons_ne_nil _ _) (by omega)
                have hcomma : ",".toList = [','] := by simp
                rw [readItems, readValue_append blank_of_mem_lineStart, hcomma,
                  List.singleton_append, hread]
                simp only [skipBlanks_bracket (.inl rfl), hrest, Option.map_some]
              · exact fun h => absurd h (List.cons_ne_nil _ _)
              · exact fun h => absurd h (List.cons_ne_nil _ _)

/-! ### Members -/

theorem toList_quoted_quote (text : String) :
    (quoted (quote text)).toList = '"' :: (escape text.toList ++ ['"']) := by
  simp [quoted, quote]

/-- What stands between a key and its value is passed over. -/
theorem readValue_behind_colon (bound : Nat) :
    readValue bound (' ' :: text) = readValue bound text := by
  rw [← List.singleton_append]
  refine readValue_append (fun c hmem => ?_) bound
  exact .inl (List.mem_singleton.mp hmem)

/-- Members are read back one by one, up to the brace that closes them. -/
theorem readMembers_prettyMembers {members : List (String × Json)}
    (hkeys : ∀ member ∈ members, ∃ key, member.1 = quote key)
    (hback : ∀ member ∈ members, ReadsBack member.2) (depth outer : Nat) {bound : Nat}
    (hne : members ≠ []) (hbound : 2 * (prettyMembers depth members).toList.length + 1 ≤ bound) :
    readMembers bound
        ((prettyMembers depth members).toList ++ ((lineStart outer).toList ++ '\x7d' :: rest)) =
      some (members, rest) := by
  induction members generalizing bound with
  | nil => exact absurd rfl hne
  | cons member members ih =>
      obtain ⟨written, value⟩ := member
      obtain ⟨⟨key, hkey⟩, hothers⟩ := List.forall_mem_cons.mp hkeys
      obtain ⟨hvalue, hmembers⟩ := List.forall_mem_cons.mp hback
      obtain rfl : written = quote key := hkey
      have hcolon : ": ".toList = [':', ' '] := by simp
      have hline : 0 < (lineStart depth).toList.length := by simp [toList_lineStart]
      cases bound with
      | zero => simp at hbound
      | succ bound =>
          cases members with
          | nil =>
              rw [prettyMembers] at hbound ⊢
              simp only [String.toList_append, List.length_append, List.append_assoc] at hbound ⊢
              have hends : Ends ((lineStart outer).toList ++ '\x7d' :: rest) := ends_lineStart outer
              have hread : readValue bound _ = some (value, _) :=
                hvalue depth bound _ hends (by dsimp only; omega)
              rw [readMembers, skipBlanks_lineStart, toList_quoted_quote, hcolon]
              simp only [List.cons_append, List.append_assoc, List.nil_append,
                skipBlanks_bracket (.inr (.inr (.inr (.inr rfl)))), cutString_escape,
                skipBlanks_bracket (.inr (.inr (.inl rfl))), readValue_behind_colon, hread,
                skipBlanks_lineStart, skipBlanks_bracket (.inr (.inr (.inr (.inl rfl)))), quote]
          | cons next members =>
              rw [prettyMembers] at hbound ⊢
              · simp only [String.toList_append, List.length_append, List.append_assoc] at hbound ⊢
                have hends : Ends (',' :: ((prettyMembers depth (next :: members)).toList ++
                    ((lineStart outer).toList ++ '\x7d' :: rest))) := ends_comma
                have hread : readValue bound _ = some (value, _) :=
                  hvalue depth bound _ hends (by dsimp only; omega)
                have hrest : readMembers bound _ = _ :=
                  ih hothers hmembers (List.cons_ne_nil _ _) (by omega)
                have hcomma : ",".toList = [','] := by simp
                rw [readMembers, skipBlanks_lineStart, toList_quoted_quote, hcolon, hcomma]
                simp only [List.cons_append, List.append_assoc, List.nil_append,
                  skipBlanks_bracket (.inr (.inr (.inr (.inr rfl)))), cutString_escape,
                  skipBlanks_bracket (.inr (.inr (.inl rfl))), readValue_behind_colon, hread,
                  skipBlanks_bracket (.inl rfl), hrest, Option.map_some, quote]
              · exact fun h => absurd h (List.cons_ne_nil _ _)
              · exact fun h => absurd h (List.cons_ne_nil _ _)

/-! ### Arrays and objects -/

theorem toList_prettyAt_array {items : List Json} (hne : items ≠ []) (depth : Nat) :
    (prettyAt depth (array items)).toList =
      '[' :: ((prettyItems (depth + 1) items).toList ++ ((lineStart depth).toList ++ [']'])) := by
  rw [prettyAt]
  · simp
  · exact hne

theorem toList_prettyAt_object {members : List (String × Json)} (hne : members ≠ []) (depth : Nat) :
    (prettyAt depth (object members)).toList =
      '\x7b' :: ((prettyMembers (depth + 1) members).toList ++
        ((lineStart depth).toList ++ ['\x7d'])) := by
  rw [prettyAt]
  · simp
  · exact hne

/-- Behind an opening bracket stands no closing one. -/
theorem skipBlanks_prettyItems {items : List Json} (hwritten : ∀ item ∈ items, Written item)
    (hne : items ≠ []) (depth : Nat) (rest : List Char) :
    ∃ c text, skipBlanks ((prettyItems depth items).toList ++ rest) = c :: text ∧
      startsValue c = true := by
  cases items with
  | nil => exact absurd rfl hne
  | cons item items =>
      obtain ⟨c, hhead, hc⟩ := startsValue_prettyAt (hwritten item List.mem_cons_self) depth
      obtain ⟨text, htext⟩ := List.head?_eq_some_iff.mp hhead
      obtain ⟨more, hmore⟩ : ∃ more, (prettyItems depth (item :: items)).toList =
          (lineStart depth).toList ++ ((prettyAt depth item).toList ++ more) := by
        cases items with
        | nil => exact ⟨[], by simp [prettyItems]⟩
        | cons next items =>
            exact ⟨',' :: (prettyItems depth (next :: items)).toList, by simp [prettyItems]⟩
      refine ⟨c, text ++ (more ++ rest), ?_, hc⟩
      rw [hmore, List.append_assoc, List.append_assoc, skipBlanks_lineStart, htext]
      exact skipBlanks_of_startsValue hc

theorem skipBlanks_prettyMembers {members : List (String × Json)} (hne : members ≠ [])
    (depth : Nat) (rest : List Char) :
    ∃ text, skipBlanks ((prettyMembers depth members).toList ++ rest) = '"' :: text := by
  cases members with
  | nil => exact absurd rfl hne
  | cons member members =>
      obtain ⟨written, value⟩ := member
      obtain ⟨more, hmore⟩ : ∃ more, (prettyMembers depth ((written, value) :: members)).toList =
          (lineStart depth).toList ++ '"' :: more := by
        cases members <;> exact ⟨_, by simp [prettyMembers, quoted]; rfl⟩
      refine ⟨more ++ rest, ?_⟩
      rw [hmore, List.append_assoc, skipBlanks_lineStart]
      exact skipBlanks_bracket (.inr (.inr (.inr (.inr rfl))))

theorem readsBack_array {items : List Json} (hwritten : ∀ item ∈ items, Written item)
    (hback : ∀ item ∈ items, ReadsBack item) : ReadsBack (array items) := by
  intro depth bound rest _ hbound
  by_cases hne : items = []
  · subst hne
    cases bound with
    | zero => simp [prettyAt] at hbound
    | succ bound => simp [prettyAt, readValue, skipBlanks]
  rw [toList_prettyAt_array hne] at hbound ⊢
  simp only [List.length_cons, List.length_append, List.length_nil] at hbound
  cases bound with
  | zero => omega
  | succ bound =>
      -- The two brackets pay for entering the array and for the step at its last item.
      have hread : readItems bound _ = some (items, rest) :=
        readItems_prettyItems hback (depth + 1) depth hne (by omega)
      obtain ⟨c, text, hfirst, hc⟩ := skipBlanks_prettyItems hwritten hne (depth + 1)
        ((lineStart depth).toList ++ ']' :: rest)
      rw [List.cons_append, List.append_assoc, List.append_assoc, List.singleton_append, readValue,
        skipBlanks_of_startsValue (by decide)]
      simp only [hread, Option.map_some]
      split
      · next hclosing =>
          rw [hfirst] at hclosing
          obtain ⟨rfl, -⟩ := List.cons.inj hclosing
          exact absurd hc (by decide)
      · rfl

theorem readsBack_object {members : List (String × Json)}
    (hkeys : ∀ member ∈ members, ∃ key, member.1 = quote key)
    (hback : ∀ member ∈ members, ReadsBack member.2) : ReadsBack (object members) := by
  intro depth bound rest _ hbound
  by_cases hne : members = []
  · subst hne
    cases bound with
    | zero => simp [prettyAt] at hbound
    | succ bound => simp [prettyAt, readValue, skipBlanks]
  rw [toList_prettyAt_object hne] at hbound ⊢
  simp only [List.length_cons, List.length_append, List.length_nil] at hbound
  cases bound with
  | zero => omega
  | succ bound =>
      have hread : readMembers bound _ = some (members, rest) :=
        readMembers_prettyMembers hkeys hback (depth + 1) depth hne (by omega)
      obtain ⟨text, hfirst⟩ := skipBlanks_prettyMembers hne (depth + 1)
        ((lineStart depth).toList ++ '\x7d' :: rest)
      rw [List.cons_append, List.append_assoc, List.append_assoc, List.singleton_append, readValue,
        skipBlanks_of_startsValue (by decide)]
      simp only [hread, Option.map_some]
      split
      · next hclosing =>
          rw [hfirst] at hclosing
          exact absurd (List.cons.inj hclosing).1 (by decide)
      · rfl

/-! ### All values -/

theorem readsBack_of_written {json : Json} (h : Written json) : ReadsBack json := by
  induction h with
  | null => exact readsBack_null
  | bool value => exact readsBack_bool value
  | int n => exact readsBack_ofInt n
  | string text => exact readsBack_ofString text
  | array hwritten hback => exact readsBack_array hwritten hback
  | @record members _ hback =>
      refine readsBack_object (fun member hmem => ?_) fun member hmem => ?_
      · obtain ⟨⟨key, value⟩, _, rfl⟩ := List.mem_map.mp hmem
        exact ⟨key, rfl⟩
      · obtain ⟨⟨key, value⟩, hvalue, rfl⟩ := List.mem_map.mp hmem
        exact hback (key, value) hvalue

/-- A written value is read back from its indented text. -/
theorem read?_pretty {json : Json} (h : Written json) : read? json.pretty = some json := by
  have hbound : 2 * (prettyAt 0 json).toList.length ≤ 2 * json.pretty.length + 2 := by
    rw [String.length_toList]
    exact Nat.le_add_right _ _
  have hback := readsBack_of_written h 0 (2 * json.pretty.length + 2) [] (fun _ => nofun) hbound
  rw [List.append_nil] at hback
  unfold read?
  rw [show json.pretty = prettyAt 0 json from rfl] at hback ⊢
  rw [hback]
  rfl

end TinyScript.Json
