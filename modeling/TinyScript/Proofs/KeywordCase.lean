import TinyScript.Proofs.Parse.Resemblance
import TinyScript.Proofs.ParserPositions
import TinyScript.Proofs.Source.Splitting

/-!
# The case of reserved words is no matter

Reserved words may be written in any case. Words that differ in the case of reserved words only
(`Token.Recased`) are read to the same program, up to the names of types, which are kept as they are
written and may be reserved words; or they are refused at the same place (`parse_recased`). The
readers do not tell such words apart (`Parser.ReadAlike.program`), and another case has as many
bytes, so all words stay where they are.
-/

namespace TinyScript

namespace Token

/-! ## Words in another case -/

/-- A word, with the letters of a reserved word perhaps in another case. -/
structure Recased (token token' : Token) : Prop where
  kind : token.kind = token'.kind
  offset : token.offset = token'.offset
  text : token.text = token'.text ∨ token.kind = .identifier ∧ isReserved token.text = true ∧
    sameIgnoringCase token.text token'.text = true

instance (token token' : Token) : Decidable (token.Recased token') :=
  decidable_of_iff (token.kind = token'.kind ∧ token.offset = token'.offset ∧
      (token.text = token'.text ∨ token.kind = .identifier ∧ isReserved token.text = true ∧
        sameIgnoringCase token.text token'.text = true))
    ⟨fun h => ⟨h.1, h.2.1, h.2.2⟩, fun h => ⟨h.kind, h.offset, h.text⟩⟩

theorem utf8Size_of_isAlpha {c : Char} (letter : c.isAlpha = true) : c.utf8Size = 1 := by
  rw [Char.utf8Size_eq_one_iff]
  simp [Char.isAlpha, Char.isUpper, Char.isLower, UInt32.le_iff_toNat_le] at *
  omega

theorem utf8Size_toLower (c : Char) : c.toLower.utf8Size = c.utf8Size := by
  rcases toLower_eq_or_isAlpha c with same | ⟨letter, lowered⟩
  · rw [same]
  · rw [utf8Size_of_isAlpha letter, utf8Size_of_isAlpha lowered]

theorem byteSize_map_toLower (text : List Char) :
    byteSize (text.map Char.toLower) = byteSize text := by
  induction text with
  | nil => rfl
  | cons c text ih => rw [List.map_cons, byteSize, byteSize, ih, utf8Size_toLower]

theorem utf8ByteSize_of_sameIgnoringCase {left right : String}
    (same : sameIgnoringCase left right = true) : left.utf8ByteSize = right.utf8ByteSize := by
  rw [← String.ofList_toList (s := left), ← String.ofList_toList (s := right), ← byteSize_eq,
    ← byteSize_eq, ← byteSize_map_toLower left.toList, eq_of_beq same, byteSize_map_toLower]

theorem toLower_of_sameIgnoringCase {left right : String}
    (same : sameIgnoringCase left right = true) : left.toLower = right.toLower := by
  rw [← String.toList_inj, String.toLower, String.toLower, String.toList_map, String.toList_map,
    eq_of_beq same]

namespace Recased

variable {token token' : Token} (h : token.Recased token')

include h

theorem stop : token.stop = token'.stop := by
  rw [Token.stop, Token.stop, h.offset]
  rcases h.text with htext | ⟨-, -, hsame⟩
  · rw [htext]
  · rw [utf8ByteSize_of_sameIgnoringCase hsame]

theorem resembles : token.Resembles String.toLower token' where
  kind := h.kind
  folded := by
    rcases h.text with htext | ⟨-, -, hsame⟩
    · rw [htext]
    · exact toLower_of_sameIgnoringCase hsame
  text := h.text

end Recased

end Token

/-! ## Places -/

theorem offsetAt_eq (tokens : List Token) (index : Nat) :
    offsetAt tokens index = (tokens.map Token.offset)[index]?.getD
      ((tokens.map Token.stop).getLast?.getD 0) := by
  rw [offsetAt, List.getElem?_map, List.getLast?_map]
  cases tokens[index]? <;> rfl

theorem map_eq_of_forall₂ {α β : Type} {R : α → α → Prop} {f : α → β} {xs ys : List α}
    (h : List.Forall₂ R xs ys) (hf : ∀ {x y}, R x y → f x = f y) : xs.map f = ys.map f := by
  induction h with
  | nil => rfl
  | cons first _ ih => rw [List.map_cons, List.map_cons, hf first, ih]

theorem offsetAt_recased {tokens tokens' : List Token}
    (h : List.Forall₂ Token.Recased tokens tokens') (index : Nat) :
    offsetAt tokens index = offsetAt tokens' index := by
  rw [offsetAt_eq, offsetAt_eq, map_eq_of_forall₂ h Token.Recased.offset,
    map_eq_of_forall₂ h Token.Recased.stop]

/-! ## Programs -/

/-- Two outcomes of reading: programs that are the same up to the case of the names of types, or
errors at the same place. -/
inductive SameUpToCase : Except SyntaxError Program → Except SyntaxError Program → Prop
  | read {tree tree' : Program}
      (same : tree.mapTypeNames String.toLower = tree'.mapTypeNames String.toLower) :
      SameUpToCase (.ok tree) (.ok tree')
  | refused {error error' : SyntaxError} (index : error.index = error'.index)
      (offset : error.offset = error'.offset) : SameUpToCase (.error error) (.error error')

/-- Words that differ in the case of reserved words only are read to the same program, up to the
case of the names of types, or refused at the same place. -/
theorem parse_recased {tokens tokens' : List Token}
    (h : List.Forall₂ Token.Recased tokens tokens') :
    SameUpToCase (Program.parse tokens) (Program.parse tokens') := by
  have hparsed := parse_resembling (h.imp fun _ _ => Token.Recased.resembles)
  generalize houtcome : Program.parse tokens = outcome at hparsed ⊢
  generalize houtcome' : Program.parse tokens' = outcome' at hparsed ⊢
  cases hparsed with
  | read same => exact .read same
  | refused _ index =>
      refine .refused index ?_
      rw [offset_of_parse_error houtcome, offset_of_parse_error houtcome', offsetAt_recased h,
        index]

/-- The words of a program that writes reserved words in many ways, one of them a name of a type. -/
def mixedCase : List Token :=
  Token.split "var x: Nil; Fun f() do iF x == niL do return TRUE; End end"

/-- The same words with all reserved words in upper case. -/
def upperCase : List Token :=
  Token.split "VAR x: NIL; FUN f() DO IF x == NIL DO RETURN TRUE; END END"

theorem parse_recased_mixedCase :
    List.Forall₂ Token.Recased mixedCase upperCase ∧
      SameUpToCase (Program.parse mixedCase) (Program.parse upperCase) := by
  have h : List.Forall₂ Token.Recased mixedCase upperCase := by decide +kernel
  exact ⟨h, parse_recased h⟩

end TinyScript
