import TinyScript.Proofs.Decimal.Displayed
import TinyScript.Proofs.Json.Text
import TinyScript.Proofs.Literals
import TinyScript.Proofs.Tree.Shapes

/-!
# Leaves of trees are read back

Types, annotations and literals come back as they are, within any limit that their text keeps to. A
decimal comes back as it is displayed, if its scale can be written; for the text this makes no
difference.
-/

namespace TinyScript

open Json Text

variable {limit : Nat}

/-! ## Literals as displayed -/

/-- The literal that is read back. -/
def Literal.displayed : Literal → Literal
  | decimal value => decimal value.displayed
  | literal => literal

/-- Replaces decimals by those that are read back. -/
def Rewriting.displaying : Rewriting := .ofLiteral Literal.displayed

namespace Rewriting

@[simp] theorem displaying_literal : displaying.literal = Literal.displayed := rfl

@[simp] theorem displaying_ty (ty : Option Ty) : displaying.ty ty = ty := rfl

theorem displaying_binding (binding : Option VariableBinding) :
    displaying.binding binding = binding := rfl

theorem displaying_signature (signature : Option Signature) :
    displaying.signature signature = signature := rfl

end Rewriting

/-- A decimal has a scale that can be written. -/
def Literal.IsWritable : Literal → Prop
  | decimal value => Decimal.isWritableScale value.scale = true
  | _ => True

instance : DecidablePred Literal.IsWritable
  | .decimal value => inferInstanceAs (Decidable (Decimal.isWritableScale value.scale = true))
  | .nil | .boolean _ | .character _ | .string _ | .integer _ => instDecidableTrue

/-- A decimal has a scale that its notation tells. -/
def Literal.KeepsScale : Literal → Prop
  | decimal value => value.KeepsScale
  | _ => True

instance : DecidablePred Literal.KeepsScale
  | .decimal value => inferInstanceAs (Decidable value.KeepsScale)
  | .nil | .boolean _ | .character _ | .string _ | .integer _ => instDecidableTrue

theorem Literal.displayed_eq_self {literal : Literal} (h : literal.KeepsScale) :
    literal.displayed = literal := by
  cases literal with
  | decimal value => exact congrArg decimal (Decimal.displayed_eq_self_iff.mpr h)
  | _ => rfl

/-! ## Types and annotations -/

theorem Ty.ofJson?_toJson (ty : Ty) : Ty.ofJson? limit ty.toJson = some ty := by
  rw [Ty.toJson, Ty.ofJson?, decodeUnit_ofString, Ty.ofName?_name]

theorem Ty.written (ty : Ty) : ty.toJson.Written := .string ty.name

theorem optionalTy_ofOption (ty : Option Ty) :
    optional? (Ty.ofJson? limit) (some (ofOption Ty.toJson ty)) = some ty :=
  optional?_ofOption_self (fun _ => nofun) fun ty _ => Ty.ofJson?_toJson ty

theorem VariableBinding.ofJson?_toJson {binding : VariableBinding}
    (h : binding.toJson.nesting ≤ limit) :
    VariableBinding.ofJson? limit binding.toJson = some binding := by
  obtain ⟨inner, rfl, -⟩ := nesting_record h
  have hfields : binding.toJson.fields? ["name", "ty", "element", "mutable"] = some _ :=
    fields?_record rfl (by simp)
  unfold VariableBinding.ofJson?
  simp only [entering, hfields]
  simp [Ty.ofJson?_toJson, optionalTy_ofOption, bool?]

theorem Signature.ofJson?_toJson {signature : Signature} (h : signature.toJson.nesting ≤ limit) :
    Signature.ofJson? limit signature.toJson = some signature := by
  obtain ⟨inner, rfl, hmembers⟩ := nesting_record h
  have hfields : signature.toJson.fields? ["name", "parameters", "returns"] = some _ :=
    fields?_record rfl (by simp)
  have hparameters : decodeList inner Ty.ofJson? (ofList Ty.toJson signature.parameters) =
      some signature.parameters :=
    decodeList_ofList_self
      (hmembers ("parameters", ofList Ty.toJson signature.parameters) (by simp))
      fun ty _ _ _ => Ty.ofJson?_toJson ty
  unfold Signature.ofJson?
  simp only [entering, hfields]
  simp [Ty.ofJson?_toJson, hparameters]

/-! ## Numbers -/

theorem numberOfBase_digitsOfBase {base : Nat} (hbase : 1 < base) (n : Nat) :
    numberOfBase base (digitsOfBase base n) = n := by
  induction n using Nat.strongRecOn with
  | _ n ih =>
      rw [digitsOfBase]
      split
      · next hlarge =>
          rw [numberOfBase, ih _ (Nat.div_lt_self hlarge.2 hbase), Nat.mod_add_div]
      · next hzero =>
          rw [numberOfBase]
          omega

theorem lt_of_mem_digitsOfBase {base : Nat} (hbase : 1 < base) (n : Nat) :
    ∀ digit ∈ digitsOfBase base n, digit < base := by
  induction n using Nat.strongRecOn with
  | _ n ih =>
      rw [digitsOfBase]
      split
      · next hlarge =>
          rintro digit hmem
          rcases List.mem_cons.mp hmem with rfl | hmem
          · exact Nat.mod_lt _ (by omega)
          · exact ih _ (Nat.div_lt_self hlarge.2 hbase) digit hmem
      · exact fun _ hmem => absurd hmem List.not_mem_nil

/-- An integer of 64 bits is read back as an integer. -/
theorem int?_ofInt {n : Int} (hlow : -negativeWordLimit ≤ n) (hhigh : n < wordBound) :
    (ofInt n).int? = some n := by
  have hwhole : isWhole (integerDigits n) = true := by
    rw [isWhole, List.all_eq_true]
    intro c hmem
    unfold integerDigits at hmem
    split at hmem
    · rcases List.mem_cons.mp hmem with rfl | hmem
      · rfl
      · simp [isDigit_of_mem_digits c hmem]
    · simp [isDigit_of_mem_digits c hmem]
  rw [ofInt, int?, toList_toString]
  unfold wholeValue?
  rw [if_pos hwhole]
  by_cases hnegative : n < 0
  · rw [integerDigits, if_pos hnegative]
    simp only [valueOf_digits]
    rw [if_pos (by omega)]
    exact congrArg some (by omega)
  · rw [integerDigits, if_neg hnegative]
    split
    · next text htext =>
        have hminus := isDigit_of_mem_digits (n := n.natAbs) '-' (by simp [htext])
        exact absurd hminus (by decide)
    · simp only [valueOf_digits]
      rw [if_pos (by omega)]
      exact congrArg some (by omega)

theorem nat?_ofNat {n : Nat} (h : n < integerBase) : (ofNat n).nat? integerBase = some n := by
  have hsmall : integerBase ≤ wordBound := by decide
  have hread : (ofNat n).int? = some (n : Int) := int?_ofInt (n := n) (by omega) (by omega)
  rw [nat?, hread]
  simp [h]

theorem decodeInteger_encodeInteger {n : Int} (h : (encodeInteger n).nesting ≤ limit) :
    decodeInteger limit (encodeInteger n) = some n := by
  obtain ⟨inner, rfl, hitems⟩ := nesting_array h
  have hrange : -1 ≤ n.sign ∧ n.sign ≤ 1 := by
    rcases Int.lt_trichotomy n 0 with h | rfl | h
    · rw [Int.sign_eq_neg_one_of_neg h]
      decide
    · decide
    · rw [Int.sign_eq_one_of_pos h]
      decide
  have hsign : (ofInt n.sign).int? = some n.sign := by
    refine int?_ofInt ?_ ?_
    · unfold negativeWordLimit
      omega
    · unfold wordBound
      omega
  have hdigits : decodeList inner (fun _ => nat? integerBase)
      (ofList ofNat (digitsOfBase integerBase n.natAbs)) =
        some (digitsOfBase integerBase n.natAbs) :=
    decodeList_ofList_self (hitems _ (by simp)) fun digit hmem _ _ =>
      nat?_ofNat (lt_of_mem_digitsOfBase (by decide) _ digit hmem)
  unfold decodeInteger encodeInteger
  simp only [entering, array?, Option.bind_eq_bind, Option.bind_some, hsign, hdigits, if_pos hrange]
  rw [numberOfBase_digitsOfBase (by decide), Int.sign_mul_natAbs]
  rw [Option.pure_def]

/-! ## Literals -/

theorem decodeDecimal_ofString {value : Decimal} (h : Decimal.isWritableScale value.scale = true) :
    decodeDecimal (ofString value.text) = some value.displayed := by
  have htext : value.text.toList = value.textChars := String.toList_ofList
  rw [decodeDecimal]
  · rw [string?_ofString, Option.bind_some, htext, Decimal.read?_textChars h]
  · exact nofun

theorem decodeCharacter_ofString (c : Char) :
    decodeCharacter (ofString (String.singleton c)) = some c := by
  rw [decodeCharacter, string?_ofString, Option.map_some, String.toList_singleton]

theorem Literal.ofJson?_toJson {literal : Literal} (hwritable : literal.IsWritable)
    (h : literal.toJson.nesting ≤ limit) :
    Literal.ofJson? limit literal.toJson = some literal.displayed := by
  cases literal with
  | nil => rw [toJson, ofJson?, choice?_ofString]; rfl
  | boolean value =>
      obtain ⟨inner, rfl, -⟩ := nesting_tagged h
      rw [toJson, ofJson?, choice?_tagged]
      rfl
  | character value =>
      obtain ⟨inner, rfl, -⟩ := nesting_tagged h
      rw [toJson, ofJson?, choice?_tagged]
      simp [entering, decodeCharacter_ofString, displayed]
  | string value =>
      obtain ⟨inner, rfl, -⟩ := nesting_tagged h
      rw [toJson, ofJson?, choice?_tagged]
      simp [entering, displayed]
  | integer value =>
      obtain ⟨inner, rfl, hinner⟩ := nesting_tagged h
      rw [toJson, ofJson?, choice?_tagged]
      simp [entering, decodeInteger_encodeInteger hinner, displayed]
  | decimal value =>
      obtain ⟨inner, rfl, -⟩ := nesting_tagged h
      rw [toJson, ofJson?, choice?_tagged]
      simp [entering, decodeDecimal_ofString hwritable, displayed]

/-- A literal and what is read back of it are written the same. -/
theorem Literal.toJson_displayed (literal : Literal) :
    literal.displayed.toJson = literal.toJson := by
  cases literal with
  | decimal value =>
      show tagged "Decimal" (ofString value.displayed.text) = _
      rw [Decimal.text, Decimal.textChars_displayed]
      rfl
  | _ => rfl

/-! ## What is written -/

theorem written_tagged {tag : String} {content : Json} (h : content.Written) :
    (tagged tag content).Written :=
  .record (by simpa using h)

theorem written_ofOption {α : Type} {encode : α → Json} (h : ∀ a, (encode a).Written)
    (value : Option α) : (ofOption encode value).Written := by
  cases value with
  | none => exact .null
  | some a => exact h a

theorem written_ofList {α : Type} {encode : α → Json} (h : ∀ a, (encode a).Written)
    (values : List α) : (ofList encode values).Written := by
  refine .array fun item hmem => ?_
  obtain ⟨a, -, rfl⟩ := List.mem_map.mp hmem
  exact h a

theorem VariableBinding.written (binding : VariableBinding) : binding.toJson.Written := by
  refine .record ?_
  simp [Ty.written, written_ofOption, Written.string, Written.bool]

theorem Signature.written (signature : Signature) : signature.toJson.Written := by
  refine .record ?_
  simp [Ty.written, written_ofList, Written.string]

theorem Literal.written (literal : Literal) : literal.toJson.Written := by
  cases literal with
  | nil => exact .string _
  | boolean value => exact written_tagged (.bool value)
  | character value => exact written_tagged (.string _)
  | string value => exact written_tagged (.string value)
  | decimal value => exact written_tagged (.string _)
  | integer value =>
      refine written_tagged (.array ?_)
      simp only [List.forall_mem_cons, List.not_mem_nil, false_implies, implies_true, and_true]
      exact ⟨.int _, written_ofList (fun n => show (ofNat n).Written from .int n) _⟩

end TinyScript
