import TinyScript.Proofs.Parse.Resemblance

/-!
# Readers do not look at offsets

Words of the same kinds and texts are read to the same program, or refused for the same cause at the
same word, wherever they stand (`parse_alike`). They resemble each other with no difference left, so
this is a case of what readers make of words that do.
-/

namespace TinyScript

/-- Two words that may stand at different offsets. -/
structure Token.Alike (token token' : Token) : Prop where
  kind : token.kind = token'.kind
  text : token.text = token'.text

theorem Token.Alike.resembles {token token' : Token} (h : token.Alike token') :
    token.Resembles id token' :=
  ⟨h.kind, h.text, .inl h.text⟩

/-- An error without the offset at which it arises. -/
def SyntaxError.atWord (error : SyntaxError) : Nat × String := (error.index, error.message)

theorem parse_alike {tokens tokens' : List Token} (h : List.Forall₂ Token.Alike tokens tokens') :
    (Program.parse tokens).mapError SyntaxError.atWord =
      (Program.parse tokens').mapError SyntaxError.atWord := by
  have hparsed := parse_resembling (h.imp fun _ _ => Token.Alike.resembles)
  generalize Program.parse tokens = outcome at hparsed ⊢
  generalize Program.parse tokens' = outcome' at hparsed ⊢
  cases hparsed with
  | read same =>
      rw [Program.mapTypeNames_id, Program.mapTypeNames_id] at same
      rw [same]
  | @refused error error' cause index =>
      have hmessage : error.message = error'.message := by
        obtain ⟨_, _, _⟩ := error
        obtain ⟨_, _, _⟩ := error'
        cases cause with
        | telling cause h => exact congrArg (fun text => (cause text).message) h
      exact congrArg Except.error (Prod.ext index hmessage)

end TinyScript
