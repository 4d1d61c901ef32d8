import GameScript.Parse.Script
import GameScript.Proofs.Token.Lexes

/-!
# Texts of programs

A text is cut into tokens and then read. It is that of a program when neither finds a fault (`parse_eq_ok_iff`).
-/

namespace GameScript

/-- A text is that of a program when its characters are without faults and its tokens make the program. -/
theorem parse_eq_ok_iff {source : List Char} {p : Program} :
    parse source = .ok p ↔ (tokenize source).errors = [] ∧ parseTokens (tokenize source).tokens = .ok p := by
  unfold parse
  dsimp only
  split
  · rename_i first rest herrors
    simp [herrors]
  · rename_i herrors
    rw [herrors]
    cases parseTokens (tokenize source).tokens with
    | error e => exact iff_of_false nofun fun h => nomatch h.2
    | ok q => exact ⟨fun h => ⟨rfl, congrArg _ (Except.ok.inj h)⟩, fun h => congrArg _ (Except.ok.inj h.2)⟩

/-- What the tokens of a text without faults are. -/
theorem Lexes.tokenize {source : List Char} {ks : List TokenKind} (h : Lexes source ks) :
    (tokenize source).errors = [] ∧ (tokenize source).tokens.map Token.kind = ks ++ [.endOfText] :=
  h.tokenizeFrom (by decide)

/-- The text of a program has no faults. -/
theorem exists_lexes_of_parse {source : List Char} {p : Program} (h : parse source = .ok p) :
    ∃ ks, Lexes source ks := lexes_of_errors_eq_nil (by decide) (parse_eq_ok_iff.1 h).1

end GameScript
