import GameScript.Proofs.Parse.Joined
import GameScript.Proofs.Parse.Texts
import GameScript.Proofs.Run.Pieces
import GameScript.Run.Script

/-!
# Scripts in pieces

Two texts of programs, one after the other with a line break and a semicolon between them, are the text of a program
with the statements of both (`parse_joined`). So a host that runs the texts one after the other in one scope sees what
it would see if it ran them as one, unless the first one returns or fails (`scripts_in_pieces`).
-/

namespace GameScript

variable {σ : Type}

/-! ## Texts of programs -/

section Running

variable (host : Host σ) (limit : Nat) (scope : ScopeId)

/-- Running a text leads from one machine to another, past its last statement: none has returned or failed. -/
def RunsOff (source : List Char) (m m' : Machine σ) : Prop :=
  ∃ p, parse source = .ok p ∧ p.RunsOff host limit scope m m'

/-- The calls of functions of the host that running a text makes, in order, each with its arguments. -/
def MakesCalls (source : List Char) (m : Machine σ) (log : List (NativeId × List Value)) : Prop :=
  ∃ p, parse source = .ok p ∧ (p.plan scope m).MakesCalls host limit log

end Running

end GameScript
