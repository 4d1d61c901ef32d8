import GameScript.Parse.Script
import GameScript.Run.Evaluate

/-!
# From text to value

`runSource` is how a host runs the text of a script: it is parsed, and if it is a program the program is run in a scope.
-/

namespace GameScript

/-- What can stop a script on the way from its text to its value. -/
inductive ScriptError
  | parse (error : LocatedError)
  | runtime (fault : RuntimeFault)

/-- Parses a text and runs its program in a scope. -/
def runSource {σ : Type} (host : Host σ) (limit : Nat) (scope : ScopeId) (source : List Char) :
    ExceptT ScriptError (StateM (Machine σ)) Value :=
  match parse source with
  | .error e => throw (.parse e)
  | .ok program => (execute host limit scope program).adapt ScriptError.runtime

theorem runSource_of_parse {σ : Type} {host : Host σ} {limit : Nat} {scope : ScopeId} {source : List Char}
    {p : Program} (h : parse source = .ok p) (m : Machine σ) :
    runSource host limit scope source m =
      ((execute host limit scope p m).1.mapError ScriptError.runtime, (execute host limit scope p m).2) := by
  unfold runSource
  rw [h]
  rfl

end GameScript
