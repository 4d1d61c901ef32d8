import GameScript.Run.Liveness
import GameScript.Text.Quoted

/-!
# The text of a value

Objects show their properties in order, with strings in quotes, and an object inside itself shows as three dots in
braces. A reference shows what it names; one whose object is gone says so. References are followed without end, so
one that leads back to itself has no text: `render?` then has no answer.
-/

namespace GameScript

namespace Memory

/-- How often a value can be entered before a text would have to go on for ever: between one object of a path and the
next, each property can be passed once. -/
def renderBound (m : Memory) : Nat :=
  (m.objects.size + 1) * (m.objects.foldl (fun n ps => n + ps.length) 0 + 3)

/-- The text of a value inside the objects of a path, strings in quotes or not. -/
def renderIn (m : Memory) : (bound : Nat) → (path : List ObjectId) → (quoted : Bool) → Value → Option String
  | 0, _, _, _ => none
  | bound + 1, path, quoted, v =>
    match v with
    | .undefined => some "undefined"
    | .bool b => some (if b then "true" else "false")
    | .int n => some (toString n.toInt)
    | .float x => some (scriptFloat.write x)
    | .string s => some (if quoted then Text.quote s else s)
    | .object o =>
      if path.contains o then some "\x7b...\x7d"
      else if (m.properties o).isEmpty then some "\x7b\x7d"
      else do
        let parts ← (m.properties o).mapM fun (key, value) => do
          return key ++ ": " ++ (← renderIn m bound (o :: path) true value)
        return "\x7b " ++ ", ".intercalate parts ++ " \x7d"
    | .reference r =>
      match m.read r with
      | .ok value => renderIn m bound path quoted value
      | .error _ => some ("[dangling ." ++ r.key ++ "]")
    | .closure _ => some "[function]"
    | .native _ => some "[native]"

/-- The text of a value, a string at the top without quotes. -/
def render? (m : Memory) (v : Value) : Option String := m.renderIn m.renderBound [] false v

/-- The text of a value for someone who looks into a program: a string in quotes, a reference by its key. -/
def inspect? (m : Memory) : Value → Option String
  | .string s => some (Text.quote s)
  | .reference r => some ("ObjectRef(." ++ r.key ++ ")")
  | v => m.render? v

/-- The texts of values with single blanks between. -/
def renderAll? (m : Memory) (vs : List Value) : Option String := do
  return " ".intercalate (← vs.mapM m.render?)

/-- A scope for someone who looks into a program: its depth and its names in order. -/
def inspectScope (m : Memory) (s : ScopeId) : String :=
  let names := (m.scope s).bindings.keys.mergeSort (fun a b => decide (a ≤ b))
  "Context \x7b depth: " ++ toString (m.scope s).depth ++ ", bindings: " ++ Text.quoteList names ++ " \x7d"

/-- A closure for someone who looks into a program: its parameters. -/
def inspectClosure (m : Memory) (c : ClosureId) : String :=
  "Function(" ++ ", ".intercalate (m.closure c).parameters ++ ")"

end Memory

end GameScript
