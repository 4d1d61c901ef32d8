import GameScript.Text.Quoted

/-!
# JSON texts

A JSON value of the kinds that reports need, and its text over several lines: two blanks for each level, one member a
line, and an empty list as two brackets.
-/

namespace GameScript.Text

/-- A JSON value; the members of an object keep their order. -/
inductive Json
  | bool (b : Bool)
  | number (n : Nat)
  | string (s : String)
  | list (items : List Json)
  | object (members : List (String × Json))

namespace Json

/-- A line break and the blanks of a level. -/
def newline (level : Nat) : String := "\n" ++ String.ofList (List.replicate (2 * level) ' ')

mutual

/-- The text of a value that stands at a level of nesting. -/
def writeAt (level : Nat) : Json → String
  | .bool b => if b then "true" else "false"
  | .number n => toString n
  | .string s => quote s
  | .list [] => "[]"
  | .list (item :: rest) =>
    "[" ++ newline (level + 1) ++ writeAt (level + 1) item ++ writeItems (level + 1) rest ++ newline level ++ "]"
  | .object [] => "\x7b\x7d"
  | .object ((key, value) :: rest) =>
    "\x7b" ++ newline (level + 1) ++ quote key ++ ": " ++ writeAt (level + 1) value
      ++ writeMembers (level + 1) rest ++ newline level ++ "\x7d"

/-- The items after the first. -/
def writeItems (level : Nat) : List Json → String
  | [] => ""
  | item :: rest => "," ++ newline level ++ writeAt level item ++ writeItems level rest

/-- The members after the first. -/
def writeMembers (level : Nat) : List (String × Json) → String
  | [] => ""
  | (key, value) :: rest =>
    "," ++ newline level ++ quote key ++ ": " ++ writeAt level value ++ writeMembers level rest

end

/-- The text of a value over several lines. -/
def write (v : Json) : String := writeAt 0 v

end Json

end GameScript.Text
