import GameScript.Tree.Basic

/-!
# Trees as text over many lines

A `Listing` is a tree of named nodes, and `Listing.write` its text: every part on a line of its own, four blanks for
each level, a comma after each. Expressions are listed with every slot and every span.
-/

namespace GameScript

/-- A tree of named nodes. -/
inductive Listing
  /-- A word. -/
  | word (text : String)
  /-- A name and parts in parentheses; without a name, parentheses alone. -/
  | tuple (name : String) (parts : List Listing)
  /-- A name and named parts in braces. -/
  | record (name : String) (fields : List (String × Listing))
  /-- Parts in square brackets. -/
  | list (items : List Listing)

namespace Listing

/-- The blanks of a level. -/
def indent (level : Nat) : String := String.ofList (List.replicate (4 * level) ' ')

mutual

/-- The text of a listing whose lines after the first stand at a level. -/
def writeAt (level : Nat) : Listing → String
  | .word text => text
  | .tuple name [] => name
  | .tuple name (part :: parts) =>
    name ++ "(\n" ++ writeParts (level + 1) (part :: parts) ++ indent level ++ ")"
  | .record name fields => name ++ " \x7b\n" ++ writeFields (level + 1) fields ++ indent level ++ "\x7d"
  | .list [] => "[]"
  | .list (item :: items) => "[\n" ++ writeParts (level + 1) (item :: items) ++ indent level ++ "]"

/-- The text of parts, a line each. -/
def writeParts (level : Nat) : List Listing → String
  | [] => ""
  | part :: rest => indent level ++ writeAt level part ++ ",\n" ++ writeParts level rest

/-- The text of named parts, a line each. -/
def writeFields (level : Nat) : List (String × Listing) → String
  | [] => ""
  | (name, part) :: rest => indent level ++ name ++ ": " ++ writeAt level part ++ ",\n" ++ writeFields level rest

end

/-- The text of a listing. -/
def write (l : Listing) : String := writeAt 0 l

/-- A part that may be missing. -/
def optional : Option Listing → Listing
  | none => .word "None"
  | some l => .tuple "Some" [l]

/-- A number. -/
def number (n : Nat) : Listing := .word (toString n)

/-- A string in quotes. -/
def text (s : String) : Listing := .word (Text.quote s)

end Listing

/-- The listing of a span. -/
def Span.listing (s : Span) : Listing := .record "Span" [("start", .number s.start), ("end", .number s.stop)]

/-- The listing of a literal. -/
def Literal.listing : Literal → Listing
  | .undefined => .word "Undefined"
  | .bool b => .tuple "Bool" [.word (if b then "true" else "false")]
  | .int n => .tuple "Int" [.word (toString n.toInt)]
  | .float x => .tuple "Float" [.word (scriptFloat.write x)]
  | .string s => .tuple "String" [.text s]

/-- The listing of a name. -/
def Variable.listing (v : Variable) : Listing :=
  .record "Variable" [("name", .text v.name), ("hint", .word v.role.name), ("span", v.span.listing)]

/-- The listing of an operator. -/
def Operator.listing (o : Operator) : Listing :=
  .record "Operator" [("kind", .word o.kind.name), ("span", o.span.listing)]

mutual

/-- The listing of an operand. -/
def Operand.listing : Operand → Listing
  | .value l => .tuple "Value" [l.listing]
  | .var v => .tuple "Variable" [v.listing]
  | .object ps => .tuple "Object" [.record "ObjectLiteral" [("properties", .list (Property.listings ps))]]
  | .block s => .tuple "Scope" [s.listing]
  | .expression e => .tuple "Expression" [e.listing]
  | .function ps s =>
    .tuple "Function" [.record "FunctionLiteral" [("parameters", .list (ps.map .text)), ("body", s.listing)]]
  | .call e es =>
    .tuple "Call" [.record "Call" [("callable", e.listing), ("arguments", .list (Expression.listings es))]]

/-- The listings of properties. -/
def Property.listings : List Property → List Listing
  | [] => []
  | ⟨key, value⟩ :: rest => .tuple "" [.text key, value.listing] :: Property.listings rest

/-- The listing of a scope. -/
def Scope.listing : Scope → Listing
  | ⟨body, span⟩ => .record "Scope" [("body", .list (Statement.listings body)), ("span", span.listing)]

/-- The listings of statements. -/
def Statement.listings : List Statement → List Listing
  | [] => []
  | ⟨body, span⟩ :: rest =>
    .record "Statement" [("body", body.listing), ("span", span.listing)] :: Statement.listings rest

/-- The listing of an expression. -/
def Expression.listing : Expression → Listing
  | ⟨left, op, right, span⟩ =>
    .record "Expression"
      [("a", .optional (Operand.slotListing left)), ("op", .optional (op.map Operator.listing)),
        ("b", .optional (Operand.slotListing right)), ("span", span.listing)]

/-- The listing of a slot. -/
def Operand.slotListing : Option Operand → Option Listing
  | none => none
  | some a => some a.listing

/-- The listings of expressions. -/
def Expression.listings : List Expression → List Listing
  | [] => []
  | e :: es => e.listing :: Expression.listings es

end

end GameScript
