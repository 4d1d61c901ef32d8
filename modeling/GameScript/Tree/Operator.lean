import GameScript.Source.Span

/-!
# Operators

Each operator takes its operands in fixed slots, its `Arity`. A compound assignment applies the arithmetic operator
that `compoundBase` names.
-/

namespace GameScript

/-- What an expression does with its operands. -/
inductive OperatorKind
  | assign | ret | not
  | eq | ne | lt | le | gt | ge
  | and | or
  | add | sub | mul | div | mod
  | addAssign | subAssign | mulAssign | divAssign | modAssign
  | inc | dec
  | child
deriving DecidableEq, Repr

/-- The operand slots that an operator fills. -/
inductive Arity
  /-- Both operands. -/
  | binary
  /-- The right operand alone. -/
  | unary
  /-- Either operand, but not both. -/
  | either
deriving DecidableEq, Repr

/-- How an arity is called. -/
def Arity.name : Arity → String
  | binary => "binary"
  | unary => "prefix"
  | either => "either"

namespace OperatorKind

/-- Every operator. -/
def all : List OperatorKind :=
  [assign, ret, not, eq, ne, lt, le, gt, ge, and, or, add, sub, mul, div, mod, addAssign, subAssign, mulAssign,
    divAssign, modAssign, inc, dec, child]

/-- The slots of an operator. -/
def arity : OperatorKind → Arity
  | ret | not => .unary
  | inc | dec => .either
  | _ => .binary

/-- The arithmetic operator that a compound assignment applies. -/
def compoundBase : OperatorKind → Option OperatorKind
  | addAssign => some add
  | subAssign => some sub
  | mulAssign => some mul
  | divAssign => some div
  | modAssign => some mod
  | _ => none

/-- Whether the left operand is written to. -/
def isAssignment (k : OperatorKind) : Bool := k = assign || k.compoundBase.isSome

/-- How an operator is written. -/
def symbol : OperatorKind → String
  | assign => "=" | ret => "return" | not => "!"
  | eq => "==" | ne => "!=" | lt => "<" | le => "<=" | gt => ">" | ge => ">="
  | and => "&&" | or => "||"
  | add => "+" | sub => "-" | mul => "*" | div => "/" | mod => "%"
  | addAssign => "+=" | subAssign => "-=" | mulAssign => "*=" | divAssign => "/=" | modAssign => "%="
  | inc => "++" | dec => "--"
  | child => "."

/-- The name of an operator in tree listings. -/
def name : OperatorKind → String
  | assign => "Assign" | ret => "Return" | not => "Not"
  | eq => "Eq" | ne => "Ne" | lt => "Lt" | le => "Le" | gt => "Gt" | ge => "Ge"
  | and => "And" | or => "Or"
  | add => "Add" | sub => "Sub" | mul => "Mul" | div => "Div" | mod => "Mod"
  | addAssign => "AddAssign" | subAssign => "SubAssign" | mulAssign => "MulAssign"
  | divAssign => "DivAssign" | modAssign => "ModAssign"
  | inc => "Inc" | dec => "Dec"
  | child => "Child"

/-- The operator written so. -/
def ofSymbol? (s : String) : Option OperatorKind := all.find? (fun k => k.symbol = s)

/-- An operator between the quotes of messages. -/
def quoted (k : OperatorKind) : String := "`" ++ k.symbol ++ "`"

theorem mem_all (k : OperatorKind) : k ∈ all := by cases k <;> decide

theorem symbol_injective {j k : OperatorKind} (h : j.symbol = k.symbol) : j = k := by
  revert h; cases j <;> cases k <;> decide

theorem ofSymbol?_symbol (k : OperatorKind) : ofSymbol? k.symbol = some k := by cases k <;> decide

theorem arity_eq_binary_of_isAssignment {k : OperatorKind} (h : k.isAssignment = true) : k.arity = .binary := by
  revert h; cases k <;> decide

end OperatorKind

/-- An operator and its place. -/
structure Operator where
  kind : OperatorKind
  span : Span
deriving DecidableEq, Repr

end GameScript
