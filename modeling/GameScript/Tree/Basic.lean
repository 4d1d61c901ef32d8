import GameScript.Tree.Operator
import GameScript.Text.Decimal
import GameScript.Text.Quoted

/-!
# Program trees

A program is a scope, a scope a list of statements, a statement an expression. An expression has at most one operator
and at most two operands; a leaf has a left operand alone. Which trees make sense is said elsewhere: the types hold
any filling of the slots.

Two trees are equal (`==`) when their spans are too; floating-point literals compare as numbers.
-/

namespace GameScript

/-- A constant written in a script. -/
inductive Literal
  | undefined
  | bool (b : Bool)
  | int (n : Int64)
  | float (x : Float)
  | string (s : String)
deriving Repr

/-- Whether a name is used or declared. -/
inductive VariableRole
  | use
  | declare
deriving DecidableEq, Repr

/-- A name in an expression. -/
structure Variable where
  name : String
  role : VariableRole
  span : Span
deriving DecidableEq, Repr

mutual

/-- What can stand in a slot of an expression. -/
inductive Operand
  | value (literal : Literal)
  | var (v : Variable)
  | object (properties : List Property)
  | block (scope : Scope)
  | expression (e : Expression)
  | function (parameters : List String) (body : Scope)
  | call (callee : Expression) (arguments : List Expression)

/-- A property of an object literal. -/
structure Property where
  key : String
  value : Expression

/-- Statements in order. -/
structure Scope where
  body : List Statement
  span : Span

/-- An expression in a scope. -/
structure Statement where
  body : Expression
  span : Span

/-- An operator and its operands, or a left operand alone. -/
structure Expression where
  left : Option Operand
  op : Option Operator
  right : Option Operand
  span : Span

end

/-- A whole script. -/
structure Program where
  body : Scope

instance : Inhabited Expression := ⟨⟨none, none, none, {}⟩⟩
instance : Inhabited Scope := ⟨⟨[], {}⟩⟩
instance : Inhabited Program := ⟨⟨default⟩⟩

namespace Operand

/-- How messages call an operand. -/
def kindName : Operand → String
  | value _ => "value"
  | var _ => "variable"
  | object _ => "object literal"
  | block _ => "scope"
  | expression _ => "expression"
  | function _ _ => "function"
  | call _ _ => "call"

end Operand

namespace Literal

/-- Equality of literals; floating-point numbers compare as numbers, so `NaN` differs from itself. -/
def beq : Literal → Literal → Bool
  | undefined, undefined => true
  | bool a, bool b => a == b
  | int a, int b => a == b
  | float a, float b => a == b
  | string a, string b => a == b
  | _, _ => false

instance : BEq Literal := ⟨beq⟩

/-- A literal with its kind, as tree listings show it. -/
def listed : Literal → String
  | undefined => "Undefined"
  | bool b => "Bool(" ++ (if b then "true" else "false") ++ ")"
  | int n => "Int(" ++ toString n.toInt ++ ")"
  | float x => "Float(" ++ scriptFloat.write x ++ ")"
  | string s => "String(" ++ Text.quote s ++ ")"

end Literal

/-- The name of a role in tree listings. -/
def VariableRole.name : VariableRole → String
  | use => "None"
  | declare => "Create"

/-! ## Equality -/

mutual

/-- Equality of operands. -/
def Operand.beq : Operand → Operand → Bool
  | .value a, .value b => a == b
  | .var a, .var b => a == b
  | .object ps, .object qs => Property.beqList ps qs
  | .block s, .block t => s.beq t
  | .expression e, .expression f => e.beq f
  | .function ps s, .function qs t => ps == qs && s.beq t
  | .call e es, .call f fs => e.beq f && Expression.beqList es fs
  | _, _ => false

/-- Equality of lists of properties. -/
def Property.beqList : List Property → List Property → Bool
  | [], [] => true
  | p :: ps, q :: qs => p.beq q && Property.beqList ps qs
  | _, _ => false

/-- Equality of properties. -/
def Property.beq : Property → Property → Bool
  | ⟨k, e⟩, ⟨l, f⟩ => k == l && e.beq f

/-- Equality of scopes. -/
def Scope.beq : Scope → Scope → Bool
  | ⟨ss, s⟩, ⟨ts, t⟩ => Statement.beqList ss ts && s == t

/-- Equality of lists of statements. -/
def Statement.beqList : List Statement → List Statement → Bool
  | [], [] => true
  | s :: ss, t :: ts => s.beq t && Statement.beqList ss ts
  | _, _ => false

/-- Equality of statements. -/
def Statement.beq : Statement → Statement → Bool
  | ⟨e, s⟩, ⟨f, t⟩ => e.beq f && s == t

/-- Equality of expressions. -/
def Expression.beq : Expression → Expression → Bool
  | ⟨a, o, b, s⟩, ⟨c, p, d, t⟩ => Operand.beqSlot a c && o == p && Operand.beqSlot b d && s == t

/-- Equality of slots. -/
def Operand.beqSlot : Option Operand → Option Operand → Bool
  | none, none => true
  | some a, some b => a.beq b
  | _, _ => false

/-- Equality of lists of expressions. -/
def Expression.beqList : List Expression → List Expression → Bool
  | [], [] => true
  | e :: es, f :: fs => e.beq f && Expression.beqList es fs
  | _, _ => false

end

instance : BEq Operand := ⟨Operand.beq⟩
instance : BEq Expression := ⟨Expression.beq⟩
instance : BEq Scope := ⟨Scope.beq⟩
instance : BEq Program := ⟨fun p q => p.body == q.body⟩

end GameScript
