import GameScript.Proofs.Tree.Canonical
import GameScript.Proofs.Tree.Printer

/-!
# Parts of a program that have a place

Blocks, statements, expressions, operators and names have spans. A `Part` is one of them, and its `children` are the
parts directly inside it, in the order in which they are written. The body of a declaration, of a `return` and of a
block that is a statement is no expression that could be written by itself, and is a part of its own kind.
-/

namespace GameScript

/-- A part of a program that has a place. -/
inductive Part
  | scope (s : Scope)
  | statement (t : Statement)
  /-- The body of a declaration, a `return` or a block. -/
  | form (e : Expression)
  | expression (e : Expression)
  | operator (op : Operator)
  | name (v : Variable)

/-- The parts of an operand. Operands have no places of their own. -/
def Operand.parts : Operand → List Part
  | .value _ => []
  | .var v => [.name v]
  | .object ps => ps.map fun p => .expression p.value
  | .block s => [.scope s]
  | .expression e => [.expression e]
  | .function _ s => [.scope s]
  | .call e es => .expression e :: es.map .expression

/-- The parts of an expression: those of its left operand, its operator, and those of its right operand. -/
def Expression.parts (e : Expression) : List Part :=
  e.left.toList.flatMap Operand.parts ++ e.op.toList.map .operator ++ e.right.toList.flatMap Operand.parts

/-- The body of a statement. -/
def Statement.bodyPart (t : Statement) : Part := if t.body.isStatementForm then .form t.body else .expression t.body

namespace Part

/-- The place of a part. -/
def span : Part → Span
  | scope s => s.span
  | statement t => t.span
  | form e => e.span
  | expression e => e.span
  | operator op => op.span
  | name v => v.span

/-- The parts directly inside a part. -/
def children : Part → List Part
  | scope s => s.body.map statement
  | statement t => [t.bodyPart]
  | form e => e.parts
  | expression e => e.parts
  | operator _ => []
  | name _ => []

/-- Whether a part is inside another one, or is that one. -/
def Within (root : Part) : Part → Prop := Relation.ReflTransGen (fun x y => y ∈ x.children) root

end Part

section Forms

variable {a b : Operand} {e : Expression} {op : Operator} {span : Span}

@[simp] theorem Expression.parts_leaf : (Expression.leaf a span).parts = a.parts := by
  simp [Expression.parts, Expression.leaf]

@[simp] theorem Expression.parts_binary :
    (Expression.binary a op b span).parts = a.parts ++ .operator op :: b.parts := by
  simp [Expression.parts, Expression.binary]

@[simp] theorem Expression.parts_prefixed : (Expression.prefixed op b span).parts = .operator op :: b.parts := by
  simp [Expression.parts, Expression.prefixed]

@[simp] theorem Expression.parts_postfixed : (Expression.postfixed a op span).parts = a.parts ++ [.operator op] := by
  simp [Expression.parts, Expression.postfixed]

/-- The operand that an expression makes has the expression for a part, or is all that this is. -/
theorem Expression.parts_toOperand (e : Expression) :
    e.toOperand.parts = [.expression e] ∨ e.toOperand.parts = e.parts := by
  unfold Expression.toOperand
  split
  · exact .inr Expression.parts_leaf.symm
  · exact .inl rfl

end Forms

end GameScript
