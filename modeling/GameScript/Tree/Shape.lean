import GameScript.Tree.Basic

/-!
# Which slots of an expression are filled

An expression is well shaped when it is a leaf, or fills exactly the slots that its operator takes. The builders
`binary?`, `prefixed?` and `postfixed?` refuse an operator that takes other slots than they fill.

Main statements: `checkShape` accepts an expression exactly when it is well shaped (`checkShape_eq_none_iff`), and
what a builder returns is well shaped (`wellShaped_of_binary?` and its sisters).
-/

namespace GameScript

/-- What is wrong with the slots of an expression. -/
inductive ShapeFault
  | operandWithoutOperator
  | empty
  | slots (op : OperatorKind)
deriving DecidableEq, Repr

/-- What an operator of an arity expects. -/
def Arity.expectation : Arity → String
  | binary => "two operands"
  | unary => "only a right operand"
  | either => "exactly one operand"

/-- The text of a fault. -/
def ShapeFault.message : ShapeFault → String
  | operandWithoutOperator => "expression has a second operand but no operator"
  | empty => "expression is empty"
  | slots op => "operator " ++ op.quoted ++ " expects " ++ op.arity.expectation

/-- Whether an arity takes just these slots: the left one, the right one. -/
def Arity.takes : Arity → Bool → Bool → Bool
  | binary, left, right => left && right
  | unary, left, right => !left && right
  | either, left, right => left != right

namespace Expression

/-- An expression that is an operand alone. -/
def leaf (a : Operand) (span : Span) : Expression := ⟨some a, none, none, span⟩

/-- An operator between two operands. -/
def binary (a : Operand) (op : Operator) (b : Operand) (span : Span) : Expression := ⟨some a, some op, some b, span⟩

/-- An operator before its operand. -/
def prefixed (op : Operator) (b : Operand) (span : Span) : Expression := ⟨none, some op, some b, span⟩

/-- An operator after its operand. -/
def postfixed (a : Operand) (op : Operator) (span : Span) : Expression := ⟨some a, some op, none, span⟩

/-- The operator of an expression. -/
def operator? (e : Expression) : Option OperatorKind := e.op.map Operator.kind

/-- A leaf gives its operand; any other expression becomes one. -/
def toOperand : Expression → Operand
  | ⟨some a, none, none, _⟩ => a
  | e => .expression e

/-- What is wrong with the slots of an expression, if anything is. -/
def checkShape (e : Expression) : Option ShapeFault :=
  match e.op with
  | none =>
    if e.right.isSome then some .operandWithoutOperator
    else if e.left.isSome then none
    else some .empty
  | some op => if op.kind.arity.takes e.left.isSome e.right.isSome then none else some (.slots op.kind)

/-- An expression that fills the slots of its operator, or is a leaf. -/
def WellShaped (e : Expression) : Prop :=
  match e.op with
  | none => e.left.isSome ∧ e.right = none
  | some op => op.kind.arity.takes e.left.isSome e.right.isSome

/-- The forms that can be assigned to: a name in use and a property. -/
def isAssignmentTarget (e : Expression) : Bool :=
  match e.left, e.op with
  | some (.var ⟨_, .use, _⟩), none => true
  | some _, some op => op.kind = .child
  | _, _ => false

theorem checkShape_eq_none_iff {e : Expression} : e.checkShape = none ↔ e.WellShaped := by
  obtain ⟨a, op, b, s⟩ := e
  cases a <;> cases op <;> cases b <;> simp [checkShape, WellShaped]

end Expression

/-- Why an operator cannot be built into an expression of a form. -/
inductive BuilderFault
  | notBinary (op : OperatorKind)
  | needsTwo (op : OperatorKind)
  | notPostfix (op : OperatorKind)
deriving DecidableEq, Repr

/-- The text of a fault. -/
def BuilderFault.message : BuilderFault → String
  | notBinary op => op.quoted ++ " is not a binary operator"
  | needsTwo op => op.quoted ++ " needs two operands"
  | notPostfix op => op.quoted ++ " cannot be used as a postfix operator"

namespace Expression

/-- An operator between two operands, if it takes two. -/
def binary? (a : Operand) (op : Operator) (b : Operand) (span : Span) : Except BuilderFault Expression :=
  if op.kind.arity = .binary then .ok (binary a op b span) else .error (.notBinary op.kind)

/-- An operator before its operand, if it can stand there. -/
def prefixed? (op : Operator) (b : Operand) (span : Span) : Except BuilderFault Expression :=
  if op.kind.arity = .binary then .error (.needsTwo op.kind) else .ok (prefixed op b span)

/-- An operator after its operand, if it can stand there. -/
def postfixed? (a : Operand) (op : Operator) (span : Span) : Except BuilderFault Expression :=
  if op.kind.arity = .either then .ok (postfixed a op span) else .error (.notPostfix op.kind)

theorem wellShaped_of_binary? {a b : Operand} {op : Operator} {span : Span} {e : Expression}
    (h : binary? a op b span = .ok e) : e.WellShaped := by
  unfold binary? at h
  split at h
  · rename_i ha
    cases h
    simp [WellShaped, binary, ha, Arity.takes]
  · cases h

theorem wellShaped_of_prefixed? {b : Operand} {op : Operator} {span : Span} {e : Expression}
    (h : prefixed? op b span = .ok e) : e.WellShaped := by
  unfold prefixed? at h
  split at h
  · cases h
  · rename_i ha
    cases h
    cases hk : op.kind.arity <;> simp_all [WellShaped, prefixed, Arity.takes]

theorem wellShaped_of_postfixed? {a : Operand} {op : Operator} {span : Span} {e : Expression}
    (h : postfixed? a op span = .ok e) : e.WellShaped := by
  unfold postfixed? at h
  split at h
  · rename_i ha
    cases h
    simp [WellShaped, postfixed, ha, Arity.takes]
  · cases h

end Expression

end GameScript
