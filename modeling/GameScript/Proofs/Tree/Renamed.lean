import GameScript.Tree.Shape

/-!
# Other names for variables

A name in a tree is that of a variable where it is used or declared or is a parameter, and that of a property where it
stands after a point or before a colon. Renaming changes the names of variables alone, so the shape of an expression
stays as it is, and of an access only the left operand changes (`right_rename_of_child`).
-/

namespace GameScript

mutual

/-- An operand with other names for variables. -/
def Operand.rename (f : String → String) : Operand → Operand
  | .value literal => .value literal
  | .var v => .var { v with name := f v.name }
  | .object ps => .object (Property.renameAll f ps)
  | .block s => .block (s.rename f)
  | .expression e => .expression (e.rename f)
  | .function parameters body => .function (parameters.map f) (body.rename f)
  | .call e es => .call (e.rename f) (Expression.renameAll f es)

/-- Properties with other names for variables. Keys stay as they are. -/
def Property.renameAll (f : String → String) : List Property → List Property
  | [] => []
  | ⟨key, e⟩ :: ps => ⟨key, e.rename f⟩ :: Property.renameAll f ps

/-- A scope with other names for variables. -/
def Scope.rename (f : String → String) : Scope → Scope
  | ⟨body, span⟩ => ⟨Statement.renameAll f body, span⟩

/-- Statements with other names for variables. -/
def Statement.renameAll (f : String → String) : List Statement → List Statement
  | [] => []
  | ⟨e, span⟩ :: rest => ⟨e.rename f, span⟩ :: Statement.renameAll f rest

/-- An expression with other names for variables. The name after a point is no variable. -/
def Expression.rename (f : String → String) : Expression → Expression
  | ⟨left, op, right, span⟩ =>
    ⟨Operand.renameSlot f left, op,
      if op.map Operator.kind = some .child then right else Operand.renameSlot f right, span⟩

/-- What is in a slot with other names for variables. -/
def Operand.renameSlot (f : String → String) : Option Operand → Option Operand
  | none => none
  | some a => some (a.rename f)

/-- Expressions with other names for variables. -/
def Expression.renameAll (f : String → String) : List Expression → List Expression
  | [] => []
  | e :: es => e.rename f :: Expression.renameAll f es

end

/-- A program with other names for variables. -/
def Program.rename (f : String → String) (p : Program) : Program := ⟨p.body.rename f⟩

variable {f : String → String} {e : Expression}

theorem isSome_renameSlot (a : Option Operand) : (Operand.renameSlot f a).isSome = a.isSome := by cases a <;> rfl

theorem Expression.left_rename (e : Expression) : (e.rename f).left = Operand.renameSlot f e.left := by
  obtain ⟨left, op, right, span⟩ := e
  rfl

theorem Expression.right_rename_of_child (h : e.operator? = some .child) : (e.rename f).right = e.right := by
  obtain ⟨left, op, right, span⟩ := e
  exact if_pos h

theorem Expression.right_rename_of_ne (h : e.operator? ≠ some .child) :
    (e.rename f).right = Operand.renameSlot f e.right := by
  obtain ⟨left, op, right, span⟩ := e
  exact if_neg h

theorem Expression.op_rename (e : Expression) : (e.rename f).op = e.op := by
  obtain ⟨left, op, right, span⟩ := e
  rfl

theorem Expression.span_rename (e : Expression) : (e.rename f).span = e.span := by
  obtain ⟨left, op, right, span⟩ := e
  rfl

theorem Expression.operator?_rename (e : Expression) : (e.rename f).operator? = e.operator? :=
  congrArg (Option.map Operator.kind) e.op_rename

theorem Expression.checkShape_rename (e : Expression) : (e.rename f).checkShape = e.checkShape := by
  have hright : (e.rename f).right.isSome = e.right.isSome := by
    by_cases h : e.operator? = some .child
    · rw [right_rename_of_child h]
    · rw [right_rename_of_ne h, isSome_renameSlot]
  simp only [checkShape, op_rename, left_rename, isSome_renameSlot, hright]

theorem Scope.body_rename (s : Scope) : (s.rename f).body = Statement.renameAll f s.body := by
  obtain ⟨body, span⟩ := s
  rfl

/-! ## Trees that stay as they are -/

theorem Expression.left_of_rename_eq (h : e.rename f = e) : Operand.renameSlot f e.left = e.left := by
  rw [← left_rename, h]

theorem Expression.right_of_rename_eq (hop : e.operator? ≠ some .child) (h : e.rename f = e) :
    Operand.renameSlot f e.right = e.right := by
  rw [← right_rename_of_ne hop, h]

end GameScript
