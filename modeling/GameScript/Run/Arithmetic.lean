import GameScript.Run.Fault

/-!
# Binary operators on values

Operators never convert an operand: arithmetic and order want two values of one type, equality takes any two. Integer
results are exact or refused.

Main statements: an integer result is the mathematical one (`checked_eq_ok`), and operands of different types are
refused by every operator but `==` and `!=` (`applyBinary_of_type_ne`).
-/

namespace GameScript

/-- The integers of scripts are those of 64 bits with a sign. -/
def InRange (n : Int) : Prop := -9223372036854775808 ≤ n ∧ n < 9223372036854775808

instance (n : Int) : Decidable (InRange n) := inferInstanceAs (Decidable (_ ∧ _))

/-- An integer result, refused when it does not fit. -/
def checked (op : OperatorKind) (n : Int) : Except RuntimeError Value :=
  if InRange n then .ok (.int (Int64.ofInt n)) else .error (.integerOverflow op)

theorem checked_eq_ok {op : OperatorKind} {n : Int} (h : InRange n) : checked op n = .ok (.int (Int64.ofInt n)) :=
  if_pos h

/-- Integer arithmetic. Division truncates, the remainder has the sign of the dividend, and a remainder is refused
where the quotient does not fit. -/
def intArithmetic (op : OperatorKind) (a b : Int) : Option (Except RuntimeError Value) :=
  match op with
  | .add => some (checked op (a + b))
  | .sub => some (checked op (a - b))
  | .mul => some (checked op (a * b))
  | .div => some (if b = 0 then .error .divisionByZero else checked op (a.tdiv b))
  | .mod =>
    some <|
      if b = 0 then .error .divisionByZero
      else if InRange (a.tdiv b) then checked op (a.tmod b)
      else .error (.integerOverflow op)
  | _ => none

/-- Floating-point arithmetic; there is no remainder. -/
def floatArithmetic (op : OperatorKind) (a b : Float) : Option Float :=
  match op with
  | .add => some (a + b)
  | .sub => some (a - b)
  | .mul => some (a * b)
  | .div => some (a / b)
  | _ => none

/-- The answer of an order operator, from the answers to "less" and "less or equal" and to these with the operands
exchanged. -/
def orderAnswer (op : OperatorKind) (lt le gt ge : Bool) : Option Bool :=
  match op with
  | .lt => some lt
  | .le => some le
  | .gt => some gt
  | .ge => some ge
  | _ => none

/-- A binary operator on two values of one type, where the type has it. -/
def applySame (op : OperatorKind) : Value → Value → Option (Except RuntimeError Value)
  | .int a, .int b =>
    (intArithmetic op a.toInt b.toInt).or <|
      (orderAnswer op (decide (a < b)) (decide (a ≤ b)) (decide (b < a)) (decide (b ≤ a))).map (.ok <| .bool ·)
  | .float a, .float b =>
    ((floatArithmetic op a b).map (.ok <| .float ·)).or <|
      (orderAnswer op (decide (a < b)) (decide (a ≤ b)) (decide (b < a)) (decide (b ≤ a))).map (.ok <| .bool ·)
  | .string a, .string b =>
    if op = .add then some (.ok (.string (a ++ b)))
    else
      (orderAnswer op (decide (a < b)) (!decide (b < a)) (decide (b < a)) (!decide (a < b))).map (.ok <| .bool ·)
  | .bool a, .bool b =>
    match op with
    | .and => some (.ok (.bool (a && b)))
    | .or => some (.ok (.bool (a || b)))
    | _ => none
  | _, _ => none

/-- A binary operator on two values. -/
def applyBinary (op : OperatorKind) (l r : Value) : Except RuntimeError Value :=
  match op with
  | .eq => .ok (.bool (l.equals r))
  | .ne => .ok (.bool (!l.equals r))
  | _ =>
    (applySame op l r).getD <|
      if l.type = r.type then .error (.typeError (.undefinedFor op l.type))
      else .error (.typeMismatch op l.type r.type)

theorem applySame_of_type_ne {op : OperatorKind} {l r : Value} (h : l.type ≠ r.type) : applySame op l r = none := by
  cases l <;> cases r <;> first | rfl | exact absurd rfl h

theorem applyBinary_of_type_ne {op : OperatorKind} {l r : Value} (h : l.type ≠ r.type) (he : op ≠ .eq)
    (hn : op ≠ .ne) : applyBinary op l r = .error (.typeMismatch op l.type r.type) := by
  cases op <;> first | contradiction | simp [applyBinary, applySame_of_type_ne h, h]

end GameScript
