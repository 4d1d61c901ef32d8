import GameScript.Token.Basic
import GameScript.Tree.Operator

/-!
# How tightly operators bind

A binary operator has two powers: the least power that may stand open on its left for the operator to take what is
there, and the power that its right operand is read with. Equal operators group to the left when the right power is
the greater, as for all but assignments, which group to the right.
-/

namespace GameScript

/-- A binary operator and its powers. -/
structure BinaryRule where
  kind : OperatorKind
  left : Nat
  right : Nat
deriving DecidableEq, Repr

/-- The binary operator that a symbol stands for. -/
def Symbol.binaryRule? : Symbol → Option BinaryRule
  | .eq => some ⟨.assign, 2, 1⟩
  | .plusEq => some ⟨.addAssign, 2, 1⟩
  | .minusEq => some ⟨.subAssign, 2, 1⟩
  | .starEq => some ⟨.mulAssign, 2, 1⟩
  | .slashEq => some ⟨.divAssign, 2, 1⟩
  | .percentEq => some ⟨.modAssign, 2, 1⟩
  | .pipePipe => some ⟨.or, 3, 4⟩
  | .ampAmp => some ⟨.and, 5, 6⟩
  | .eqEq => some ⟨.eq, 7, 8⟩
  | .bangEq => some ⟨.ne, 7, 8⟩
  | .lt => some ⟨.lt, 9, 10⟩
  | .gt => some ⟨.gt, 9, 10⟩
  | .ltEq => some ⟨.le, 9, 10⟩
  | .gtEq => some ⟨.ge, 9, 10⟩
  | .plus => some ⟨.add, 11, 12⟩
  | .minus => some ⟨.sub, 11, 12⟩
  | .star => some ⟨.mul, 13, 14⟩
  | .slash => some ⟨.div, 13, 14⟩
  | .percent => some ⟨.mod, 13, 14⟩
  | _ => none

/-- The power with which an operator before its operand reads it. -/
def operandPower : Nat := 15

/-- The operator that a symbol before its operand stands for. -/
def Symbol.leadingOperator? : Symbol → Option OperatorKind
  | .bang => some .not
  | .plusPlus => some .inc
  | .minusMinus => some .dec
  | _ => none

/-- What a symbol after an operand does with it. -/
inductive Suffix
  | call
  | member
  | step (kind : OperatorKind)
deriving DecidableEq, Repr

/-- What a symbol after an operand does with it. -/
def Symbol.suffix? : Symbol → Option Suffix
  | .lParen => some .call
  | .dot => some .member
  | .plusPlus => some (.step .inc)
  | .minusMinus => some (.step .dec)
  | _ => none

/-- How tightly a suffix binds. -/
def Suffix.power : Suffix → Nat
  | .call | .member => 17
  | .step _ => 16

/-- The binary rule of a token. -/
def TokenKind.binaryRule? : TokenKind → Option BinaryRule
  | .symbol s => s.binaryRule?
  | _ => none

/-- The suffix that a token starts. -/
def TokenKind.suffix? : TokenKind → Option Suffix
  | .symbol s => s.suffix?
  | _ => none

theorem Symbol.binaryRule?_arity {s : Symbol} {r : BinaryRule} (h : s.binaryRule? = some r) :
    r.kind.arity = .binary := by
  revert h; cases s <;> simp [Symbol.binaryRule?] <;> rintro rfl <;> rfl

end GameScript
