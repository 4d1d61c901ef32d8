import GameScript.Proofs.Tree.Canonical

/-!
# Passive trees

A piece of a program acts when it is a call, or has an operator that writes. The `parts` of a piece are the pieces
directly inside it that are evaluated with it: all but the body of a function, which is evaluated when the function is
called. A piece is passive when neither it nor a part of it acts, nor a part of a part, and so on.

Main statement: a passive expression that is canonical is an operand alone, the access to a property, a negation, or an
operation on two operands (`passiveForm_of_canonical`).
-/

namespace GameScript

/-- Whether an operator writes to an operand. -/
def OperatorKind.writes (k : OperatorKind) : Bool := k.isAssignment || k = .inc || k = .dec

theorem OperatorKind.writes_of_either {k : OperatorKind} (h : k.arity = .either) : k.writes = true := by
  revert h
  cases k <;> decide

theorem OperatorKind.isAssignment_of_writes_eq_false {k : OperatorKind} (h : k.writes = false) :
    k.isAssignment = false := by
  revert h
  cases k <;> decide

theorem OperatorKind.eq_not_of_prefixed {k : OperatorKind} (harity : k.arity ≠ .binary) (hret : k ≠ .ret)
    (h : k.writes = false) : k = .not := by
  revert harity hret h
  cases k <;> decide

namespace Node

/-- Whether a piece is a call, or writes to an operand. -/
def Acts : Node → Prop
  | scope _ => False
  | statement e | expression e => ∃ k ∈ e.operator?, k.writes = true
  | operand (.call _ _) => True
  | operand _ => False

/-- The pieces directly inside a piece that are evaluated with it. -/
def parts : Node → List Node
  | operand (.function _ _) => []
  | n => n.children

/-- A piece that neither calls nor writes outside the bodies of its functions. -/
def Passive (n : Node) : Prop := ∀ m, Relation.ReflTransGen (fun a b => b ∈ a.parts) n m → ¬m.Acts

variable {n m : Node}

theorem Passive.idle (h : n.Passive) : ¬n.Acts := h n .refl

theorem Passive.part (h : n.Passive) (hm : m ∈ n.parts) : m.Passive := fun k hk => h k (.head hm hk)

theorem passive_iff : n.Passive ↔ ¬n.Acts ∧ ∀ m ∈ n.parts, m.Passive := by
  refine ⟨fun h => ⟨h.idle, fun m hm => h.part hm⟩, fun ⟨hidle, hparts⟩ m hm => ?_⟩
  rcases Relation.ReflTransGen.cases_head hm with rfl | ⟨k, hk, hkm⟩
  · exact hidle
  · exact hparts k hk m hkm

end Node

open Node

/-- The forms of an expression that neither calls nor writes. -/
inductive Expression.PassiveForm : Expression → Prop
  | leaf (a : Operand) (span : Span) : PassiveForm (.leaf a span)
  | access (parent : Operand) (key : String) (keyPlace opPlace span : Span) :
      PassiveForm (.binary parent ⟨.child, opPlace⟩ (.var ⟨key, .use, keyPlace⟩) span)
  | negation (a : Operand) (opPlace span : Span) : PassiveForm (.prefixed ⟨.not, opPlace⟩ a span)
  | operation (a b : Operand) (op : Operator) (span : Span) (harity : op.kind.arity = .binary)
      (hassign : op.kind.isAssignment = false) (hchild : op.kind ≠ .child) : PassiveForm (.binary a op b span)

theorem passiveForm_of_canonical {e : Expression} (h : (expression e).Canonical) (hpassive : (expression e).Passive) :
    e.PassiveForm := by
  have hidle (k : OperatorKind) (hk : e.operator? = some k) : k.writes = false :=
    Bool.eq_false_iff.2 fun hwrites => hpassive.idle ⟨k, hk, hwrites⟩
  cases formed_of_canonical h with
  | leaf a span => exact .leaf a span
  | binary a op b span ha hb hop hplace huse =>
    obtain ⟨kind, opPlace⟩ := op
    by_cases hchild : kind = .child
    · subst hchild
      match b, huse rfl with
      | .var ⟨key, .use, keyPlace⟩, _ => exact .access a key keyPlace opPlace span
    · have hassign := OperatorKind.isAssignment_of_writes_eq_false (hidle kind rfl)
      exact .operation a b ⟨kind, opPlace⟩ span hop hassign hchild
  | prefixed op b span hb hop hret =>
    obtain ⟨kind, opPlace⟩ := op
    obtain rfl : kind = .not := OperatorKind.eq_not_of_prefixed hop hret (hidle kind rfl)
    exact .negation b opPlace span
  | postfixed a op span ha hop =>
    exact absurd (OperatorKind.writes_of_either hop) (Bool.eq_false_iff.1 (hidle op.kind rfl))

end GameScript
