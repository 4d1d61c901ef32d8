import GameScript.Proofs.Tree.Canonical
import GameScript.Proofs.Tree.Printer

/-!
# Trees without places

What reading a written tree gives back is the tree but for places. Lists are erased one by one, and neither the
unwrapping of a leaf nor what may be assigned to depends on places (`eraseSpans_toOperand`,
`isAssignmentTarget_eraseSpans`).

Readers read expressions where trees hold operands. `Operand.asExpression` goes back: it is the expression whose
operand is the given one (`toOperand_asExpression`), written in the same way.
-/

namespace GameScript

variable {a : Operand} {e f : Expression} {span : Span}

theorem Expression.eraseAll_append (es fs : List Expression) :
    Expression.eraseAll (es ++ fs) = Expression.eraseAll es ++ Expression.eraseAll fs := by
  induction es with
  | nil => rfl
  | cons e es ih => simp [Expression.eraseAll, ih]

theorem Property.eraseAll_append (ps qs : List Property) :
    Property.eraseAll (ps ++ qs) = Property.eraseAll ps ++ Property.eraseAll qs := by
  induction ps with
  | nil => rfl
  | cons p ps ih =>
    obtain ⟨key, e⟩ := p
    simp [Property.eraseAll, ih]

theorem Statement.eraseAll_append (ss ts : List Statement) :
    Statement.eraseAll (ss ++ ts) = Statement.eraseAll ss ++ Statement.eraseAll ts := by
  induction ss with
  | nil => rfl
  | cons s ss ih =>
    obtain ⟨e, span⟩ := s
    simp [Statement.eraseAll, ih]

theorem Expression.tokensEach_eq_map (es : List Expression) :
    Expression.tokensEach es = es.map Expression.tokens := by
  induction es with
  | nil => rfl
  | cons e es ih => simp [Expression.tokensEach, ih]

theorem Property.tokensEach_eq_map (ps : List Property) : Property.tokensEach ps =
    ps.map fun p => .string p.key :: .symbol .colon :: p.value.tokens := by
  induction ps with
  | nil => rfl
  | cons p ps ih =>
    obtain ⟨key, e⟩ := p
    simp [Property.tokensEach, ih]

theorem Expression.depthAll_lt_iff {n : Nat} (es : List Expression) :
    Expression.depthAll es < n + 1 ↔ ∀ e ∈ es, e.depth < n := by
  induction es with
  | nil => simp [Expression.depthAll]
  | cons e es ih =>
    rw [Expression.depthAll, Nat.max_lt, ih, Nat.add_lt_add_iff_right, List.forall_mem_cons]

theorem Property.depthAll_lt_iff {n : Nat} (ps : List Property) :
    Property.depthAll ps < n + 1 ↔ ∀ p ∈ ps, p.value.depth < n := by
  induction ps with
  | nil => simp [Property.depthAll]
  | cons p ps ih =>
    obtain ⟨key, e⟩ := p
    rw [Property.depthAll, Nat.max_lt, ih, Nat.add_lt_add_iff_right, List.forall_mem_cons]

theorem eraseSpans_toOperand (e : Expression) : e.toOperand.eraseSpans = e.eraseSpans.toOperand := by
  obtain ⟨left, op, right, span⟩ := e
  cases left <;> cases op <;> cases right <;> rfl

theorem toOperand_eraseSpans_congr (h : f.eraseSpans = e.eraseSpans) :
    f.toOperand.eraseSpans = e.toOperand.eraseSpans := by
  rw [eraseSpans_toOperand, eraseSpans_toOperand, h]

theorem isAssignmentTarget_eraseSpans (e : Expression) : e.eraseSpans.isAssignmentTarget = e.isAssignmentTarget := by
  obtain ⟨left, op, right, span⟩ := e
  rcases left with _ | (_ | ⟨_, _ | _, _⟩ | _ | _ | _ | _ | _) <;> cases op <;> rfl

/-! ## What places do not change -/

mutual

@[simp] theorem Operand.eraseSpans_eraseSpans (a : Operand) : a.eraseSpans.eraseSpans = a.eraseSpans := by
  match a with
  | .value _ => rfl
  | .var _ => rfl
  | .object ps => simp only [Operand.eraseSpans, Property.eraseAll_eraseAll ps]
  | .block s => simp only [Operand.eraseSpans, Scope.eraseSpans_eraseSpans s]
  | .expression e => simp only [Operand.eraseSpans, Expression.eraseSpans_eraseSpans e]
  | .function _ s => simp only [Operand.eraseSpans, Scope.eraseSpans_eraseSpans s]
  | .call e es =>
    simp only [Operand.eraseSpans, Expression.eraseSpans_eraseSpans e, Expression.eraseAll_eraseAll es]

@[simp] theorem Property.eraseAll_eraseAll (ps : List Property) :
    Property.eraseAll (Property.eraseAll ps) = Property.eraseAll ps := by
  match ps with
  | [] => rfl
  | ⟨_, e⟩ :: ps => simp only [Property.eraseAll, Expression.eraseSpans_eraseSpans e, Property.eraseAll_eraseAll ps]

@[simp] theorem Scope.eraseSpans_eraseSpans (s : Scope) : s.eraseSpans.eraseSpans = s.eraseSpans := by
  match s with
  | ⟨body, _⟩ => simp only [Scope.eraseSpans, Statement.eraseAll_eraseAll body]

@[simp] theorem Statement.eraseAll_eraseAll (ss : List Statement) :
    Statement.eraseAll (Statement.eraseAll ss) = Statement.eraseAll ss := by
  match ss with
  | [] => rfl
  | ⟨e, _⟩ :: ss =>
    simp only [Statement.eraseAll, Expression.eraseSpans_eraseSpans e, Statement.eraseAll_eraseAll ss]

/-- Where places have been erased, nothing is left to erase. -/
@[simp] theorem Expression.eraseSpans_eraseSpans (e : Expression) : e.eraseSpans.eraseSpans = e.eraseSpans := by
  match e with
  | ⟨a, op, b, _⟩ =>
    simp only [Expression.eraseSpans, Operand.eraseSlot_eraseSlot a, Operand.eraseSlot_eraseSlot b]
    cases op <;> rfl

@[simp] theorem Operand.eraseSlot_eraseSlot (a : Option Operand) :
    Operand.eraseSlot (Operand.eraseSlot a) = Operand.eraseSlot a := by
  match a with
  | none => rfl
  | some a => simp only [Operand.eraseSlot, Operand.eraseSpans_eraseSpans a]

@[simp] theorem Expression.eraseAll_eraseAll (es : List Expression) :
    Expression.eraseAll (Expression.eraseAll es) = Expression.eraseAll es := by
  match es with
  | [] => rfl
  | e :: es => simp only [Expression.eraseAll, Expression.eraseSpans_eraseSpans e, Expression.eraseAll_eraseAll es]

end

theorem isSome_eraseSlot (a : Option Operand) : (Operand.eraseSlot a).isSome = a.isSome := by cases a <;> rfl

theorem operator?_eraseSpans (e : Expression) : e.eraseSpans.operator? = e.operator? := by
  obtain ⟨left, op, right, span⟩ := e
  cases op <;> rfl

theorem checkShape_eraseSpans (e : Expression) : e.eraseSpans.checkShape = e.checkShape := by
  obtain ⟨left, op, right, span⟩ := e
  cases op <;> simp only [Expression.checkShape, Expression.eraseSpans, isSome_eraseSlot] <;> rfl

theorem Scope.eraseAll_body_congr {s t : Scope} (h : s.eraseSpans = t.eraseSpans) :
    Statement.eraseAll s.body = Statement.eraseAll t.body := by
  obtain ⟨body, span⟩ := s
  obtain ⟨body', span'⟩ := t
  exact congrArg Scope.body h

/-! ## Operands as expressions -/

/-- An operand as an expression of its own. -/
def Operand.asExpression (span : Span) : Operand → Expression
  | .expression e => e
  | a => .leaf a span

theorem toOperand_asExpression (h : (Node.operand a).Canonical) : (a.asExpression span).toOperand = a := by
  cases a with
  | expression e => exact toOperand_of_op h.proper
  | _ => rfl

theorem canonical_asExpression (h : (Node.operand a).Canonical) :
    (Node.expression (a.asExpression span)).Canonical := by
  cases a with
  | expression e => exact h.child (List.mem_singleton.2 rfl)
  | _ => exact canonical_leaf h id

theorem tokens_leaf : (Expression.leaf a span).tokens = a.tokens := by rw [Expression.leaf, Expression.tokens]

theorem depth_leaf : (Expression.leaf a span).depth = a.depth := by rw [Expression.leaf, Expression.depth]

theorem tokens_asExpression : (a.asExpression span).tokens = a.tokens := by
  cases a with
  | expression e => rw [Operand.asExpression, Operand.tokens]
  | _ => rw [Operand.asExpression, tokens_leaf]; simp

theorem level_asExpression : (a.asExpression span).level = a.level := by cases a <;> rfl

theorem depth_asExpression : (a.asExpression span).depth = a.depth := by
  cases a with
  | expression e => rw [Operand.asExpression, Operand.depth]
  | _ => rw [Operand.asExpression, depth_leaf]; simp

theorem isAssignmentTarget_asExpression (h : (Node.operand a).Canonical) (hp : a.IsPlace) :
    (a.asExpression span).isAssignmentTarget = true := by
  match a, hp with
  | .var ⟨_, .use, _⟩, _ => rfl
  | .expression e, hp =>
    obtain ⟨left, op, right, _⟩ := e
    obtain ⟨op, rfl, hop⟩ : ∃ o, op = some o ∧ o.kind = .child := by
      simpa [Operand.IsPlace, Expression.operator?] using hp
    have hshape := (h.child (List.mem_singleton.2 rfl)).proper.1
    cases left with
    | none => simp [Expression.WellShaped, hop, OperatorKind.arity, Arity.takes] at hshape
    | some a => simp [Operand.asExpression, Expression.isAssignmentTarget, hop]

theorem sizeOf_asExpression_le : sizeOf (a.asExpression span) ≤ sizeOf a + sizeOf span + 4 := by
  cases a <;> simp [Operand.asExpression, Expression.leaf] <;> omega

end GameScript
