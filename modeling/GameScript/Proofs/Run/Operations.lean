import GameScript.Proofs.Run.Frames

/-!
# Operations, from their parts

What an expression does once its slots are known to be filled as its operator wants: an assignment, a compound
assignment and a step are the functions of that name on the parts (`eval_of_assign`, `eval_of_compound`,
`eval_of_step`), and any other operator of two operands is applied to what they stand for (`eval_of_operation`).

What such a part does to the counter and to what is held comes to nothing in the end (`Eval.Neutral`), so it is just run
where nothing more is to be held (`holding_nil`).
-/

namespace GameScript

open Eval

variable {σ α β : Type}

/-! ## What an expression does -/

section Equations

variable {calls : Calls σ} {scope : ScopeId} {e : Expression} {op base : OperatorKind}

theorem eval_of_leaf (a : Operand) (span : Span) :
    (Expression.leaf a span).eval calls scope = a.eval calls scope span := by
  rw [Expression.leaf, Expression.eval.eq_def]
  rfl

theorem eval_of_shape {fault : ShapeFault} (h : e.checkShape = some fault) :
    e.eval calls scope = fail e.span (.malformedExpression (.shape fault)) := by
  obtain ⟨left, op, right, span⟩ := e
  rw [Expression.eval.eq_def]
  dsimp only
  rw [h]

theorem slotTarget_written (mayDeclare : Bool) :
    (if e.left.isSome then Operand.slotTarget calls scope e.span mayDeclare e.left
      else Operand.slotTarget calls scope e.span mayDeclare e.right) =
      Operand.slotTarget calls scope e.span mayDeclare e.written := by
  unfold Expression.written
  split <;> rfl

theorem eval_of_assign (hop : e.operator? = some .assign) (h : e.checkShape = none) :
    e.eval calls scope = assign scope e.span (Operand.evalSlot calls scope e.span e.right)
      (Operand.slotTarget calls scope e.span true e.written) := by
  rw [← slotTarget_written]
  obtain ⟨left, _ | ⟨kind, opSpan⟩, right, span⟩ := e
  · cases hop
  · obtain rfl : kind = .assign := Option.some.inj hop
    rw [Expression.eval.eq_def]
    dsimp only
    rw [h]
    rfl

theorem eval_of_compound (hop : e.operator? = some op) (hbase : op.compoundBase = some base)
    (h : e.checkShape = none) :
    e.eval calls scope = assignWith base scope e.span (Operand.evalSlot calls scope e.span e.right)
      (Operand.slotTarget calls scope e.span false e.written) := by
  rw [← slotTarget_written]
  obtain ⟨left, _ | ⟨kind, opSpan⟩, right, span⟩ := e
  · cases hop
  · obtain rfl : kind = op := Option.some.inj hop
    rw [Expression.eval.eq_def]
    dsimp only
    rw [h]
    dsimp only
    rw [hbase]

theorem eval_of_step (hop : e.operator? = some op) (hstep : op = .inc ∨ op = .dec) (h : e.checkShape = none) :
    e.eval calls scope = stepBy op e.left.isNone scope e.span
      (Operand.slotTarget calls scope e.span false e.written) := by
  rw [← slotTarget_written]
  obtain ⟨left, _ | ⟨kind, opSpan⟩, right, span⟩ := e
  · cases hop
  · obtain rfl : kind = op := Option.some.inj hop
    rw [Expression.eval.eq_def]
    dsimp only
    rw [h]
    obtain rfl | rfl := hstep <;> rfl

/-- Any other operator of two operands is applied to what they stand for, the left one first. -/
theorem eval_of_operation (hop : e.operator? = some op) (harity : op.arity = .binary)
    (hassign : op.isAssignment = false) (hchild : op ≠ .child) (h : e.checkShape = none) :
    e.eval calls scope = (do
      let a ← Operand.evalSlot calls scope e.span e.left
      let b ← holding (Value.cells [a]) (Operand.evalSlot calls scope e.span e.right)
      Eval.lift e.span (applyBinary op a b)) := by
  obtain ⟨left, _ | ⟨kind, opSpan⟩, right, span⟩ := e
  · cases hop
  · obtain rfl : kind = op := Option.some.inj hop
    rw [Expression.eval.eq_def]
    dsimp only
    rw [h]
    cases kind <;>
      first | rfl | exact absurd rfl hchild | exact absurd harity (by decide) | exact absurd hassign (by decide)

/-- So is an operator that a compound assignment applies. -/
theorem eval_of_base (hop : e.operator? = some base) (hbase : op.compoundBase = some base) (h : e.checkShape = none) :
    e.eval calls scope = (do
      let a ← Operand.evalSlot calls scope e.span e.left
      let b ← holding (Value.cells [a]) (Operand.evalSlot calls scope e.span e.right)
      Eval.lift e.span (applyBinary base a b)) := by
  cases op <;> cases hbase <;> exact eval_of_operation hop rfl rfl nofun h

theorem eval_of_not (hop : e.operator? = some .not) (h : e.checkShape = none) :
    e.eval calls scope = (do negate e.span (← Operand.evalSlot calls scope e.span e.right)) := by
  obtain ⟨left, _ | ⟨kind, opSpan⟩, right, span⟩ := e
  · cases hop
  · obtain rfl : kind = .not := Option.some.inj hop
    rw [Expression.eval.eq_def]
    dsimp only
    rw [h]
    rfl

theorem eval_of_child (hop : e.operator? = some .child) (h : e.checkShape = none) :
    e.eval calls scope = (do return .reference (← e.evalAccess calls scope)) := by
  obtain ⟨left, _ | ⟨kind, opSpan⟩, right, span⟩ := e
  · cases hop
  · obtain rfl : kind = .child := Option.some.inj hop
    rw [Expression.eval.eq_def]
    dsimp only
    rw [h]
    simp only [Expression.evalAccess, bind_assoc]
    rfl

/-- An access to a property is the target that it finds, whatever it is a target for. -/
theorem target_of_child (hop : e.operator? = some .child) (span : Span) (mayDeclare : Bool) :
    Operand.target calls scope span mayDeclare (.expression e) =
      (do return .property (← e.evalAccess calls scope)) := by
  obtain ⟨left, _ | ⟨kind, opSpan⟩, right, place⟩ := e
  · cases hop
  · obtain rfl : kind = .child := Option.some.inj hop
    rw [Operand.target]
    simp only [Expression.evalAccess, bind_assoc]

end Equations

/-! ## What comes to nothing -/

section Neutral

/-- From every machine of a depth, a computation ends at that depth and with the same cells held. -/
def Eval.Neutral (d : Nat) (ev : Eval σ α) : Prop :=
  ∀ m, m.depth = d → (ev m).2.depth = d ∧ (ev m).2.memory.held = m.memory.held

variable {host : Host σ} {limit d : Nat} {ev : Eval σ α} {m : Machine σ}

theorem holding_apply (cells : List Cell) (ev : Eval σ α) (m : Machine σ) : holding cells ev m =
    ((ev { m with memory := m.memory.holding cells }).1,
      { (ev { m with memory := m.memory.holding cells }).2 with
        memory := { (ev { m with memory := m.memory.holding cells }).2.memory with held := m.memory.held } }) := rfl

/-- While nothing more is held, a computation that puts back what is held is just run. -/
theorem holding_nil (h : (ev m).2.memory.held = m.memory.held) : holding [] ev m = ev m := by
  show ((ev m).1, { (ev m).2 with memory := { (ev m).2.memory with held := m.memory.held } }) = ev m
  rw [← h]
  rfl

theorem updateMemory_apply (span : Span) (change : Memory → Except RuntimeError Memory) (m : Machine σ) :
    updateMemory span change m = match change m.memory with
      | .ok n => (.ok (), { m with memory := n })
      | .error e => (.error ⟨e, span⟩, m) := by
  show (Eval.lift span (change m.memory) >>= setMemory) m = _
  cases change m.memory <;> rfl

theorem Eval.Neutral.bind {f : α → Eval σ β} (h : ev.Neutral d) (hf : ∀ a, (f a).Neutral d) :
    (ev >>= f).Neutral d := by
  intro m hm
  have hev := h m hm
  rw [Eval.bind_apply]
  rcases hact : ev m with ⟨e | a, k⟩ <;> rw [hact] at hev
  · exact hev
  · obtain ⟨hdepth, hheld⟩ := hf a k hev.1
    exact ⟨hdepth, hheld.trans hev.2⟩

theorem Eval.Neutral.holding (h : ev.Neutral d) (cells : List Cell) : (holding cells ev).Neutral d :=
  fun m hm => ⟨(h { m with memory := m.memory.holding cells } hm).1, rfl⟩

theorem Realizes.neutral {act : Plan σ α} (h : Realizes host limit d act ev) (hact : act.Steady fun _ => True) :
    ev.Neutral d := by
  intro m hm
  have hbalanced := (h m hm).1.finishes.of_meets_balance (hact m)
  exact ⟨hbalanced.depth.trans hm, hbalanced.held⟩

variable (host limit d) (scope : ScopeId) (span : Span)

theorem neutral_slotValue (a : Option Operand) :
    (Operand.evalSlot (callsAt host limit d) scope span a).Neutral d := by
  have h := realizes_slotValue (realizes_slot (realizesCalls_callsAt host limit d) scope span a)
  exact h.neutral ((steadiness lenient_true).slotValue trivial a)

theorem neutral_slotTarget (mayDeclare : Bool) (a : Option Operand) :
    (Operand.slotTarget (callsAt host limit d) scope span mayDeclare a).Neutral d := by
  have h := realizes_written (realizesCalls_callsAt host limit d) scope span mayDeclare a
  exact h.neutral ((steadiness lenient_true).target trivial mayDeclare a)

theorem neutral_values (before : List Value) (es : List Expression) :
    (Expression.evalAll (callsAt host limit d) scope before es).Neutral d := by
  have h := realizes_values (realizesCalls_callsAt host limit d) scope es before
  exact h.neutral ((steadiness lenient_true).values (fun _ _ => trivial) before)

theorem neutral_expression (e : Expression) : (e.eval (callsAt host limit d) scope).Neutral d := by
  have h := realizes_expression (realizesCalls_callsAt host limit d) scope e
  exact h.neutral (Plan.steady_ask _)

end Neutral

end GameScript
