import GameScript.Proofs.Run.Discipline

/-!
# Every task keeps to a discipline

The plan of each task keeps to every world in which the task is allowed: one lemma for each function of the evaluator,
from its parts (`keeps_expression` and its sisters). So the contract of a discipline is kept by all runs (`kept`), as
long as the functions of the host keep to it and two errors are allowed where they are raised: the error of a step whose
operand has no place, and those with which functions of the host finish.
-/

namespace GameScript

open Eval

/-- Neither a name nor the access to a property. -/
def Operand.Unassignable : Operand → Prop
  | .var _ => False
  | .expression e => e.operator? ≠ some .child
  | _ => True

namespace Discipline

variable {σ W : Type} [Preorder W] {D : Discipline σ W} {w : W} {s : ScopeId} {span : Span}

/-! ## Programs -/

section Code

variable {e : Expression} {n : Node}

theorem fault_of_not_proper (hn : D.code n) (h : ¬n.Proper) (f : RuntimeFault) : D.fault f :=
  (D.proper_of_code hn).resolve_left h f

theorem code_left (h : D.code (.expression e)) {a : Operand} (ha : e.left = some a) : D.code (.operand a) :=
  D.code_child h (List.mem_map_of_mem (by simp [ha]))

theorem code_right (h : D.code (.expression e)) {a : Operand} (ha : e.right = some a) : D.code (.operand a) :=
  D.code_child h (List.mem_map_of_mem (by simp [ha]))

theorem evaluable_of_code (h : D.code (.expression e)) : D.Evaluable e := .inl h

theorem left_ne_none (h : e.WellShaped) {op : Operator} (hop : e.op = some op) (hk : op.kind.arity = .binary) :
    e.left ≠ none := by
  intro hl
  simp [Expression.WellShaped, hop, hk, Arity.takes, hl] at h

theorem right_ne_none (h : e.WellShaped) {op : Operator} (hop : e.op = some op) (hk : op.kind.arity ≠ .either) :
    e.right ≠ none := by
  intro hr
  cases ha : op.kind.arity <;> simp [Expression.WellShaped, hop, ha, Arity.takes, hr] at h hk

theorem written_ne_none (h : e.WellShaped) {op : Operator} (hop : e.op = some op) : e.written ≠ none := by
  intro hw
  unfold Expression.written at hw
  split at hw
  · rename_i hl
    simp [hw] at hl
  · rename_i hl
    cases ha : op.kind.arity <;> simp_all [Expression.WellShaped, Arity.takes]

theorem code_of_written (h : D.code (.expression e)) {a : Operand} (ha : e.written = some a) : D.code (.operand a) := by
  unfold Expression.written at ha
  split at ha
  · exact code_left h ha
  · exact code_right h ha

theorem code_of_writtenExpression (h : D.code (.expression e)) {f : Expression}
    (hf : e.written = some (.expression f)) : D.code (.expression f) :=
  D.code_child (code_of_written h hf) (List.mem_singleton.2 rfl)

end Code

/-! ## Parts of evaluation -/

theorem keeps_askExpression (hs : D.scope w s) {e : Expression} (he : D.code (.expression e)) :
    D.Keeps w (Plan.ask (.expression s e)) D.value := keeps_ask ⟨hs, evaluable_of_code he⟩

theorem keeps_askOperand (hs : D.scope w s) {a : Operand} (ha : D.code (.operand a)) :
    D.Keeps w (Plan.ask (.operand s span a)) D.value := keeps_ask ⟨hs, ha⟩

theorem keeps_askInvoke {f : Value} {args : List Value} (hf : D.stored w f) (hargs : ∀ v ∈ args, D.stored w v) :
    D.Keeps w (Plan.ask (.invoke f args span)) D.value := by
  have h : D.Keeps w (Plan.ask (.invoke f args span)) fun w' v => D.Fits w' (.invoke f args span) v :=
    keeps_ask ⟨hf, hargs⟩
  refine h.mono fun w' _ v hv => ?_
  cases f with
  | closure c => exact D.value_of_stored hv
  | _ => exact hv

theorem keeps_slotValue (hs : D.scope w s) {a : Option Operand} (ha : ∀ b, a = some b → D.code (.operand b))
    (hnone : a = none → ∀ f, D.fault f) : D.Keeps w (Plan.slotValue s span a) D.stored := by
  cases a with
  | none => exact keeps_fail (hnone rfl _)
  | some a => exact keeps_bind (keeps_askOperand hs (ha a rfl)) fun _ _ v hv => keeps_resolve hv

theorem keeps_parentValue (hs : D.scope w s) {a : Option Operand} (ha : ∀ b, a = some b → D.code (.operand b))
    (hnone : a = none → ∀ f, D.fault f) : D.Keeps w (Plan.parentValue s span a) fun w' r => D.value w' r.1 := by
  cases a with
  | none => exact keeps_fail (hnone rfl _)
  | some a => exact keeps_bind (keeps_askOperand hs (ha a rfl)) fun _ _ v hv => keeps_pure hv

/-- The target of a slot keeps to a world when the error of a slot without a place is allowed. -/
theorem keeps_target (hs : D.scope w s) {mayDeclare : Bool} {a : Option Operand}
    (ha : ∀ e, a = some (.expression e) → e.operator? = some .child → D.code (.expression e))
    (hbad : (∀ b, a = some b → ¬b.IsPlace) → D.fault ⟨.invalidAssignmentTarget, span⟩) :
    D.Keeps w (Plan.target s span mayDeclare a) D.target := by
  unfold Plan.target
  split
  · exact keeps_pure trivial
  · split
    · exact keeps_pure trivial
    · exact keeps_fail (hbad fun b hb => by cases hb; exact VariableRole.noConfusion)
  · split
    · rename_i hop
      exact keeps_bind (keeps_ask ⟨hs, ha _ rfl hop, hop⟩) fun _ _ r hr => keeps_pure hr
    · rename_i hop
      exact keeps_fail (hbad fun b hb => by cases hb; exact hop)
  · rename_i hvar hdeclare hexpr
    refine keeps_fail (hbad fun b hb => ?_)
    cases b with
    | var v =>
      obtain ⟨name, role, place⟩ := v
      cases role
      · exact absurd hb (hvar name place)
      · exact absurd hb (hdeclare name place)
    | expression e => exact absurd hb (hexpr e)
    | _ => exact id

theorem keeps_values (hs : D.scope w s) {es : List Expression} (hes : ∀ e ∈ es, D.code (.expression e))
    {before : List Value} (hb : ∀ v ∈ before, D.stored w v) :
    D.Keeps w (Plan.values s before es) fun w' vs => ∀ v ∈ vs, D.stored w' v := by
  induction es generalizing w before with
  | nil => exact keeps_pure hb
  | cons e rest ih =>
    refine keeps_bind (keeps_askExpression hs (hes e List.mem_cons_self)) fun w₁ h₁ v hv => ?_
    refine keeps_bind (keeps_resolve hv) fun w₂ h₂ u hu => keeps_holding ?_
    refine ih (D.scope_mono (h₁.trans h₂) hs) (fun e he => hes e (List.mem_cons_of_mem _ he)) fun x hx => ?_
    rcases List.mem_append.1 hx with hx | hx
    · exact D.stored_mono (h₁.trans h₂) (hb x hx)
    · exact List.mem_singleton.1 hx ▸ hu

theorem keeps_setProperty {o : ObjectId} {key : String} {v : Value} (ho : D.stored w (.object o)) (hv : D.stored w v) :
    D.Keeps w (Plan.now do setMemory ((← memory).setProperty o key v)) fun _ _ => True := fun _ hm =>
  ends_ok (D.state_setProperty hm ho hv) trivial

theorem keeps_properties (hs : D.scope w s) {o : ObjectId} (ho : D.stored w (.object o)) {ps : List Property}
    (hps : ∀ p ∈ ps, D.code (.expression p.value)) :
    D.Keeps w (Plan.properties s o ps) fun _ _ => True := by
  induction ps generalizing w with
  | nil => exact keeps_pure trivial
  | cons p rest ih =>
    obtain ⟨key, e⟩ := p
    refine keeps_bind (keeps_askExpression hs (hps ⟨key, e⟩ List.mem_cons_self)) fun w₁ h₁ v hv => ?_
    refine keeps_bind (keeps_resolve hv) fun w₂ h₂ u hu => ?_
    have h₁₂ := h₁.trans h₂
    refine keeps_bind (keeps_setProperty (D.stored_mono h₁₂ ho) hu) fun w₃ h₃ _ _ => ?_
    exact ih (D.scope_mono (h₁₂.trans h₃) hs) (D.stored_mono (h₁₂.trans h₃) ho)
      fun q hq => hps q (List.mem_cons_of_mem _ hq)

theorem keeps_statements (hs : D.scope w s) {body : List Statement} (hb : ∀ t ∈ body, D.code (.statement t.body)) :
    D.Keeps w (Plan.statements s body) D.flow := by
  induction body generalizing w with
  | nil => exact keeps_pure trivial
  | cons t rest ih =>
    refine keeps_bind (keeps_ask ⟨hs, hb t List.mem_cons_self⟩) fun w₁ h₁ flow hf => ?_
    cases flow with
    | completed => exact ih (D.scope_mono h₁ hs) fun u hu => hb u (List.mem_cons_of_mem _ hu)
    | returning v => exact keeps_pure hf

theorem keeps_askStatements (hs : D.scope w s) {body : List Statement} (hb : ∀ t ∈ body, D.code (.statement t.body)) :
    D.Keeps w (Plan.ask (.statements s body)) D.flow := keeps_ask ⟨hs, hb⟩

theorem stored_flowValue {flow : Flow} (h : D.flow w flow) : D.stored w flow.value := by
  cases flow with
  | completed => exact D.stored_of_isScalar trivial
  | returning v => exact h

theorem keeps_block (hs : D.scope w s) {b : Scope} (hb : D.code (.scope b)) :
    D.Keeps w (do
      let inner ← Plan.now (create (·.newScope (some s)))
      Plan.holding [.scope inner] (Plan.ask (.statements inner b.body))) D.flow := by
  have hbody : ∀ t ∈ b.body, D.code (.statement t.body) := fun t ht => D.code_child hb (List.mem_map_of_mem ht)
  exact keeps_bind (keeps_create fun m st hm => D.state_newScope hm hs) fun w₁ h₁ inner hinner =>
    keeps_holding (keeps_askStatements hinner hbody)

theorem keeps_negate {v : Value} : D.Keeps w (Plan.now (negate span v)) D.value := by
  cases v with
  | bool b => exact keeps_now_pure (D.value_of_stored (D.stored_of_isScalar trivial))
  | _ => exact keeps_fail (D.fault_of_ordinary trivial)

theorem keeps_memberName {a : Option Operand} (h : (∀ b, a = some b → ¬b.IsUse) → ∀ f, D.fault f) :
    D.Keeps w (Plan.now (memberName span a)) fun _ _ => True := by
  unfold memberName
  split
  · exact keeps_now_pure trivial
  · rename_i hne
    refine keeps_fail (h (fun b hb => ?_) _)
    cases b with
    | var v =>
      obtain ⟨name, role, place⟩ := v
      cases role
      · exact absurd hb (hne name place)
      · exact VariableRole.noConfusion
    | _ => exact id

theorem keeps_referenceTo {key : String} {named : Bool} {v : Value} (hv : D.value w v) :
    D.Keeps w (Plan.now (referenceTo span key named v)) fun w' r => D.value w' (.reference r) := by
  refine keeps_now_bind (keeps_resolve hv) fun w₁ h₁ u hu => ?_
  cases u with
  | object o => exact keeps_now_pure (D.value_reference.2 hu)
  | _ => exact keeps_fail (D.fault_of_ordinary trivial)

theorem keeps_applyBinary {op : OperatorKind} {l r : Value} :
    D.Keeps w (Plan.now (Eval.lift span (applyBinary op l r))) D.stored :=
  have hplain := plain_applyBinary op l r
  keeps_lift (hplain.1.mono fun _ h => .inl h.basic) fun _ hv => D.stored_of_isScalar (hplain.2 _ hv)

theorem keeps_stepBy {op : OperatorKind} {new : Bool} (hs : D.scope w s) {t : Target} (ht : D.target w t) :
    D.Keeps w (Plan.now (stepBy op new s span (pure t))) D.value := by
  refine keeps_now_bind (keeps_now_pure (P := fun w' u => D.scope w' s ∧ D.target w' u) ⟨hs, ht⟩)
    fun w₁ h₁ u ⟨hs₁, hu⟩ => ?_
  have hscalar {w' : W} {v : Value} (hv : v.IsScalar) : D.value w' v := D.value_of_stored (D.stored_of_isScalar hv)
  cases u with
  | property r => exact keeps_fail (D.fault_of_ordinary trivial)
  | _ =>
    show D.Keeps w₁ (Plan.now (memory >>= fun n => Eval.lift span (Target.read n s _) >>= _)) D.value
    rw [← bind_assoc (m := Eval σ)]
    refine keeps_now_bind (keeps_read hs₁ hu) fun w₂ h₂ v hv => ?_
    cases v with
    | int old =>
      have hplain (n : Int) : Plain (checked op n) := plain_checked n
      refine keeps_now_bind (keeps_lift (P := fun _ v => v.IsScalar) ((hplain _).1.mono fun _ h => .inl h.basic)
          (hplain _).2)
        fun w₃ h₃ v hv => ?_
      refine keeps_now_bind (keeps_write (D.scope_mono (h₂.trans h₃) hs₁) trivial (D.stored_of_isScalar hv))
        fun w₄ h₄ _ _ => keeps_now_pure ?_
      split
      · exact hscalar hv
      · exact hscalar trivial
    | _ => exact keeps_fail (D.fault_of_ordinary trivial)

/-! ## Tasks -/

section Tasks

variable {e : Expression}

theorem keeps_leftValue (hs : D.scope w s) (he : D.code (.expression e)) (h : e.WellShaped) {op : Operator}
    (hop : e.op = some op) (hk : op.kind.arity = .binary) : D.Keeps w (Plan.slotValue s e.span e.left) D.stored :=
  keeps_slotValue hs (fun _ hb => code_left he hb) fun hl => absurd hl (left_ne_none h hop hk)

theorem keeps_rightValue (hs : D.scope w s) (he : D.code (.expression e)) (h : e.WellShaped) {op : Operator}
    (hop : e.op = some op) (hk : op.kind.arity ≠ .either) : D.Keeps w (Plan.slotValue s e.span e.right) D.stored :=
  keeps_slotValue hs (fun _ hb => code_right he hb) fun hr => absurd hr (right_ne_none h hop hk)

theorem keeps_expression (hs : D.scope w s) (he : D.Evaluable e) : D.Keeps w (Plan.expression s e) D.value := by
  rcases he with he | ⟨name, nameSpan, opSpan, a, place, rfl, ha⟩
  · unfold Plan.expression
    split
    · rename_i fault hf
      refine keeps_fail_of_code he fun hp => ?_
      rw [Expression.checkShape_eq_none_iff.2 hp.1] at hf
      cases hf
    · rename_i hshape
      have hshape := Expression.checkShape_eq_none_iff.1 hshape
      split
      · rename_i hop
        split
        · rename_i a ha
          exact keeps_askOperand hs (code_left he ha)
        · rename_i hl
          simp [Expression.WellShaped, hop, hl] at hshape
      · rename_i kind opSpan hop
        have hoperator : e.operator? = some kind := by simp [Expression.operator?, hop]
        split
        · rename_i base hbase
          exact keeps_ask ⟨hs, he, _, hop, hbase⟩
        · rename_i hbase
          split
          · exact keeps_fail_of_code he fun hp => by simp [Node.Proper, hop] at hp
          · exact keeps_ask ⟨hs, evaluable_of_code he, hoperator⟩
          · exact keeps_ask ⟨hs, he, hoperator, rfl⟩
          · exact keeps_ask ⟨hs, he, hoperator, rfl⟩
          · exact keeps_bind (keeps_ask ⟨hs, he, hoperator⟩) fun _ _ r hr => keeps_pure hr
          · have hright := keeps_rightValue hs he hshape hop (by simp [OperatorKind.arity])
            exact keeps_bind hright fun _ _ v hv => keeps_negate
          · rename_i hret hassign hinc hdec hchild hnot
            have hk : kind.arity = .binary := by
              cases kind <;> first | rfl | exact absurd rfl ‹_›
            refine keeps_bind (keeps_leftValue hs he hshape hop hk) fun w₁ h₁ l hl => ?_
            have hright := keeps_rightValue (D.scope_mono h₁ hs) he hshape hop (by simp [hk])
            refine keeps_bind (keeps_holding hright) fun w₂ h₂ r hr => ?_
            exact keeps_applyBinary.mono fun _ _ v hv => D.value_of_stored hv
  · exact keeps_ask ⟨hs, .inr ⟨name, nameSpan, opSpan, a, place, rfl, ha⟩, rfl⟩

theorem keeps_operand (hs : D.scope w s) {a : Operand} (ha : D.code (.operand a)) :
    D.Keeps w (Plan.operand s span a) D.value := by
  unfold Plan.operand
  split
  · exact keeps_pure (D.value_of_stored (D.stored_of_isScalar (isScalar_ofLiteral _)))
  · exact keeps_fail_of_code ha fun hp => by cases hp
  · exact (keeps_lookup hs).mono fun _ _ v hv => D.value_of_stored hv
  · rename_i ps
    refine keeps_bind (keeps_create (P := fun w' o => D.stored w' (.object o)) fun m st hm => D.state_newObject hm)
      fun w₁ h₁ o ho => ?_
    have hps : ∀ p ∈ ps, D.code (.expression p.value) := fun p hp => D.code_child ha (List.mem_map_of_mem hp)
    refine keeps_bind (keeps_holding (keeps_properties (D.scope_mono h₁ hs) ho hps)) fun w₂ h₂ _ _ => ?_
    exact keeps_pure (D.value_of_stored (D.stored_mono h₂ ho))
  · rename_i block
    refine keeps_bind (keeps_ask ⟨hs, D.code_child ha (List.mem_singleton.2 rfl)⟩) fun w₁ h₁ flow hf => ?_
    cases flow with
    | completed => exact keeps_pure (D.value_of_stored (D.stored_of_isScalar trivial))
    | returning v => exact keeps_fail_of_code ha id
  · exact keeps_askExpression hs (D.code_child ha (List.mem_singleton.2 rfl))
  · rename_i parameters body
    have hbody : D.code (.scope body) := D.code_child ha (List.mem_singleton.2 rfl)
    refine keeps_bind (keeps_create (P := fun w' c => D.stored w' (.closure c)) fun m st hm =>
      D.state_newClosure hm hs hbody) fun w₁ h₁ c hc => ?_
    exact keeps_pure (D.value_of_stored hc)
  · rename_i callee args
    have hcallee : D.code (.expression callee) := D.code_child ha List.mem_cons_self
    have hargs : ∀ x ∈ args, D.code (.expression x) := fun x hx =>
      D.code_child ha (List.mem_cons_of_mem _ (List.mem_map_of_mem hx))
    refine keeps_bind (keeps_askExpression hs hcallee) fun w₁ h₁ v hv => ?_
    refine keeps_bind (keeps_resolve hv) fun w₂ h₂ f hf => ?_
    have hnone : ∀ v ∈ ([] : List Value), D.stored w₂ v := fun v hv => absurd hv List.not_mem_nil
    refine keeps_bind (keeps_holding (keeps_values (D.scope_mono (h₁.trans h₂) hs) hargs hnone)) fun w₃ h₃ vs hvs => ?_
    exact keeps_askInvoke (D.stored_mono h₃ hf) hvs

/-- What a statement is that is neither a block nor a `return`. -/
theorem evaluable_of_statement (h : D.code (.statement e))
    (hblock : ∀ b place, e ≠ ⟨some (.block b), none, none, place⟩)
    (hret : ∀ opSpan a place, e ≠ ⟨none, some ⟨.ret, opSpan⟩, some a, place⟩) : D.Evaluable e := by
  have hchild : ∀ m ∈ (Node.statement e).children, D.code m := fun m hm => D.code_child h hm
  simp only [Node.children] at hchild
  split at hchild
  · exact absurd rfl (hblock _ _)
  · exact absurd rfl (hret _ _ _)
  · exact .inr ⟨_, _, _, _, _, rfl, hchild _ (List.mem_singleton.2 rfl)⟩
  · exact .inl (hchild _ (List.mem_singleton.2 rfl))

theorem keeps_statement (hs : D.scope w s) {t : Statement} (ht : D.code (.statement t.body)) :
    D.Keeps w (Plan.statement s t) D.flow := by
  unfold Plan.statement
  split
  · rename_i opSpan a place _
    refine keeps_bind (keeps_askOperand hs (D.code_child ht (List.mem_singleton.2 rfl))) fun w₁ h₁ v hv => ?_
    exact keeps_bind (keeps_resolve hv) fun w₂ h₂ u hu => keeps_pure hu
  · exact keeps_ask ⟨hs, D.code_child ht (List.mem_singleton.2 rfl)⟩
  · rename_i e _ hret hblock
    have he : D.Evaluable e := evaluable_of_statement ht (fun b place h => hblock b place (by rw [h]))
      fun opSpan a place h => hret opSpan a place (by rw [h])
    exact keeps_bind (keeps_ask ⟨hs, he⟩) fun _ _ _ _ => keeps_pure trivial

/-- A proper assignment has a place on its left. -/
theorem exists_place (hp : (Node.expression e).Proper) {op : Operator} (hop : e.op = some op)
    (hk : op.kind.arity = .binary) (hassign : op.kind.isAssignment = true) :
    ∃ b, e.written = some b ∧ b.IsPlace := by
  obtain ⟨b, hb⟩ := Option.ne_none_iff_exists'.1 (left_ne_none hp.1 hop hk)
  have hp := hp.2
  simp only [hop] at hp
  exact ⟨b, by simp [Expression.written, hb], hp.2.1 hassign b hb⟩

/-- The value of a proper assignment keeps to a world. -/
theorem keeps_assignedValue (hs : D.scope w s) (he : D.code (.expression e)) {op : Operator} (hop : e.op = some op)
    (hk : op.kind.arity = .binary) : D.Keeps w (Plan.slotValue s e.span e.right) D.stored := by
  refine keeps_slotValue hs (fun b hb => code_right he hb) fun hr => ?_
  apply fault_of_not_proper he
  intro hp
  exact right_ne_none hp.1 hop (by simp [hk]) hr

/-- And so does its target. -/
theorem keeps_assignedTarget (hs : D.scope w s) (he : D.code (.expression e)) {op : Operator} (hop : e.op = some op)
    (hk : op.kind.arity = .binary) (hassign : op.kind.isAssignment = true) {mayDeclare : Bool} :
    D.Keeps w (Plan.target s e.span mayDeclare e.written) D.target := by
  refine keeps_target hs (fun f hf _ => code_of_writtenExpression he hf) fun hbad => ?_
  apply fault_of_not_proper he
  intro hp
  obtain ⟨b, hb, hplace⟩ := exists_place hp hop hk hassign
  exact hbad b hb hplace

/-- An assignment keeps to a world when its value and its target do. -/
theorem keeps_assignmentOf (hs : D.scope w s) (hvalue : D.Keeps w (Plan.slotValue s e.span e.right) D.stored)
    (htarget : ∀ {w'}, D.scope w' s → D.Keeps w' (Plan.target s e.span true e.written) D.target) :
    D.Keeps w (Plan.assignment s e) D.value := by
  refine keeps_bind hvalue fun w₁ h₁ v hv => ?_
  refine keeps_bind (P := fun w' _ => D.value w' v) (keeps_holding ?_) fun w₂ h₂ _ hv => keeps_pure hv
  refine keeps_bind (htarget (D.scope_mono h₁ hs)) fun w₂ h₂ t ht => ?_
  apply (keeps_write (D.scope_mono (h₁.trans h₂) hs) ht (D.stored_mono h₂ hv)).mono
  intro w₃ h₃ _ _
  exact D.value_of_stored (D.stored_mono (h₂.trans h₃) hv)

/-- The value and the target of an assignment keep to a world, be it a declaration or not. -/
theorem keeps_assigned (hs : D.scope w s) (he : D.Evaluable e) (hop : e.operator? = some .assign) :
    D.Keeps w (Plan.slotValue s e.span e.right) D.stored ∧
      ∀ {w'}, D.scope w' s → D.Keeps w' (Plan.target s e.span true e.written) D.target := by
  rcases he with he | ⟨name, nameSpan, opSpan, a, place, rfl, ha⟩
  · obtain ⟨op, hop, hk⟩ := Option.map_eq_some_iff.1 hop
    have hbinary : op.kind.arity = .binary := by rw [hk]; rfl
    have hassign : op.kind.isAssignment = true := by rw [hk]; rfl
    exact ⟨keeps_assignedValue hs he hop hbinary, fun hs' => keeps_assignedTarget hs' he hop hbinary hassign⟩
  · refine ⟨keeps_slotValue hs (fun b hb => ?_) fun hr => ?_, fun _ => keeps_pure trivial⟩
    · cases hb
      exact ha
    · cases hr

theorem keeps_assignment (hs : D.scope w s) (he : D.Evaluable e) (hop : e.operator? = some .assign) :
    D.Keeps w (Plan.assignment s e) D.value :=
  keeps_assignmentOf hs (keeps_assigned hs he hop).1 (keeps_assigned hs he hop).2

/-- So do those of a compound assignment. -/
theorem keeps_compounded (hs : D.scope w s) (he : D.code (.expression e)) {base : OperatorKind}
    (hop : ∃ op ∈ e.op, op.kind.compoundBase = some base) :
    D.Keeps w (Plan.slotValue s e.span e.right) D.stored ∧
      ∀ {w'}, D.scope w' s → D.Keeps w' (Plan.target s e.span false e.written) D.target := by
  obtain ⟨op, hop, hbase⟩ := hop
  have hbinary : op.kind.arity = .binary := by
    cases hk : op.kind <;> rw [hk] at hbase <;> first | rfl | cases hbase
  have hassign : op.kind.isAssignment = true := by
    cases hk : op.kind <;> rw [hk] at hbase <;> first | rfl | cases hbase
  exact ⟨keeps_assignedValue hs he hop hbinary, fun hs' => keeps_assignedTarget hs' he hop hbinary hassign⟩

theorem keeps_compound (hs : D.scope w s) (he : D.code (.expression e)) {base : OperatorKind}
    (hop : ∃ op ∈ e.op, op.kind.compoundBase = some base) : D.Keeps w (Plan.compound s base e) D.value := by
  obtain ⟨hvalue, htarget⟩ := keeps_compounded hs he hop
  refine keeps_bind hvalue fun w₁ h₁ v hv => keeps_holding ?_
  have hs₁ : D.scope w₁ s := D.scope_mono h₁ hs
  refine keeps_bind (htarget hs₁) fun w₂ h₂ t ht => ?_
  have hs₂ : D.scope w₂ s := D.scope_mono h₂ hs₁
  refine keeps_bind (keeps_read hs₂ ht) fun w₃ h₃ current hcurrent => ?_
  refine keeps_bind keeps_applyBinary fun w₄ h₄ u hu => ?_
  have ht₄ : D.target w₄ t := target_mono (h₃.trans h₄) ht
  refine keeps_bind (P := fun w' _ => D.stored w' u) ?_ fun w₅ h₅ _ hu => keeps_pure (D.value_of_stored hu)
  apply (keeps_write (D.scope_mono (h₃.trans h₄) hs₂) ht₄ hu).mono
  intro w₅ h₅ _ _
  exact D.stored_mono h₅ hu

/-- A step keeps to a world when its error is allowed where its operand has no place. -/
theorem keeps_step (hs : D.scope w s) (he : D.code (.expression e)) {op : OperatorKind} (hop : e.operator? = some op)
    (hbad : (∃ a, e.written = some a ∧ a.Unassignable) → D.fault ⟨.invalidAssignmentTarget, e.span⟩) :
    D.Keeps w (Plan.step s op e) D.value := by
  obtain ⟨o, ho, -⟩ := Option.map_eq_some_iff.1 hop
  have hcode (f : Expression) (hf : e.written = some (.expression f)) : D.code (.expression f) :=
    code_of_writtenExpression he hf
  refine keeps_bind (keeps_target hs (fun f hf _ => hcode f hf) fun hno => ?_) fun w₁ h₁ t ht => ?_
  · rcases D.proper_of_code he with hp | hall
    · obtain ⟨a, ha⟩ := Option.ne_none_iff_exists'.1 (written_ne_none hp.1 ho)
      cases a with
      | var v => exact fault_of_not_proper (code_of_written he ha) (hno _ ha) _
      | expression f => exact hbad ⟨_, ha, hno _ ha⟩
      | _ => exact hbad ⟨_, ha, trivial⟩
    · exact hall _
  · exact keeps_stepBy (D.scope_mono h₁ hs) ht

theorem keeps_property (hs : D.scope w s) (he : D.code (.expression e)) (hop : e.operator? = some .child) :
    D.Keeps w (do
      let key ← Plan.now (memberName e.span e.right)
      let (parent, named) ← Plan.parentValue s e.span e.left
      Plan.now (referenceTo e.span key named parent)) fun w' r => D.value w' (.reference r) := by
  obtain ⟨op, hop, hk⟩ := Option.map_eq_some_iff.1 hop
  have hbinary : op.kind.arity = .binary := by rw [hk]; rfl
  refine keeps_bind (keeps_memberName fun hno => fault_of_not_proper he fun hp => ?_) fun w₁ h₁ key _ => ?_
  · obtain ⟨b, hb⟩ := Option.ne_none_iff_exists'.1 (right_ne_none hp.1 hop (by simp [hbinary]))
    have hp := hp.2
    simp only [hop] at hp
    exact hno b hb (hp.2.2 hk b hb)
  · refine keeps_bind (keeps_parentValue (D.scope_mono h₁ hs) (fun b hb => code_left he hb) fun hl => ?_)
      fun w₂ h₂ r hr => keeps_referenceTo hr
    exact fault_of_not_proper he fun hp => left_ne_none hp.1 hop hbinary hl

end Tasks

/-! ## Calls -/

section Calls

variable {host : GameScript.Host σ} {limit : Nat} {args : List Value}

theorem keeps_askEnter {c : ClosureId} (hc : D.stored w (.closure c)) (hargs : ∀ v ∈ args, D.stored w v) :
    D.Keeps w (Plan.ask (.enter c args span)) D.stored := keeps_ask ⟨hc, hargs⟩

/-- What a function of the host asks for keeps to the world in which it does, when the errors with which it may finish
are allowed. -/
theorem meets_hostStep (hspan : ∀ e, D.error e → D.fault ⟨e, span⟩) (step : HostStep σ) :
    ∀ w m, D.Step step w → (Plan.hostStep span step m).Meets D.contract (D.Ends w D.value) := by
  induction step with
  | finish result mem st =>
    rintro w m ⟨w', hle, hm, hr⟩
    refine meets_bind ?_
    show (Plan.now (Eval.lift span result) (_ : Machine σ)).Meets D.contract (D.Ends w D.value)
    have hm' : D.state w' { mem with held := m.memory.held } st := D.state_held hm
    cases result with
    | ok v => exact (ends_ok (m := ⟨_, _, _⟩) hm' hr).mono hle
    | error e => exact (ends_error (m := ⟨_, _, _⟩) hm' (hspan e hr)).mono hle
  | enter c args kept mem st resume ih =>
    rintro w m ⟨w', hle, hm, hc, hargs, hresume⟩
    refine meets_bind ?_
    have hm' : D.state w' { mem with held := m.memory.held } st := D.state_held hm
    have henter : D.Keeps w' (Plan.ask (.enter c args {})) D.stored := keeps_askEnter hc hargs
    apply meets_bind
    apply (keeps_attempt (keeps_holding henter) ⟨_, m.depth, st⟩ hm').mono
    rintro r m₁ ⟨w₁, h₁, hm₁, hr⟩
    cases r with
    | error f => exact ⟨w₁, hle.trans h₁, hm₁, hr⟩
    | ok answer =>
      refine meets_bind ((ih _ _ _ w₁ m₁ (hresume _ _ _ w₁ h₁ (D.state_held hm₁) ?_)).mono fun _ _ hend =>
        hend.mono (hle.trans h₁))
      cases answer with
      | ok v => exact hr
      | error f => exact D.error_of_fault hr

theorem keeps_invoke (hhost : D.Host host) {f : Value} (hf : D.stored w f) (hargs : ∀ v ∈ args, D.stored w v)
    (hspan : ∀ n, f = .native n → ∀ e, D.error e → D.fault ⟨e, span⟩) :
    D.Keeps w ((Task.invoke f args span).plan host limit) fun w' v => D.Fits w' (.invoke f args span) v := by
  cases f with
  | closure c => exact keeps_holding (keeps_askEnter hf hargs)
  | native n =>
    intro m hm
    exact meets_hostStep (hspan n rfl) _ w m (hhost n span args w _ _ (D.state_held hm) hargs)
  | _ => exact keeps_fail (D.fault_of_ordinary trivial)

theorem keeps_enter {c : ClosureId} (hc : D.stored w (.closure c)) (hargs : ∀ v ∈ args, D.stored w v) :
    D.Keeps w (Plan.enter limit c args span) D.stored := by
  intro m hm
  refine meets_bind ?_
  show ((if limit ≤ m.depth then _ else _ : Plan σ Value) m).Meets D.contract (D.Ends w D.stored)
  split
  · exact ends_error hm (D.fault_of_ordinary trivial)
  · refine meets_bind ?_
    cases hx : m.memory.newFunctionScope (m.memory.closure c).scope (m.memory.closure c).parameters args with
    | error e =>
      have hfault : D.fault ⟨e, span⟩ := D.fault_of_ordinary (refuses_newFunctionScope _ _ _ _ e hx).ordinary
      exact ends_error (P := D.stored) hm hfault
    | ok r =>
      obtain ⟨w₁, h₁, hm₁, hs⟩ := state_newFunctionScope hm (D.scope_closure hm hc) hargs hx
      have hbody : ∀ t ∈ (m.memory.closure c).body.body, D.code (.statement t.body) := fun t ht =>
        D.code_child (D.code_closure hm hc) (List.mem_map_of_mem ht)
      refine meets_bind ?_
      have hrun : D.Keeps w₁ (do
          let flow ← Plan.deeper (Plan.holding [.scope r.1] (Plan.ask (.statements r.1 (m.memory.closure c).body.body)))
          return flow.value) D.stored :=
        keeps_bind (keeps_deeper (keeps_holding (keeps_askStatements hs hbody))) fun _ _ flow hf =>
          keeps_pure (stored_flowValue hf)
      exact (hrun ⟨r.2, m.depth, m.state⟩ hm₁).mono fun _ _ hend => hend.mono h₁

end Calls

/-! ## Runs -/

section Runs

variable {host : GameScript.Host σ} {limit : Nat} {R : Activation σ → Prop}

/-- The contract of a discipline is kept, when two errors are allowed where they are raised. -/
theorem kept (hhost : D.Host host)
    (hstep : ∀ s op e m, R ⟨_, .step s op e, m⟩ → e.operator? = some op ∧ op.arity = .either →
      (∃ a, e.written = some a ∧ a.Unassignable) → D.fault ⟨.invalidAssignmentTarget, e.span⟩)
    (hnative : ∀ n args span m, R ⟨_, .invoke (.native n) args span, m⟩ → ∀ e, D.error e → D.fault ⟨e, span⟩) :
    D.contract.Kept host limit R := by
  intro k task m hR ⟨w₀, hm₀, h₀⟩
  suffices hall : ∀ w, D.state w m.memory m.state ∧ D.Allows w task →
      (task.plan host limit m).Meets D.contract (D.Ends w (D.Fits · task)) from
    (Course.Meets.forall ⟨w₀, hm₀, h₀⟩ hall).mono fun r m' hr w hm h => hr w ⟨hm, h⟩
  rintro w ⟨hm, h⟩
  cases task with
  | statements s body => exact keeps_statements h.1 h.2 m hm
  | statement s t => exact keeps_statement h.1 h.2 m hm
  | block s b => exact keeps_block h.1 h.2 m hm
  | expression s e => exact keeps_expression h.1 h.2 m hm
  | operand s span a => exact keeps_operand h.1 h.2 m hm
  | property s e => exact keeps_property h.1 h.2.1 h.2.2 m hm
  | assignment s e => exact keeps_assignment h.1 h.2.1 h.2.2 m hm
  | compound s base e => exact keeps_compound h.1 h.2.1 h.2.2 m hm
  | step s op e => exact keeps_step h.1 h.2.1 h.2.2.1 (hstep s op e m hR h.2.2) m hm
  | invoke f args span => exact keeps_invoke hhost h.1 h.2 (fun n hn => hnative n args span m (hn ▸ hR)) m hm
  | enter c args span => exact keeps_enter h.1 h.2 m hm

theorem keeps_program {p : Program} (hs : D.scope w s) (hp : D.code (.scope p.body)) :
    D.Keeps w (p.plan s) D.stored :=
  keeps_bind (keeps_holding (keeps_askStatements hs fun _ ht => D.code_child hp (List.mem_map_of_mem ht)))
    fun _ _ _ hf => keeps_pure (stored_flowValue hf)

theorem keeps_callPlan {callee : Value} {args : List Value} (hf : D.value w callee)
    (hargs : ∀ v ∈ args, D.stored w v) :
    D.Keeps w (callPlan callee args) D.value :=
  keeps_bind (keeps_holding (keeps_resolve hf)) fun _ h₁ _ hf =>
    keeps_askInvoke hf fun v hv => D.stored_mono h₁ (hargs v hv)

/-- What a host gets that calls a function of a script. -/
theorem meets_callPlan {callee : Value} {args : List Value} {m : Machine σ} {c : ClosureId}
    (hm : D.state w m.memory m.state) (hf : D.value w callee) (hargs : ∀ v ∈ args, D.stored w v)
    (hc : (m.memory.holding (Value.cells args)).resolve callee = .ok (.closure c)) :
    (callPlan callee args m).Meets D.contract (D.Ends w D.stored) := by
  have hm' : D.state w (m.memory.holding (Value.cells args)) m.state := D.state_held hm
  have hstored : D.stored w (.closure c) := stored_of_resolve hm' hf hc
  have hresolve : (resolve {} callee : Eval σ Value) { m with memory := m.memory.holding (Value.cells args) } =
      (.ok (.closure c), { m with memory := m.memory.holding (Value.cells args) }) := by
    show Eval.lift {} ((m.memory.holding (Value.cells args)).resolve callee) _ = _
    rw [hc]
    rfl
  refine meets_bind (meets_holding ?_)
  rw [Plan.now, hresolve]
  have hinvoke : D.Keeps w (Plan.ask (.invoke (.closure c) args {})) D.stored := keeps_ask ⟨hstored, hargs⟩
  exact hinvoke ⟨_, m.depth, m.state⟩ (D.state_held hm')

end Runs

end Discipline

end GameScript
