import GameScript.Proofs.Run.RenamedCourses

/-!
# What the functions do with renamed trees

A function of the evaluator does for a tree what it does, at the renamed machine, for the renamed tree
(`renames_expression`, `renames_operand`, `renames_statement` and their sisters). The parts of a tree that is the same
with other names are the same too. A block gets a scope of its own, where renamed scripts run if they run around it
(`renames_block`), and a function becomes a closure with other names.
-/

namespace GameScript

open Eval Plan

variable {σ : Type}

section Functions

variable {ρ : Renaming} {w : Set ScopeId} {s : ScopeId} {span : Span}

theorem Operand.isName_rename {f : String → String} (a : Operand) : (a.rename f).isName = a.isName := by
  cases a <;> rfl

/-! ## Slots and lists -/

theorem renames_askOperand {a : Operand} (h : s ∈ w ∨ Operand.renameSlot ρ.name (some a) = some a) :
    (ask (.operand s span a) : Plan σ Value).Renames ρ Same w (ask (.operand s span (a.rename ρ.name))) :=
  renames_ask (k := .value) (.operand (h.imp_right Option.some.inj))

theorem renames_slotValue {a : Option Operand} (h : s ∈ w ∨ Operand.renameSlot ρ.name a = a) :
    (slotValue s span a : Plan σ Value).Renames ρ Same w (slotValue s span (Operand.renameSlot ρ.name a)) := by
  cases a with
  | none => exact (renames_fail _).now
  | some a =>
    refine (renames_askOperand h).bind_same fun w₁ v _ => ?_
    exact (renames_resolve v).now

theorem renames_parentValue {a : Option Operand} (h : s ∈ w ∨ Operand.renameSlot ρ.name a = a) :
    (parentValue s span a : Plan σ (Value × Bool)).Renames ρ Same w
      (parentValue s span (Operand.renameSlot ρ.name a)) := by
  cases a with
  | none => exact (renames_fail _).now
  | some a =>
    refine (renames_askOperand h).bind_same fun w₁ v _ => ?_
    rw [a.isName_rename]
    exact Plan.renames_pure fun _ _ => rfl

/-- The target is the renamed one. Outside the scopes where renamed scripts run, it is the same. -/
theorem renames_target (mayDeclare : Bool) {a : Option Operand} (h : s ∈ w ∨ Operand.renameSlot ρ.name a = a) :
    (target s span mayDeclare a : Plan σ Target).Renames ρ
      (fun w' t t' => t' = t.rename ρ.name ∧ (s ∈ w' ∨ t.rename ρ.name = t)) w
      (target s span mayDeclare (Operand.renameSlot ρ.name a)) := by
  match a, h with
  | some (.var ⟨name, .use, place⟩), h =>
    refine Plan.renames_pure fun w₁ hle => ⟨rfl, h.imp (hle ·) fun h => ?_⟩
    exact congrArg Target.existing (congrArg Variable.name (Operand.var.inj (Option.some.inj h)))
  | some (.var ⟨name, .declare, place⟩), h =>
    cases mayDeclare with
    | true =>
      refine Plan.renames_pure fun w₁ hle => ⟨rfl, h.imp (hle ·) fun h => ?_⟩
      exact congrArg Target.declare (congrArg Variable.name (Operand.var.inj (Option.some.inj h)))
    | false => exact (renames_fail _).now
  | some (.expression e), h =>
    show Plan.Renames ρ _ w (if e.operator? = some .child then _ else _ : Plan σ Target)
      (if (e.rename ρ.name).operator? = some .child then _ else _)
    rw [e.operator?_rename]
    split
    · rename_i hop
      have he := h.imp_right fun h => Operand.expression.inj (Option.some.inj h)
      refine (renames_ask (k := .reference) (.property he hop)).bind_same fun w₁ r _ => ?_
      exact Plan.renames_pure fun _ _ => ⟨rfl, .inr rfl⟩
    · exact (renames_fail _).now
  | none, _ | some (.value _), _ | some (.object _), _ | some (.block _), _ | some (.function _ _), _
  | some (.call _ _), _ => exact (renames_fail _).now

theorem renames_values (before : List Value) {es : List Expression}
    (h : s ∈ w ∨ Expression.renameAll ρ.name es = es) :
    (values s before es : Plan σ (List Value)).Renames ρ Same w
      (values s before (Expression.renameAll ρ.name es)) := by
  induction es generalizing before w with
  | nil => exact Plan.renames_pure fun _ _ => rfl
  | cons e rest ih =>
    have hfirst := h.imp_right fun h => (List.cons.inj h).1
    have hrest := h.imp_right fun h => (List.cons.inj h).2
    refine (renames_ask (k := .value) (.expression hfirst)).bind_same fun w₁ v hle₁ => ?_
    rw [e.span_rename]
    refine (renames_resolve v).now.bind_same fun w₂ v hle₂ => ?_
    exact (ih _ (hrest.imp_left fun hs => hle₂ (hle₁ hs))).holding _

theorem renames_properties (o : ObjectId) {ps : List Property} (h : s ∈ w ∨ Property.renameAll ρ.name ps = ps) :
    (properties s o ps : Plan σ Unit).Renames ρ Same w (properties s o (Property.renameAll ρ.name ps)) := by
  induction ps generalizing w with
  | nil => exact Plan.renames_pure fun _ _ => rfl
  | cons p rest ih =>
    obtain ⟨key, e⟩ := p
    have hfirst := h.imp_right fun h => (Property.mk.inj (List.cons.inj h).1).2
    have hrest := h.imp_right fun h => (List.cons.inj h).2
    refine (renames_ask (k := .value) (.expression hfirst)).bind_same fun w₁ v hle₁ => ?_
    rw [e.span_rename]
    refine (renames_resolve v).now.bind_same fun w₂ v hle₂ => ?_
    have hset : (do setMemory ((← memory).setProperty o key v) : Eval σ Unit).Renames ρ Same w₂
        (do setMemory ((← memory).setProperty o key v)) := fun w₃ m _ hsuits =>
      ⟨w₃, subset_rfl, hsuits.setProperty o key, rfl, .ok rfl⟩
    exact hset.now.bind_same fun w₃ _ hle₃ => ih (hrest.imp_left fun hs => hle₃ (hle₂ (hle₁ hs)))

theorem renames_statements {body : List Statement} (h : s ∈ w ∨ Statement.renameAll ρ.name body = body) :
    (Plan.statements s body : Plan σ Flow).Renames ρ Same w
      (Plan.statements s (Statement.renameAll ρ.name body)) := by
  induction body generalizing w with
  | nil => exact Plan.renames_pure fun _ _ => rfl
  | cons x rest ih =>
    obtain ⟨e, place⟩ := x
    have hfirst := h.imp_right fun h => (Statement.mk.inj (List.cons.inj h).1).1
    have hrest := h.imp_right fun h => (List.cons.inj h).2
    refine (renames_ask (k := .flow) (.statement hfirst)).bind_same fun w₁ flow hle => ?_
    cases flow with
    | completed => exact ih (hrest.imp_left (hle ·))
    | returning v => exact Plan.renames_pure fun _ _ => rfl

/-! ## Blocks, expressions and statements -/

theorem renames_block {b : Scope} (h : s ∈ w ∨ b.rename ρ.name = b) : (do
    let inner ← now (create (·.newScope (some s)))
    Plan.holding [.scope inner] (ask (.statements inner b.body)) : Plan σ Flow).Renames ρ Same w (do
    let inner ← now (create (·.newScope (some s)))
    Plan.holding [.scope inner] (ask (.statements inner (b.rename ρ.name).body))) := by
  have hnew : (create (·.newScope (some s)) : Eval σ ScopeId).Renames ρ
      (fun w' t t' => t' = t ∧ (s ∈ w → t ∈ w')) w (create (·.newScope (some s))) := by
    refine renames_create fun w₁ m hle hsuits => ⟨Memory.newScope_rename _, ?_⟩
    obtain ⟨w₂, hle₂, hsuits₂, hin⟩ := hsuits.newScope s
    exact ⟨w₂, hle₂, hsuits₂, rfl, fun hs => hin (hle hs)⟩
  refine hnew.now.bind fun w₁ t t' _ ht => ?_
  obtain ⟨rfl, hin⟩ := ht
  rw [b.body_rename]
  refine (renames_ask (k := .flow) (.statements (h.imp hin fun h => ?_))).holding _
  rw [← b.body_rename, h]

theorem renames_expression {e : Expression} (h : s ∈ w ∨ e.rename ρ.name = e) :
    (Plan.expression s e : Plan σ Value).Renames ρ Same w (Plan.expression s (e.rename ρ.name)) := by
  unfold Plan.expression
  rw [e.checkShape_rename, e.span_rename, e.op_rename, e.left_rename]
  cases e.checkShape with
  | some fault => exact (renames_fail _).now
  | none =>
    have hleft := h.imp_right Expression.left_of_rename_eq
    rcases hop : e.op with _ | ⟨kind, place⟩
    · cases hslot : e.left with
      | none => exact (renames_fail _).now
      | some a =>
        rw [hslot] at hleft
        exact renames_askOperand hleft
    · have hkind : e.operator? = some kind := congrArg (Option.map Operator.kind) hop
      have hright (hk : kind ≠ .child) : s ∈ w ∨ Operand.renameSlot ρ.name e.right = e.right :=
        h.imp_right (Expression.right_of_rename_eq (hkind ▸ fun hk' => hk (Option.some.inj hk')))
      have hne (hk : kind ≠ .child) : e.operator? ≠ some .child := fun hk' => hk (Option.some.inj (hkind ▸ hk'))
      dsimp only
      split
      · rename_i base hbase
        exact renames_ask (k := .value) (.compound base h (hne (by rintro rfl; cases hbase)))
      · cases kind with
        | ret => exact (renames_fail _).now
        | assign => exact renames_ask (k := .value) (.assignment h (hne nofun))
        | inc => exact renames_ask (k := .value) (.step .inc h (hne nofun))
        | dec => exact renames_ask (k := .value) (.step .dec h (hne nofun))
        | child =>
          refine (renames_ask (k := .reference) (.property h hkind)).bind_same fun w₁ r _ => ?_
          exact Plan.renames_pure fun _ _ => rfl
        | not =>
          rw [Expression.right_rename_of_ne (hne nofun)]
          refine (renames_slotValue (hright nofun)).bind_same fun w₁ v _ => ?_
          exact (renames_negate v).now
        | _ =>
          rw [Expression.right_rename_of_ne (hne nofun)]
          refine (renames_slotValue hleft).bind_same fun w₁ a hle => ?_
          refine ((renames_slotValue ((hright nofun).imp_left (hle ·))).holding _).bind_same fun w₂ b _ => ?_
          exact (renames_applyBinary _ a b).now

theorem renames_operand {a : Operand} (h : s ∈ w ∨ a.rename ρ.name = a) :
    (Plan.operand s span a : Plan σ Value).Renames ρ Same w (Plan.operand s span (a.rename ρ.name)) := by
  match a, h with
  | .value literal, _ => exact Plan.renames_pure fun _ _ => rfl
  | .var ⟨name, .declare, place⟩, _ => exact (renames_fail _).now
  | .var ⟨name, .use, place⟩, h =>
    have hname := h.imp_right fun h => congrArg Variable.name (Operand.var.inj h)
    exact (renames_look fun w₁ m hle hsuits => Memory.lookup_rename fun t ht =>
      hname.imp_left fun hs => hsuits.changes_of_mem_chain (hle hs) t ht).now
  | .object ps, h =>
    have hnew : (create (·.newObject []) : Eval σ ObjectId).Renames ρ Same w (create (·.newObject [])) :=
      renames_create fun w₁ m _ hsuits => ⟨Memory.newObject_rename _, w₁, subset_rfl, hsuits.newObject [], rfl⟩
    refine hnew.now.bind_same fun w₁ o hle => ?_
    have hps := h.imp (hle ·) Operand.object.inj
    exact ((renames_properties o hps).holding _).bind_same fun _ _ _ => Plan.renames_pure fun _ _ => rfl
  | .block ⟨body, place⟩, h =>
    refine (renames_ask (k := .flow) (.block (h.imp_right Operand.block.inj))).bind_same fun w₁ flow _ => ?_
    cases flow with
    | completed => exact Plan.renames_pure fun _ _ => rfl
    | returning v => exact (renames_fail _).now
  | .expression e, h => exact renames_ask (k := .value) (.expression (h.imp_right Operand.expression.inj))
  | .function parameters body, h =>
    have hnew : (create (·.newClosure ⟨parameters, body, s⟩) : Eval σ ClosureId).Renames ρ Same w
        (create (·.newClosure ⟨parameters.map ρ.name, body.rename ρ.name, s⟩)) := by
      refine renames_create fun w₁ m hle hsuits =>
        ⟨Memory.newClosure_rename ⟨parameters, body, s⟩, w₁, subset_rfl, ?_, rfl⟩
      refine hsuits.newClosure (h.imp (hle ·) fun h => ?_)
      obtain ⟨hparameters, hbody⟩ := Operand.function.inj h
      show (⟨parameters.map ρ.name, body.rename ρ.name, s⟩ : Closure) = ⟨parameters, body, s⟩
      rw [hparameters, hbody]
    refine hnew.now.bind_same fun w₁ c _ => ?_
    exact Plan.renames_pure fun _ _ => rfl
  | .call callee args, h =>
    have hcallee := h.imp_right fun h => (Operand.call.inj h).1
    have hargs := h.imp_right fun h => (Operand.call.inj h).2
    refine (renames_ask (k := .value) (.expression hcallee)).bind_same fun w₁ v hle₁ => ?_
    rw [callee.span_rename]
    refine (renames_resolve v).now.bind_same fun w₂ v hle₂ => ?_
    refine ((renames_values [] (hargs.imp_left fun hs => hle₂ (hle₁ hs))).holding _).bind_same fun w₃ vs _ => ?_
    exact renames_ask (k := .value) (.invoke v vs span)

theorem renames_statement {e : Expression} {place : Span} (h : s ∈ w ∨ e.rename ρ.name = e) :
    (Plan.statement s ⟨e, place⟩ : Plan σ Flow).Renames ρ Same w (Plan.statement s ⟨e.rename ρ.name, place⟩) := by
  have hother : (do
      let _ ← ask (.expression s e)
      return .completed : Plan σ Flow).Renames ρ Same w (do
      let _ ← ask (.expression s (e.rename ρ.name))
      return .completed) :=
    (renames_ask (k := .value) (.expression h)).bind_same fun _ _ _ => Plan.renames_pure fun _ _ => rfl
  obtain ⟨left, op, right, exprSpan⟩ := e
  have hleft := h.imp_right Expression.left_of_rename_eq
  rcases op with _ | ⟨kind, opSpan⟩
  · rcases left with _ | a
    · exact hother
    · cases a with
      | block b =>
        cases right with
        | none =>
          have hblock := hleft.imp_right fun h => Operand.block.inj (Option.some.inj h)
          exact renames_ask (k := .flow) (.block hblock)
        | some _ => exact hother
      | _ => exact hother
  · by_cases hret : kind = .ret
    · subst hret
      rcases left with _ | a
      · cases right with
        | none => exact hother
        | some value =>
          refine (renames_askOperand (h.imp_right (Expression.right_of_rename_eq (by rintro ⟨⟩)))).bind_same
            fun w₁ v _ => ?_
          refine (renames_resolve v).now.bind_same fun w₂ v _ => ?_
          exact Plan.renames_pure fun _ _ => rfl
      · cases a <;> exact hother
    · rcases left with _ | a
      · cases kind <;> first | exact absurd rfl hret | exact hother
      · cases a <;> exact hother

/-! ## Assignments, steps and accesses -/

theorem Expression.written_rename {f : String → String} {e : Expression} (hop : e.operator? ≠ some .child) :
    (e.rename f).written = Operand.renameSlot f e.written := by
  unfold Expression.written
  rw [e.left_rename, right_rename_of_ne hop, isSome_renameSlot]
  split <;> rfl

theorem renames_written {e : Expression} (mayDeclare : Bool) (hop : e.operator? ≠ some .child)
    (h : s ∈ w ∨ e.rename ρ.name = e) :
    (target s span mayDeclare e.written : Plan σ Target).Renames ρ
      (fun w' t t' => t' = t.rename ρ.name ∧ (s ∈ w' ∨ t.rename ρ.name = t)) w
      (target s span mayDeclare (e.rename ρ.name).written) := by
  rw [Expression.written_rename hop]
  refine renames_target mayDeclare (h.imp_right fun h => ?_)
  rw [← Expression.written_rename hop, h]

theorem renames_assignment {e : Expression} (hop : e.operator? ≠ some .child) (h : s ∈ w ∨ e.rename ρ.name = e) :
    (Plan.assignment s e : Plan σ Value).Renames ρ Same w (Plan.assignment s (e.rename ρ.name)) := by
  unfold Plan.assignment
  rw [e.span_rename, Expression.right_rename_of_ne hop]
  refine (renames_slotValue (h.imp_right (Expression.right_of_rename_eq hop))).bind_same fun w₁ v hle => ?_
  refine (Plan.Renames.holding (Q := Same) ?_ _).bind_same fun _ _ _ => Plan.renames_pure fun _ _ => rfl
  refine (renames_written true hop (h.imp_left (hle ·))).bind fun w₂ t t' _ ht => ?_
  obtain ⟨rfl, ht⟩ := ht
  exact (renames_write ht v).now

theorem renames_compound (base : OperatorKind) {e : Expression} (hop : e.operator? ≠ some .child)
    (h : s ∈ w ∨ e.rename ρ.name = e) :
    (Plan.compound s base e : Plan σ Value).Renames ρ Same w (Plan.compound s base (e.rename ρ.name)) := by
  unfold Plan.compound
  rw [e.span_rename, Expression.right_rename_of_ne hop]
  refine (renames_slotValue (h.imp_right (Expression.right_of_rename_eq hop))).bind_same fun w₁ v hle => ?_
  refine Plan.Renames.holding ?_ _
  refine (renames_written false hop (h.imp_left (hle ·))).bind fun w₂ t t' _ ht => ?_
  obtain ⟨rfl, ht⟩ := ht
  refine (renames_read ht).now.bind_same fun w₃ current hle₃ => ?_
  refine (renames_applyBinary base current v).now.bind_same fun w₄ updated hle₄ => ?_
  exact (renames_write (ht.imp_left fun hs => hle₄ (hle₃ hs)) updated).now.bind_same fun _ _ _ =>
    Plan.renames_pure fun _ _ => rfl

theorem renames_step (op : OperatorKind) {e : Expression} (hop : e.operator? ≠ some .child)
    (h : s ∈ w ∨ e.rename ρ.name = e) :
    (Plan.step s op e : Plan σ Value).Renames ρ Same w (Plan.step s op (e.rename ρ.name)) := by
  unfold Plan.step
  have hleft : (e.rename ρ.name).left.isNone = e.left.isNone := by
    rw [e.left_rename, ← Option.not_isSome, isSome_renameSlot, Option.not_isSome]
  rw [e.span_rename, hleft]
  refine (renames_written false hop h).bind fun w₁ t t' _ ht => ?_
  obtain ⟨rfl, ht⟩ := ht
  exact (renames_stepBy op _ ht).now

theorem renames_property {e : Expression} (hop : e.operator? = some .child) (h : s ∈ w ∨ e.rename ρ.name = e) : (do
    let key ← now (memberName e.span e.right)
    let (parent, named) ← parentValue s e.span e.left
    now (referenceTo e.span key named parent) : Plan σ Reference).Renames ρ Same w (do
    let key ← now (memberName (e.rename ρ.name).span (e.rename ρ.name).right)
    let (parent, named) ← parentValue s (e.rename ρ.name).span (e.rename ρ.name).left
    now (referenceTo (e.rename ρ.name).span key named parent)) := by
  rw [e.span_rename, e.left_rename, Expression.right_rename_of_child hop]
  refine (renames_memberName e.right).now.bind_same fun w₁ key hle => ?_
  refine (renames_parentValue (h.imp (hle ·) Expression.left_of_rename_eq)).bind_same fun w₂ p _ => ?_
  exact (renames_referenceTo key p.2 p.1).now

end Functions

end GameScript
