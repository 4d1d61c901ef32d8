import GameScript.Proofs.Run.Course

/-!
# Every evaluation ends

A call of a closure raises the counter of the machine, and nothing lowers it before the call is over; every other task
asks for tasks on smaller pieces of the program. So a task can only ask for tasks below it finitely deep
(`wellFounded_activates`), and every course ends, with the result and the machine that evaluation computes
(`finishes_execute`, `finishes_callValue`).

Both are proved at once. `Realizes` says of a plan at a depth that all tasks which it asks for are accessible and that
it ends as a computation does, at the depth where it started; the plan of each function realizes the function when calls
of closures do (`realizes_expression` and its sisters), and calls of closures do by induction on the levels that are
left (`realizes_enter`).
-/

namespace GameScript

open Eval

/-! ## What keeps the depth -/

section Depth

variable {σ α β : Type}

/-- A computation that ends at the depth where it started. -/
def Eval.KeepsDepth (act : Eval σ α) : Prop := ∀ m, (act m).2.depth = m.depth

theorem keepsDepth_pure (a : α) : (pure a : Eval σ α).KeepsDepth := fun _ => rfl

theorem keepsDepth_fail (span : Span) (e : RuntimeError) : (fail span e : Eval σ α).KeepsDepth := fun _ => rfl

theorem keepsDepth_lift (span : Span) (x : Except RuntimeError α) : (Eval.lift span x : Eval σ α).KeepsDepth := by
  cases x with
  | ok a => exact keepsDepth_pure a
  | error e => exact keepsDepth_fail span e

theorem keepsDepth_get : (get : Eval σ (Machine σ)).KeepsDepth := fun _ => rfl

theorem keepsDepth_memory : (memory : Eval σ Memory).KeepsDepth := fun _ => rfl

theorem keepsDepth_setMemory (n : Memory) : (setMemory n : Eval σ Unit).KeepsDepth := fun _ => rfl

theorem keepsDepth_adopt (n : Memory) (state : σ) : (adopt n state : Eval σ Unit).KeepsDepth := fun _ => rfl

theorem keepsDepth_create (make : Memory → α × Memory) : (create make : Eval σ α).KeepsDepth := fun _ => rfl

theorem Eval.KeepsDepth.bind {act : Eval σ α} {f : α → Eval σ β} (h : act.KeepsDepth) (hf : ∀ a, (f a).KeepsDepth) :
    (act >>= f).KeepsDepth := by
  intro m
  rw [Eval.bind_apply]
  have hm := h m
  rcases hact : act m with ⟨e | a, m'⟩ <;> rw [hact] at hm
  · exact hm
  · exact (hf a m').trans hm

theorem keepsDepth_resolve (span : Span) (v : Value) : (resolve span v : Eval σ Value).KeepsDepth :=
  keepsDepth_memory.bind fun _ => keepsDepth_lift _ _

theorem keepsDepth_updateMemory (span : Span) (change : Memory → Except RuntimeError Memory) :
    (updateMemory span change : Eval σ Unit).KeepsDepth :=
  keepsDepth_memory.bind fun _ => (keepsDepth_lift _ _).bind fun _ => keepsDepth_setMemory _

theorem keepsDepth_negate (span : Span) (v : Value) : (negate span v : Eval σ Value).KeepsDepth := by
  cases v <;> first | exact keepsDepth_pure _ | exact keepsDepth_fail _ _

theorem keepsDepth_memberName (span : Span) (a : Option Operand) : (memberName span a : Eval σ String).KeepsDepth := by
  unfold memberName
  split
  · exact keepsDepth_pure _
  · exact keepsDepth_fail _ _

theorem keepsDepth_referenceTo (span : Span) (key : String) (named : Bool) (parent : Value) :
    (referenceTo span key named parent : Eval σ Reference).KeepsDepth := by
  refine (keepsDepth_resolve span parent).bind fun v => ?_
  cases v <;> first | exact keepsDepth_pure _ | exact keepsDepth_fail _ _

theorem keepsDepth_stepBy (op : OperatorKind) (new : Bool) (scope : ScopeId) (span : Span) (t : Target) :
    (stepBy op new scope span (pure t) : Eval σ Value).KeepsDepth := by
  refine (keepsDepth_pure t).bind fun t => ?_
  cases t with
  | property r => exact keepsDepth_fail _ _
  | _ =>
    refine keepsDepth_memory.bind fun n => (keepsDepth_lift _ _).bind fun v => ?_
    cases v <;> first
      | exact keepsDepth_fail _ _
      | exact (keepsDepth_lift _ _).bind fun _ => (keepsDepth_updateMemory _ _).bind fun _ => keepsDepth_pure _

end Depth

/-! ## Settled courses -/

section Settles

variable {σ α β : Type} (host : Host σ) (limit : Nat)

/-- A course ends so, and no task that it asks for can ask for others without end. -/
inductive Settles : {α : Type} → Course σ α → Except RuntimeFault α → Machine σ → Prop
  | ended {α : Type} (result : Except RuntimeFault α) (m : Machine σ) : Settles (.ended result m) result m
  | asks {α : Type} {k : Kind} {task : Task k} {m m' m'' : Machine σ}
      {resume : Except RuntimeFault k.Answer → Machine σ → Course σ α} {answer : Except RuntimeFault k.Answer}
      {result : Except RuntimeFault α}
      (hacc : Acc (fun x y => Activation.Activates host limit y x) ⟨k, task, m⟩)
      (hdone : Finishes host limit (task.plan host limit m) answer m')
      (hrest : Settles (resume answer m') result m'') : Settles (.asks task m resume) result m''

variable {host limit} {c : Course σ α} {r : Except RuntimeFault α} {r' : Except RuntimeFault β} {m m' : Machine σ}

theorem Settles.finishes (h : Settles host limit c r m) : Finishes host limit c r m := by
  induction h with
  | ended => exact .ended _ _
  | asks _ hdone _ ih => exact .asks hdone ih

theorem Settles.acc_of_asks (h : Settles host limit c r m) {x : Activation σ} (hx : Asks host limit c x) :
    Acc (fun x y => Activation.Activates host limit y x) x := by
  induction h with
  | ended => cases hx
  | asks hacc hdone _ ih =>
    cases hx with
    | first => exact hacc
    | later hdone' hrest =>
      obtain ⟨rfl, rfl⟩ := hdone.unique hdone'
      exact ih hrest

theorem Settles.andThen {next : Except RuntimeFault α → Machine σ → Course σ β} (h : Settles host limit c r m)
    (hnext : Settles host limit (next r m) r' m') : Settles host limit (c.andThen next) r' m' := by
  induction h with
  | ended => exact hnext
  | asks hacc hdone _ ih => exact .asks hacc hdone (ih hnext)

end Settles

/-! ## Realized computations -/

section Realizes

variable {σ α β : Type} {host : Host σ} {limit d : Nat}

/-- From every machine of a depth, a plan settles as a computation ends, at the same depth. -/
def Realizes (host : Host σ) (limit d : Nat) (act : Plan σ α) (ev : Eval σ α) : Prop :=
  ∀ m, m.depth = d → Settles host limit (act m) (ev m).1 (ev m).2 ∧ (ev m).2.depth = d

theorem realizes_now {ev : Eval σ α} (h : ev.KeepsDepth) : Realizes host limit d (Plan.now ev) ev :=
  fun m hm => ⟨.ended _ _, (h m).trans hm⟩

theorem realizes_pure (a : α) : Realizes host limit d (pure a) (pure a) := fun _ hm => ⟨.ended _ _, hm⟩

theorem realizes_fail (span : Span) (e : RuntimeError) :
    Realizes host limit d (Plan.now (fail span e) : Plan σ α) (fail span e) := realizes_now (keepsDepth_fail span e)

theorem Realizes.bind {act : Plan σ α} {ev : Eval σ α} {f : α → Plan σ β} {g : α → Eval σ β}
    (h : Realizes host limit d act ev) (hf : ∀ a, Realizes host limit d (f a) (g a)) :
    Realizes host limit d (act >>= f) (ev >>= g) := by
  intro m hm
  obtain ⟨hs, hd⟩ := h m hm
  rw [Eval.bind_apply]
  rcases hev : ev m with ⟨e | a, m'⟩ <;> rw [hev] at hs hd
  · exact ⟨hs.andThen (.ended _ _), hd⟩
  · obtain ⟨hs', hd'⟩ := hf a m' hd
    exact ⟨hs.andThen hs', hd'⟩

theorem Realizes.holding {act : Plan σ α} {ev : Eval σ α} (h : Realizes host limit d act ev) (cells : List Cell) :
    Realizes host limit d (act.holding cells) (Eval.holding cells ev) := by
  intro m hm
  obtain ⟨hs, hd⟩ := h { m with memory := m.memory.holding cells } hm
  exact ⟨hs.andThen (.ended _ _), hd⟩

theorem Realizes.attempt {act : Plan σ α} {ev : Eval σ α} (h : Realizes host limit d act ev) :
    Realizes host limit d act.attempt (Eval.attempt ev) := by
  intro m hm
  obtain ⟨hs, hd⟩ := h m hm
  exact ⟨hs.andThen (.ended _ _), hd⟩

/-- What is done as the body of one more script function comes back to the depth where that was called. -/
theorem Realizes.deeper {act : Plan σ α} {ev : Eval σ α} (h : Realizes host limit (d + 1) act ev) :
    Realizes host limit d act.deeper (Eval.deeper ev) := by
  intro m hm
  obtain ⟨hs, hd⟩ := h { m with depth := m.depth + 1 } (by simp [hm])
  refine ⟨hs.andThen (.ended _ _), ?_⟩
  show (ev _).2.depth - 1 = d
  omega

/-- A task is done as its plan is, and the tasks below it are those of its plan. -/
theorem realizes_ask {k : Kind} {task : Task k} {ev : Eval σ k.Answer}
    (h : Realizes host limit d (task.plan host limit) ev) : Realizes host limit d (Plan.ask task) ev := by
  intro m hm
  obtain ⟨hs, hd⟩ := h m hm
  exact ⟨.asks (Acc.intro _ fun _ hx => hs.acc_of_asks hx) hs.finishes (.ended _ _), hd⟩

end Realizes

/-! ## The functions of the evaluator -/

section Functions

variable {σ : Type} {host : Host σ} {limit d : Nat} {calls : Calls σ} {scope : ScopeId} {span : Span}

/-- Calls of closures are done as the calls of an evaluation do them. -/
def RealizesCalls (host : Host σ) (limit d : Nat) (calls : Calls σ) : Prop :=
  calls.host = host ∧ ∀ c args span, Realizes host limit d (Plan.ask (.enter c args span)) (calls.enter c args span)

section Values

variable (h : RealizesCalls host limit d calls)

include h

theorem realizes_hostStep (step : HostStep σ) :
    Realizes host limit d (Plan.hostStep span step) (calls.finish span step) := by
  induction step with
  | finish result memory state =>
    exact (realizes_now (keepsDepth_adopt _ _)).bind fun _ => realizes_now (keepsDepth_lift _ _)
  | enter c args kept memory state resume ih =>
    refine (realizes_now (keepsDepth_adopt _ _)).bind fun _ => ((h.2 c args {}).holding _).attempt.bind fun answer => ?_
    exact (realizes_now keepsDepth_get).bind fun m => ih _ _ _

theorem realizes_invoke (callee : Value) (args : List Value) :
    Realizes host limit d (Plan.ask (.invoke callee args span)) (calls.invoke callee args span) := by
  refine realizes_ask ?_
  cases callee with
  | closure c => exact (h.2 c args span).holding _
  | native n =>
    have hhost : calls.host = host := h.1
    subst hhost
    exact (realizes_now keepsDepth_get).bind fun m => realizes_hostStep h _
  | _ => exact realizes_fail _ _

end Values

/-- Where an operand in a slot is realized, so is what it stands for. -/
theorem realizes_slotValue {a : Option Operand}
    (ha : ∀ b ∈ a, Realizes host limit d (Plan.ask (.operand scope span b)) (b.eval calls scope span)) :
    Realizes host limit d (Plan.slotValue scope span a) (Operand.evalSlot calls scope span a) := by
  cases a with
  | none => rw [Operand.evalSlot]; exact realizes_fail _ _
  | some a =>
    rw [Operand.evalSlot]
    exact (ha a rfl).bind fun v => realizes_now (keepsDepth_resolve _ _)

/-- The evaluation of the access to a property, as it stands in that of expressions and in that of targets. -/
def Expression.evalAccess (calls : Calls σ) (scope : ScopeId) (e : Expression) : Eval σ Reference := do
  let key ← memberName e.span e.right
  let (parent, named) ← Operand.evalParent calls scope e.span e.left
  referenceTo e.span key named parent

theorem realizes_property {e : Expression}
    (ha : ∀ b ∈ e.left, Realizes host limit d (Plan.ask (.operand scope e.span b)) (b.eval calls scope e.span)) :
    Realizes host limit d (Plan.ask (.property scope e)) (e.evalAccess calls scope) := by
  refine realizes_ask ((realizes_now (keepsDepth_memberName _ _)).bind fun key => ?_)
  have hparent : Realizes host limit d (Plan.parentValue scope e.span e.left)
      (Operand.evalParent calls scope e.span e.left) := by
    cases hl : e.left with
    | none => rw [Operand.evalParent]; exact realizes_fail _ _
    | some a =>
      rw [Operand.evalParent]
      exact (ha a hl).bind fun v => realizes_pure _
  exact hparent.bind fun r => realizes_now (keepsDepth_referenceTo _ _ _ _)

theorem target_of_ne_child {mayDeclare : Bool} {e : Expression} (h : e.operator? ≠ some .child) :
    Operand.target calls scope span mayDeclare (.expression e) = fail span .invalidAssignmentTarget := by
  rw [Operand.target]
  · simp
  · simp
  · rintro left opSpan right place ⟨⟩
    exact h rfl

/-- Where accesses to properties are realized, so is the target that an operand in a slot is. -/
theorem realizes_target {mayDeclare : Bool} {a : Option Operand}
    (ha : ∀ e, a = some (.expression e) →
      Realizes host limit d (Plan.ask (.property scope e)) (e.evalAccess calls scope)) :
    Realizes host limit d (Plan.target scope span mayDeclare a)
      (Operand.slotTarget calls scope span mayDeclare a) := by
  cases a with
  | none => rw [Operand.slotTarget]; exact realizes_fail _ _
  | some a =>
    rw [Operand.slotTarget]
    match a with
    | .var ⟨name, .use, _⟩ => rw [Operand.target]; exact realizes_pure _
    | .var ⟨name, .declare, _⟩ =>
      rw [Operand.target]
      cases mayDeclare
      · exact realizes_fail _ _
      · exact realizes_pure _
    | .expression e =>
      by_cases hop : e.operator? = some .child
      · have hp := (ha e rfl).bind fun r => realizes_pure (Target.property r)
        simp only [Expression.evalAccess, bind_assoc] at hp
        rw [Plan.target, if_pos hop]
        obtain ⟨left, _ | ⟨kind, opSpan⟩, right, place⟩ := e
        · cases hop
        · obtain rfl : kind = .child := Option.some.inj hop
          rw [Operand.target]
          exact hp
      · rw [Plan.target, if_neg hop, target_of_ne_child hop]
        exact realizes_fail _ _
    | .value _ | .object _ | .block _ | .function _ _ | .call _ _ =>
      rw [Operand.target]
      · exact realizes_fail _ _
      all_goals simp

/-- An assignment is realized when its value and its target are. -/
theorem realizes_assignment {e : Expression} {value : Eval σ Value} {target : Eval σ Target}
    (hv : Realizes host limit d (Plan.slotValue scope e.span e.right) value)
    (ht : Realizes host limit d (Plan.target scope e.span true e.written) target) :
    Realizes host limit d (Plan.ask (.assignment scope e)) (assign scope e.span value target) :=
  realizes_ask <| hv.bind fun v =>
    ((ht.bind fun _ => realizes_now (keepsDepth_updateMemory _ _)).holding _).bind fun _ => realizes_pure v

theorem realizes_compound {base : OperatorKind} {e : Expression} {value : Eval σ Value} {target : Eval σ Target}
    (hv : Realizes host limit d (Plan.slotValue scope e.span e.right) value)
    (ht : Realizes host limit d (Plan.target scope e.span false e.written) target) :
    Realizes host limit d (Plan.ask (.compound scope base e)) (assignWith base scope e.span value target) := by
  refine realizes_ask (hv.bind fun v => (ht.bind fun t => ?_).holding _)
  rw [← bind_assoc (m := Eval σ)]
  refine (realizes_now (keepsDepth_memory.bind fun n => keepsDepth_lift _ _)).bind fun current => ?_
  refine (realizes_now (keepsDepth_lift _ _)).bind fun updated => ?_
  exact (realizes_now (keepsDepth_updateMemory _ _)).bind fun _ => realizes_pure _

theorem realizes_step {op : OperatorKind} {e : Expression} {target : Eval σ Target}
    (ht : Realizes host limit d (Plan.target scope e.span false e.written) target) :
    Realizes host limit d (Plan.ask (.step scope op e)) (stepBy op e.left.isNone scope e.span target) :=
  realizes_ask (ht.bind fun t => realizes_now (keepsDepth_stepBy _ _ _ _ t))

/-- An operation is realized when its operands and its target are. -/
theorem realizes_operation {left right : Option Operand} {op : Operator} {place : Span}
    (hleft : ∀ b ∈ left, Realizes host limit d (Plan.ask (.operand scope place b)) (b.eval calls scope place))
    (hright : ∀ b ∈ right, Realizes host limit d (Plan.ask (.operand scope place b)) (b.eval calls scope place))
    (hwritten : ∀ mayDeclare, Realizes host limit d
      (Plan.target scope place mayDeclare (Expression.mk left op right place).written)
      (if left.isSome then Operand.slotTarget calls scope place mayDeclare left
        else Operand.slotTarget calls scope place mayDeclare right)) :
    Realizes host limit d (Plan.expression scope ⟨left, op, right, place⟩)
      (Expression.eval calls scope ⟨left, op, right, place⟩) := by
  have hvalue := realizes_slotValue hright
  obtain ⟨kind, opSpan⟩ := op
  rw [Expression.eval.eq_def]
  unfold Plan.expression
  dsimp only
  cases Expression.checkShape ⟨left, some ⟨kind, opSpan⟩, right, place⟩ with
  | some fault => exact realizes_fail _ _
  | none =>
    dsimp only
    cases hbase : kind.compoundBase with
    | some base => exact realizes_compound hvalue (hwritten false)
    | none =>
      cases kind with
      | ret => exact realizes_fail _ _
      | assign => exact realizes_assignment hvalue (hwritten true)
      | inc => exact realizes_step (hwritten false)
      | dec => exact realizes_step (hwritten false)
      | child =>
        have haccess : Realizes host limit d (Plan.ask (.property scope ⟨left, some ⟨.child, opSpan⟩, right, place⟩))
            (Expression.evalAccess calls scope ⟨left, some ⟨.child, opSpan⟩, right, place⟩) := realizes_property hleft
        have hvalue := haccess.bind fun r => realizes_pure (Value.reference r)
        simp only [Expression.evalAccess, bind_assoc] at hvalue
        exact hvalue
      | not => exact hvalue.bind fun v => realizes_now (keepsDepth_negate _ _)
      | addAssign => cases hbase
      | subAssign => cases hbase
      | mulAssign => cases hbase
      | divAssign => cases hbase
      | modAssign => cases hbase
      | _ =>
        refine (realizes_slotValue hleft).bind fun a => ?_
        exact (hvalue.holding _).bind fun b => realizes_now (keepsDepth_lift _ _)

mutual

theorem realizes_operand (h : RealizesCalls host limit d calls) (scope : ScopeId) (span : Span) (a : Operand) :
    Realizes host limit d (Plan.ask (.operand scope span a)) (a.eval calls scope span) := by
  refine realizes_ask ?_
  match a with
  | .value l => rw [Operand.eval]; exact realizes_pure _
  | .var ⟨name, .declare, place⟩ => rw [Operand.eval]; exact realizes_fail _ _
  | .var ⟨name, .use, place⟩ =>
    rw [Operand.eval]
    exact realizes_now (keepsDepth_memory.bind fun n => keepsDepth_lift _ _)
  | .object ps =>
    rw [Operand.eval]
    refine (realizes_now (keepsDepth_create _)).bind fun o => ?_
    exact ((realizes_properties h scope o ps).holding _).bind fun _ => realizes_pure _
  | .block s =>
    rw [Operand.eval]
    refine (realizes_block h scope s).bind fun flow => ?_
    cases flow with
    | completed => exact realizes_pure _
    | returning v => exact realizes_fail _ _
  | .expression e => rw [Operand.eval]; exact realizes_expression h scope e
  | .function ps s =>
    rw [Operand.eval]
    exact (realizes_now (keepsDepth_create _)).bind fun c => realizes_pure _
  | .call callee es =>
    rw [Operand.eval]
    refine (realizes_expression h scope callee).bind fun f => (realizes_now (keepsDepth_resolve _ _)).bind fun f => ?_
    exact ((realizes_values h scope es []).holding _).bind fun args => realizes_invoke h f args
termination_by sizeOf a

theorem realizes_properties (h : RealizesCalls host limit d calls) (scope : ScopeId) (o : ObjectId)
    (ps : List Property) :
    Realizes host limit d (Plan.properties scope o ps) (Property.evalAll calls scope o ps) := by
  match ps with
  | [] => rw [Property.evalAll]; exact realizes_pure _
  | ⟨key, e⟩ :: rest =>
    rw [Property.evalAll]
    refine (realizes_expression h scope e).bind fun v => (realizes_now (keepsDepth_resolve _ _)).bind fun v => ?_
    rw [← bind_assoc (m := Eval σ)]
    refine (realizes_now (keepsDepth_memory.bind fun n => keepsDepth_setMemory _)).bind fun _ => ?_
    exact realizes_properties h scope o rest
termination_by sizeOf ps

theorem realizes_values (h : RealizesCalls host limit d calls) (scope : ScopeId) (es : List Expression)
    (before : List Value) :
    Realizes host limit d (Plan.values scope before es) (Expression.evalAll calls scope before es) := by
  match es with
  | [] => rw [Expression.evalAll]; exact realizes_pure _
  | e :: rest =>
    rw [Expression.evalAll]
    refine (realizes_expression h scope e).bind fun v => (realizes_now (keepsDepth_resolve _ _)).bind fun v => ?_
    exact (realizes_values h scope rest (before ++ [v])).holding _
termination_by sizeOf es

theorem realizes_slot (h : RealizesCalls host limit d calls) (scope : ScopeId) (span : Span) (a : Option Operand) :
    ∀ b ∈ a, Realizes host limit d (Plan.ask (.operand scope span b)) (b.eval calls scope span) := by
  match a with
  | none => exact fun _ hb => by cases hb
  | some a =>
    rintro b ⟨⟩
    exact realizes_operand h scope span a
termination_by sizeOf a

theorem realizes_access (h : RealizesCalls host limit d calls) (scope : ScopeId) (e : Expression) :
    Realizes host limit d (Plan.ask (.property scope e)) (e.evalAccess calls scope) := by
  match e with
  | ⟨left, op, right, span⟩ => exact realizes_property (realizes_slot h scope span left)
termination_by sizeOf e

theorem realizes_written (h : RealizesCalls host limit d calls) (scope : ScopeId) (span : Span) (mayDeclare : Bool)
    (a : Option Operand) :
    Realizes host limit d (Plan.target scope span mayDeclare a) (Operand.slotTarget calls scope span mayDeclare a) := by
  match a with
  | some (.expression e) => exact realizes_target fun _ he => by cases he; exact realizes_access h scope e
  | none | some (.value _) | some (.var _) | some (.object _) | some (.block _) | some (.function _ _)
  | some (.call _ _) => exact realizes_target fun _ he => by cases he
termination_by sizeOf a

theorem realizes_expression (h : RealizesCalls host limit d calls) (scope : ScopeId) (e : Expression) :
    Realizes host limit d (Plan.ask (.expression scope e)) (e.eval calls scope) := by
  refine realizes_ask ?_
  show Realizes host limit d (Plan.expression scope e) _
  match e with
  | ⟨left, some op, right, span⟩ =>
    refine realizes_operation (realizes_slot h scope span left) (realizes_slot h scope span right) fun mayDeclare => ?_
    unfold Expression.written
    split
    · exact realizes_written h scope span mayDeclare left
    · exact realizes_written h scope span mayDeclare right
  | ⟨left, none, right, span⟩ =>
    rw [Expression.eval.eq_def]
    unfold Plan.expression
    dsimp only
    cases Expression.checkShape ⟨left, none, right, span⟩ with
    | some fault => exact realizes_fail _ _
    | none =>
      cases left with
      | none => exact realizes_fail _ _
      | some a => exact realizes_operand h scope span a
termination_by sizeOf e

theorem realizes_block (h : RealizesCalls host limit d calls) (scope : ScopeId) (s : Scope) :
    Realizes host limit d (Plan.ask (.block scope s)) (s.execInside calls scope) := by
  refine realizes_ask ?_
  match s with
  | ⟨body, span⟩ =>
    rw [Scope.execInside]
    refine (realizes_now (keepsDepth_create _)).bind fun inner => ?_
    exact (realizes_ask (realizes_statements h inner body)).holding _
termination_by sizeOf s

theorem realizes_statements (h : RealizesCalls host limit d calls) (scope : ScopeId) (body : List Statement) :
    Realizes host limit d (Plan.statements scope body) (Statement.execAll calls scope body) := by
  match body with
  | [] => rw [Statement.execAll]; exact realizes_pure _
  | s :: rest =>
    rw [Statement.execAll]
    refine (realizes_statement h scope s).bind fun flow => ?_
    cases flow with
    | completed => exact realizes_statements h scope rest
    | returning v => exact realizes_pure _
termination_by sizeOf body

theorem realizes_statement (h : RealizesCalls host limit d calls) (scope : ScopeId) (s : Statement) :
    Realizes host limit d (Plan.ask (.statement scope s)) (s.exec calls scope) := by
  refine realizes_ask ?_
  show Realizes host limit d (Plan.statement scope s) _
  rw [Plan.statement.eq_def]
  split
  · rename_i value span _
    rw [Statement.exec]
    refine (realizes_operand h scope span value).bind fun v => ?_
    exact (realizes_now (keepsDepth_resolve _ _)).bind fun v => realizes_pure _
  · rename_i block _ _
    rw [Statement.exec]
    exact realizes_block h scope block
  · rename_i e _ hret hblock
    rw [Statement.exec]
    · exact (realizes_expression h scope e).bind fun v => realizes_pure _
    · exact hret
    · exact hblock
termination_by sizeOf s

end

theorem realizes_exec (h : RealizesCalls host limit d calls) (scope : ScopeId) (s : Scope) :
    Realizes host limit d (Plan.ask (.statements scope s.body)) (s.exec calls scope) := by
  obtain ⟨body, span⟩ := s
  rw [Scope.exec]
  exact realizes_ask (realizes_statements h scope body)

end Functions

/-! ## Calls and whole runs -/

section Runs

variable {σ : Type} (host : Host σ) (limit : Nat)

/-- Calls of closures are realized at every depth, by induction on the levels that are left. -/
theorem realizes_enter (room : Nat) : ∀ d, limit - d = room → ∀ c args span, Realizes host limit d
    (Plan.ask (.enter c args span)) (callWithin host (refuseCall limit) room c args span) := by
  induction room with
  | zero =>
    intro d hd c args span
    refine realizes_ask fun m hm => ?_
    have hfull : limit ≤ m.depth := by omega
    show Settles host limit ((if limit ≤ m.depth then _ else _ : Plan σ Value) m) _ _ ∧ _
    rw [if_pos hfull]
    exact realizes_fail span _ m hm
  | succ room ih =>
    intro d hd c args span
    refine realizes_ask fun m hm => ?_
    have hroom : ¬limit ≤ m.depth := by omega
    have hcalls : RealizesCalls host limit (d + 1) ⟨host, callWithin host (refuseCall limit) room⟩ :=
      ⟨rfl, ih (d + 1) (by omega)⟩
    show Settles host limit ((if limit ≤ m.depth then _ else _ : Plan σ Value) m) _ _ ∧ _
    rw [if_neg hroom]
    refine Realizes.bind (realizes_now (keepsDepth_lift span _)) (fun r => ?_) m hm
    refine (realizes_now (keepsDepth_setMemory r.2)).bind fun _ => ?_
    refine Realizes.bind ?_ fun flow => realizes_pure flow.value
    exact ((realizes_exec hcalls r.1 _).holding _).deeper

theorem realizesCalls_callsAt (d : Nat) : RealizesCalls host limit d (callsAt host limit d) :=
  ⟨rfl, realizes_enter host limit _ d rfl⟩

/-- Every task is realized by a computation, from every machine. -/
theorem exists_realizes {k : Kind} (task : Task k) (d : Nat) :
    ∃ ev : Eval σ k.Answer, Realizes host limit d (Plan.ask task) ev := by
  have hc := realizesCalls_callsAt host limit d
  have hvalue (scope : ScopeId) (e : Expression) := realizes_slotValue (realizes_slot hc scope e.span e.right)
  cases task with
  | statements scope body => exact ⟨_, realizes_ask (realizes_statements hc scope body)⟩
  | statement scope s => exact ⟨_, realizes_statement hc scope s⟩
  | block scope s => exact ⟨_, realizes_block hc scope s⟩
  | expression scope e => exact ⟨_, realizes_expression hc scope e⟩
  | operand scope span a => exact ⟨_, realizes_operand hc scope span a⟩
  | property scope e => exact ⟨_, realizes_access hc scope e⟩
  | assignment scope e => exact ⟨_, realizes_assignment (hvalue scope e) (realizes_written hc scope e.span _ _)⟩
  | compound scope base e => exact ⟨_, realizes_compound (hvalue scope e) (realizes_written hc scope e.span _ _)⟩
  | step scope op e => exact ⟨_, realizes_step (realizes_written hc scope e.span _ _)⟩
  | invoke callee args span => exact ⟨_, realizes_invoke hc callee args⟩
  | enter c args span => exact ⟨_, hc.2 c args span⟩

/-- No task can ask for tasks below it without end. -/
theorem wellFounded_activates : WellFounded fun x y : Activation σ => y.Activates host limit x := by
  refine ⟨fun ⟨k, task, m⟩ => ?_⟩
  obtain ⟨ev, h⟩ := exists_realizes host limit task m.depth
  exact (h m rfl).1.acc_of_asks .first

/-- Every task ends, wherever it starts. -/
theorem exists_finishes (x : Activation σ) :
    ∃ result m', Finishes host limit (x.task.plan host limit x.machine) result m' := by
  obtain ⟨k, task, m⟩ := x
  obtain ⟨ev, h⟩ := exists_realizes host limit task m.depth
  cases (h m rfl).1 with
  | asks _ hdone _ => exact ⟨_, _, hdone⟩

/-- The running of a program ends as evaluation computes it. -/
theorem finishes_execute (scope : ScopeId) (p : Program) (m : Machine σ) :
    Finishes host limit (p.plan scope m) (execute host limit scope p m).1 (execute host limit scope p m).2 := by
  have hflow := (realizes_exec (realizesCalls_callsAt host limit m.depth) scope p.body).holding [.scope scope]
  exact ((hflow.bind fun flow => realizes_pure flow.value) m rfl).1.finishes

/-- The call of a value from the host ends as evaluation computes it. -/
theorem finishes_callValue (callee : Value) (args : List Value) (m : Machine σ) :
    Finishes host limit (callPlan callee args m) (callValue host limit callee args m).1
      (callValue host limit callee args m).2 := by
  have hcallee : Realizes host limit m.depth (Plan.holding (Value.cells args) (Plan.now (resolve {} callee)))
      (Eval.holding (Value.cells args) (resolve {} callee)) := (realizes_now (keepsDepth_resolve _ _)).holding _
  have hinvoke (f : Value) : Realizes host limit m.depth (Plan.ask (.invoke f args {}))
      (do (callsAt host limit (← get).depth).invoke f args {}) := fun m' hm => by
    have h : Realizes host limit m'.depth (Plan.ask (.invoke f args {})) _ :=
      realizes_invoke (realizesCalls_callsAt host limit m'.depth) f args
    exact hm ▸ h m' rfl
  exact ((hcallee.bind hinvoke) m rfl).1.finishes

theorem Action.finishes_run (a : Action) (m : Machine σ) :
    Finishes host limit (a.plan m) (a.run host limit m).1 (a.run host limit m).2 := by
  cases a with
  | execute scope p => exact finishes_execute host limit scope p m
  | call callee args => exact finishes_callValue host limit callee args m

/-- Every evaluation ends: no task can ask for tasks below it without end, every task at every machine ends with a
result, and so do the running of a program and the call of a value, with what evaluation computes. -/
theorem evaluation_terminates :
    WellFounded (fun x y : Activation σ => y.Activates host limit x) ∧
      (∀ x : Activation σ, ∃ result m', Finishes host limit (x.task.plan host limit x.machine) result m') ∧
      (∀ scope (p : Program) (m : Machine σ),
        Finishes host limit (p.plan scope m) (execute host limit scope p m).1 (execute host limit scope p m).2) ∧
      ∀ callee args (m : Machine σ), Finishes host limit (callPlan callee args m)
        (callValue host limit callee args m).1 (callValue host limit callee args m).2 :=
  ⟨wellFounded_activates host limit, exists_finishes host limit, finishes_execute host limit,
    finishes_callValue host limit⟩

end Runs

end GameScript
