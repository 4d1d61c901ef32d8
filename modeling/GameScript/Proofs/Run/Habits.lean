import GameScript.Proofs.Run.Course
import GameScript.Proofs.Run.Outcomes
import GameScript.Run.Frame
import GameScript.Proofs.Tree.Placed

/-!
# Habits

A `Conduct` says what may become of a machine where no task is asked for, which faults may be raised, and at what places.
A `Habit` is a property of plans that those have which so conduct themselves, and that is kept when plans are put
together. Its rules are about the combinators only; that the functions of the evaluator have it follows once for all
habits, with a lemma for each function (`Habit.expression` and its sisters).

What is done to objects is done by few of them. These have a habit where it allows that (`Conduct.TouchesObjects`), and
the others whether or not it does.
-/

namespace GameScript

open Eval

theorem RuntimeError.Operational.ne_callDepthExceeded {e : RuntimeError} (h : e.Operational) (limit : Nat) :
    e ≠ .callDepthExceeded limit := by
  rintro rfl
  obtain h | ⟨key, h⟩ := h
  · exact h
  · cases h

/-- The places that a task is given. -/
def Task.Placed (G : Span → Prop) : {k : Kind} → Task k → Prop
  | _, .expression _ e => G e.span
  | _, .assignment _ e => G e.span
  | _, .operand _ span _ => G span
  | _, .invoke _ _ span => G span
  | _, .enter _ _ span => G span
  | _, _ => True

/-- What may be done where no task is asked for. -/
structure Conduct where
  /-- What may become of memory. -/
  change : Memory → Memory → Prop
  fault : RuntimeFault → Prop
  /-- Where faults may be raised. -/
  place : Span → Prop
  change_refl : ∀ m, change m m
  change_trans : ∀ {m n k}, change m n → change n k → change m k
  change_bind : ∀ m t name v, change m (m.bind t name v)
  change_newScope : ∀ m t, change m (m.newScope t).2
  change_newClosure : ∀ m f, change m (m.newClosure f).2
  /-- Only calls are refused. -/
  fault_of_place : ∀ {e span}, place span → (∀ limit, e ≠ .callDepthExceeded limit) → fault ⟨e, span⟩

/-- Objects may be made, and their properties be set. -/
structure Conduct.TouchesObjects (C : Conduct) : Prop where
  newObject : ∀ m ps, C.change m (m.newObject ps).2
  setProperty : ∀ m o key v, C.change m (m.setProperty o key v)

/-- Done with what may be done and raised, and with the counter as it was. -/
structure Conduct.Permits {σ α : Type} (C : Conduct) (m : Machine σ) (r : Except RuntimeFault α) (m' : Machine σ) :
    Prop where
  change : C.change m.memory m'.memory
  depth : m'.depth = m.depth
  fault : ∀ f, r = .error f → C.fault f

/-- Whatever a computation does and raises may be done and raised. -/
def Conduct.Allows {σ α : Type} (C : Conduct) (ev : Eval σ α) : Prop := ∀ m, C.Permits m (ev m).1 (ev m).2

/-- A property of plans that conduct themselves in a way, which is kept when they are put together. -/
structure Habit (σ : Type) extends Conduct where
  plan : {α : Type} → Plan σ α → Prop
  now : ∀ {α : Type} {ev : Eval σ α}, toConduct.Allows ev → plan (.now ev)
  bind : ∀ {α β : Type} {act : Plan σ α} {f : α → Plan σ β}, plan act → (∀ a, plan (f a)) → plan (act >>= f)
  ask : ∀ {k : Kind} {task : Task k}, task.Placed place → plan (.ask task)
  holding : ∀ {α : Type} {act : Plan σ α} {cells : List Cell}, plan act → plan (act.holding cells)

variable {σ α β : Type} {span : Span}

namespace Conduct

variable {C : Conduct}

/-! ## Memory -/

/-- A write may be done unless it would set a property that may not be set. -/
theorem change_write {t : Target} (ht : C.TouchesObjects ∨ ∀ r, t ≠ .property r) {v : Value} {s : ScopeId}
    {m n : Memory} (h : t.write v s m = .ok n) : C.change m n := by
  cases t with
  | declare name =>
    obtain ⟨-, rfl⟩ := Memory.declare_eq_ok_iff.1 h
    exact C.change_bind m _ _ _
  | existing name =>
    obtain ⟨t, -, rfl⟩ := Memory.update_eq_ok_iff.1 h
    exact C.change_bind m _ _ _
  | property r =>
    obtain rfl := Memory.eq_of_write h
    exact (ht.resolve_right fun hne => hne r rfl).setProperty m _ _ _

theorem change_declareAll {m n : Memory} {t : ScopeId} {bindings : List (String × Value)}
    (h : m.declareAll t bindings = .ok n) : C.change m n := by
  induction bindings generalizing m with
  | nil =>
    cases h
    exact C.change_refl _
  | cons b rest ih =>
    obtain ⟨k, hk, hrest⟩ := exists_of_bind_eq_ok h
    obtain ⟨-, rfl⟩ := Memory.declare_eq_ok_iff.1 hk
    exact C.change_trans (C.change_bind m t b.1 b.2) (ih hrest)

theorem change_newFunctionScope {m n : Memory} {p t : ScopeId} {parameters : List String} {args : List Value}
    (h : m.newFunctionScope p parameters args = .ok (t, n)) : C.change m n := by
  unfold Memory.newFunctionScope at h
  split at h
  · obtain ⟨k, hk, hrest⟩ := exists_of_bind_eq_ok h
    cases hrest
    exact C.change_trans (C.change_newScope m _) (change_declareAll hk)
  · cases h

/-! ## Computations -/

theorem permits_ok {a : α} {m : Machine σ} : C.Permits m (.ok a) m := ⟨C.change_refl _, rfl, fun _ h => by cases h⟩

theorem allows_pure (a : α) : C.Allows (pure a : Eval σ α) := fun _ => permits_ok

theorem allows_get : C.Allows (get : Eval σ (Machine σ)) := fun _ => permits_ok

theorem allows_memory : C.Allows (memory : Eval σ Memory) := fun _ => permits_ok

theorem Allows.bind {ev : Eval σ α} {f : α → Eval σ β} (h : C.Allows ev) (hf : ∀ a, C.Allows (f a)) :
    C.Allows (ev >>= f) := by
  intro m
  have hm := h m
  rw [Eval.bind_apply]
  rcases hev : ev m with ⟨e | a, m'⟩ <;> rw [hev] at hm
  · exact ⟨hm.change, hm.depth, fun f hf => hm.fault f (by cases hf; rfl)⟩
  · have hrest := hf a m'
    exact ⟨C.change_trans hm.change hrest.change, hrest.depth.trans hm.depth, hrest.fault⟩

theorem allows_create {make : Memory → α × Memory} (h : ∀ m, C.change m (make m).2) :
    C.Allows (create make : Eval σ α) := fun m => ⟨h m.memory, rfl, fun _ h => by cases h⟩

theorem allows_raise {e : RuntimeError} (h : C.fault ⟨e, span⟩) : C.Allows (fail span e : Eval σ α) := by
  refine fun _ => ⟨C.change_refl _, rfl, ?_⟩
  rintro _ ⟨⟩
  exact h

variable (h : C.place span)

include h

theorem allows_fail {e : RuntimeError} (he : ∀ limit, e ≠ .callDepthExceeded limit) :
    C.Allows (fail span e : Eval σ α) := allows_raise (C.fault_of_place h he)

theorem allows_lift {x : Except RuntimeError α} (hx : Refuses RuntimeError.Operational x) :
    C.Allows (Eval.lift span x : Eval σ α) := by
  cases x with
  | ok a => exact allows_pure a
  | error e => exact allows_fail h (hx e rfl).ne_callDepthExceeded

theorem allows_inspect {look : Memory → Except RuntimeError α} (hlook : ∀ m, Refuses RuntimeError.Operational (look m)) :
    C.Allows (do Eval.lift span (look (← memory)) : Eval σ α) := allows_memory.bind fun m => allows_lift h (hlook m)

theorem allows_resolve (v : Value) : C.Allows (resolve span v : Eval σ Value) :=
  allows_inspect h fun m => refuses_resolve m v

theorem allows_write {t : Target} (ht : C.TouchesObjects ∨ ∀ r, t ≠ .property r) (v : Value) (s : ScopeId) :
    C.Allows (updateMemory span (t.write v s) : Eval σ Unit) := by
  intro m
  have hstep : updateMemory span (t.write v s) m = (Eval.lift span (t.write v s m.memory) >>= setMemory : Eval σ Unit) m :=
    rfl
  rw [hstep, Eval.bind_apply]
  cases hx : t.write v s m.memory with
  | ok n => exact ⟨change_write ht hx, rfl, fun _ h => by cases h⟩
  | error e => exact allows_fail (α := Unit) h (refuses_targetWrite _ s v t e hx).ne_callDepthExceeded m

theorem allows_negate (v : Value) : C.Allows (negate span v : Eval σ Value) := by
  cases v <;> first | exact allows_pure _ | exact allows_fail h (by simp)

theorem allows_memberName (a : Option Operand) : C.Allows (memberName span a : Eval σ String) := by
  unfold memberName
  split
  · exact allows_pure _
  · exact allows_fail h (by simp)

theorem allows_referenceTo (key : String) (named : Bool) (parent : Value) :
    C.Allows (referenceTo span key named parent : Eval σ Reference) := by
  refine (allows_resolve h parent).bind fun v => ?_
  cases v <;> first | exact allows_pure _ | exact allows_fail h (by simp)

/-- A step is never one of a property. -/
theorem allows_stepBy (op : OperatorKind) (new : Bool) (s : ScopeId) (t : Target) :
    C.Allows (stepBy op new s span (pure t) : Eval σ Value) := by
  refine (allows_pure t).bind fun t => ?_
  cases t with
  | property r => exact allows_fail h (by simp)
  | _ =>
    refine allows_memory.bind fun m => (allows_lift h (refuses_targetRead m s _)).bind fun v => ?_
    cases v with
    | int old =>
      refine (allows_lift h ((plain_checked _).1.mono fun _ hplain => .inl hplain.basic)).bind fun u => ?_
      exact (allows_write h (.inr fun r => Target.noConfusion) _ s).bind fun _ => allows_pure _
    | _ => exact allows_fail h (by simp)

end Conduct

/-! ## Parts of evaluation -/

namespace Habit

open Conduct

variable (H : Habit σ) {s : ScopeId} {e : Expression}

theorem pure (a : α) : H.plan (Pure.pure a) := H.now (allows_pure a)

theorem asking {k : Kind} {task : Task k} {f : k.Answer → Plan σ α} (h : task.Placed H.place)
    (hf : ∀ r, H.plan (f r)) : H.plan (Plan.ask task >>= f) := H.bind (H.ask h) hf

theorem fail (h : H.place span) {e : RuntimeError} (he : ∀ limit, e ≠ .callDepthExceeded limit) :
    H.plan (.now (Eval.fail span e) : Plan σ α) := H.now (allows_fail h he)

theorem resolve (h : H.place span) (v : Value) : H.plan (.now (Eval.resolve span v)) := H.now (allows_resolve h v)

theorem read (h : H.place span) (t : Target) : H.plan (.now do Eval.lift span (t.read (← memory) s)) :=
  H.now (allows_inspect h fun m => refuses_targetRead m s t)

theorem applyBinary (h : H.place span) (op : OperatorKind) (l r : Value) :
    H.plan (.now (Eval.lift span (GameScript.applyBinary op l r))) :=
  H.now (allows_lift h ((plain_applyBinary op l r).1.mono fun _ hplain => .inl hplain.basic))

theorem write (h : H.place span) {t : Target} (ht : H.TouchesObjects ∨ ∀ r, t ≠ .property r) (v : Value) :
    H.plan (.now (updateMemory span (t.write v s))) := H.now (allows_write h ht v s)

theorem slotValue (h : H.place span) (a : Option Operand) : H.plan (.slotValue s span a) := by
  cases a with
  | none => exact H.fail h (by simp)
  | some a => exact H.asking h fun v => H.resolve h v

theorem parentValue (h : H.place span) (a : Option Operand) : H.plan (.parentValue s span a) := by
  cases a with
  | none => exact H.fail h (by simp)
  | some a => exact H.asking h fun _ => H.pure _

theorem target (h : H.place span) (mayDeclare : Bool) (a : Option Operand) :
    H.plan (.target s span mayDeclare a) := by
  unfold Plan.target
  split
  · exact H.pure _
  · split
    · exact H.pure _
    · exact H.fail h (by simp)
  · split
    · exact H.asking trivial fun _ => H.pure _
    · exact H.fail h (by simp)
  · exact H.fail h (by simp)

theorem values {es : List Expression} (hes : ∀ e ∈ es, H.place e.span) (before : List Value) :
    H.plan (.values s before es) := by
  induction es generalizing before with
  | nil => exact H.pure _
  | cons e rest ih =>
    have he : H.place e.span := hes e List.mem_cons_self
    refine H.asking he fun v => H.bind (H.resolve he v) fun u => H.holding ?_
    exact ih (fun e he => hes e (List.mem_cons_of_mem _ he)) _

theorem properties (hobjects : H.TouchesObjects) {o : ObjectId} {ps : List Property}
    (hps : ∀ p ∈ ps, H.place p.value.span) : H.plan (.properties s o ps) := by
  induction ps with
  | nil => exact H.pure _
  | cons p rest ih =>
    obtain ⟨key, e⟩ := p
    have he : H.place e.span := hps ⟨key, e⟩ List.mem_cons_self
    refine H.asking he fun v => H.bind (H.resolve he v) fun u => ?_
    have hset : H.Allows (do setMemory ((← memory).setProperty o key u) : Eval σ Unit) := fun m =>
      ⟨hobjects.setProperty m.memory o key u, rfl, fun _ h => by cases h⟩
    exact H.bind (H.now hset) fun _ => ih fun p hp => hps p (List.mem_cons_of_mem _ hp)

/-! ## What the functions do -/

theorem statements (body : List Statement) : H.plan (.statements s body) := by
  induction body with
  | nil => exact H.pure _
  | cons t rest ih =>
    refine H.asking trivial fun flow => ?_
    cases flow with
    | completed => exact ih
    | returning v => exact H.pure _

theorem statement {t : Statement} (h : H.place t.body.span) : H.plan (.statement s t) := by
  unfold Plan.statement
  split
  · exact H.asking h fun v => H.bind (H.resolve h v) fun _ => H.pure _
  · exact H.ask trivial
  · exact H.asking h fun _ => H.pure _

theorem block (b : Scope) : H.plan (do
    let inner ← Plan.now (create (·.newScope (some s)))
    Plan.holding [.scope inner] (Plan.ask (.statements inner b.body))) :=
  H.bind (H.now (allows_create fun m => H.change_newScope m (some s))) fun _ => H.holding (H.ask trivial)

theorem expression (h : H.place e.span) : H.plan (.expression s e) := by
  unfold Plan.expression
  split
  · exact H.fail h (by simp)
  · split
    · split
      · exact H.ask h
      · exact H.fail h (by simp)
    · split
      · exact H.ask trivial
      · split
        · exact H.fail h (by simp)
        · exact H.ask h
        · exact H.ask trivial
        · exact H.ask trivial
        · exact H.asking trivial fun _ => H.pure _
        · exact H.bind (H.slotValue h _) fun v => H.now (allows_negate h v)
        · refine H.bind (H.slotValue h _) fun l => H.bind (H.holding (H.slotValue h _)) fun r => ?_
          exact H.applyBinary h _ l r

/-- What an operand does, unless it is an object literal. -/
theorem operand {a : Operand} (h : H.place span) (ha : (Node.operand a).Placed H.place)
    (hobjects : H.TouchesObjects ∨ ∀ ps, a ≠ .object ps) : H.plan (.operand s span a) := by
  cases a with
  | value l => exact H.pure _
  | var v =>
    have hplace : H.place v.span := ha.span (x := .name v) (List.mem_singleton_self _)
    obtain ⟨name, role, place⟩ := v
    cases role with
    | declare => exact H.fail hplace (by simp)
    | use => exact H.now (allows_inspect hplace fun m => (refuses_lookup m s name).mono fun _ => .inl)
  | object ps =>
    have htouches : H.TouchesObjects := hobjects.resolve_right fun hne => hne ps rfl
    have hps : ∀ p ∈ ps, H.place p.value.span := fun p hp => (ha.child (List.mem_map_of_mem hp)).expression
    refine H.bind (H.now (allows_create fun m => htouches.newObject m [])) fun o => ?_
    exact H.bind (H.holding (H.properties htouches hps)) fun _ => H.pure _
  | block b =>
    refine H.asking trivial fun flow => ?_
    cases flow with
    | completed => exact H.pure _
    | returning v => exact H.fail (ha.span (x := .scope b) (List.mem_singleton_self _)) (by simp)
  | expression e => exact H.ask (ha.child (List.mem_singleton_self _)).expression
  | function ps b => exact H.bind (H.now (allows_create fun m => H.change_newClosure m ⟨ps, b, s⟩)) fun _ => H.pure _
  | call callee args =>
    have hcallee : H.place callee.span := (ha.child List.mem_cons_self).expression
    have hargs : ∀ e ∈ args, H.place e.span := fun e he =>
      (ha.child (List.mem_cons_of_mem _ (List.mem_map_of_mem he))).expression
    refine H.asking hcallee fun f => H.bind (H.resolve hcallee f) fun f => ?_
    exact H.bind (H.holding (H.values hargs [])) fun _ => H.ask h

theorem property (h : H.place e.span) : H.plan (do
    let key ← Plan.now (memberName e.span e.right)
    let (parent, named) ← Plan.parentValue s e.span e.left
    Plan.now (referenceTo e.span key named parent)) :=
  H.bind (H.now (allows_memberName h _)) fun key => H.bind (H.parentValue h _) fun r =>
    H.now (allows_referenceTo h key r.2 r.1)

theorem step (h : H.place e.span) (op : OperatorKind) : H.plan (.step s op e) :=
  H.bind (H.target h _ _) fun t => H.now (allows_stepBy h op _ s t)

theorem assignment (h : H.place e.span) (hobjects : H.TouchesObjects) : H.plan (.assignment s e) := by
  refine H.bind (H.slotValue h _) fun v => H.bind (H.holding ?_) fun _ => H.pure _
  exact H.bind (H.target h _ _) fun t => H.write h (.inl hobjects) v

theorem compound (h : H.place e.span) (hobjects : H.TouchesObjects) (base : OperatorKind) :
    H.plan (.compound s base e) := by
  refine H.bind (H.slotValue h _) fun v => H.holding (H.bind (H.target h _ _) fun t => ?_)
  refine H.bind (H.read h t) fun current => H.bind (H.applyBinary h base current v) fun u => ?_
  exact H.bind (H.write h (.inl hobjects) u) fun _ => H.pure _

/-- What a function of the host does: it may do anything to memory, and fail with any error. -/
theorem hostStep (hadopt : ∀ m k : Memory, H.change m { k with held := m.held })
    (hattempt : ∀ {act : Plan σ Value}, H.plan act → H.plan act.attempt) (hstart : H.place {})
    (hfault : ∀ e, H.fault ⟨e, span⟩) (step : HostStep σ) : H.plan (Plan.hostStep span step) := by
  have hadopts (k : Memory) (state : σ) : H.plan (.now (adopt k state)) :=
    H.now fun m => ⟨hadopt m.memory k, rfl, fun _ h => by cases h⟩
  induction step with
  | finish result k state =>
    refine H.bind (hadopts k state) fun _ => ?_
    cases result with
    | ok v => exact H.pure v
    | error e => exact H.now (allows_raise (hfault e))
  | enter c args kept k state resume ih =>
    refine H.bind (hadopts k state) fun _ => H.bind (hattempt (H.holding (H.ask hstart))) fun answer => ?_
    exact H.bind (H.now allows_get) fun m => ih _ _ _

theorem program (p : Program) : H.plan (p.plan s) := H.bind (H.holding (H.ask trivial)) fun _ => H.pure _

theorem callPlan (hstart : H.place {}) (callee : Value) (args : List Value) : H.plan (callPlan callee args) :=
  H.bind (H.holding (H.resolve hstart callee)) fun _ => H.ask hstart

end Habit

end GameScript
